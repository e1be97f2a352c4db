import FormFlow.Directory
import FormFlow.Proofs.CompileFailure

/-!
# Where the files of a release lie

The id of an application is a part of the paths of its files, and an id may hold slashes and points.  Read
as a path it leads up some steps and then down through names, its `Route`.  An id that leads up takes its
files out of the directory that releases are meant for, and ids with one route have their files in one
place.  An id that is a single name does neither.

## Principal results

* `foldl_step_eq` — from any place, names lead along their route;
* `release_places` — the places of the files of a release;
* `compile_of_other_settings` — settings do not decide what compiles;
* `artifact_places` — which ids keep their files inside every root directory, and which share a place;
* `artifacts_astray` — an id that leads up, and two ids with one route.
-/

namespace FormFlow

/-! ## Places -/

/-- The names that a path comes to when points and empty names are settled; an absolute path starts at a
slash. -/
def placeOf (path : String) : List String :=
  (Path.ofString path).parts.foldl Directory.step (if (Path.ofString path).root = "" then [] else ["/"])

/-- A place lies strictly below another one. -/
def Inside (root place : List String) : Prop :=
  ∃ rest, rest ≠ [] ∧ (∀ name ∈ rest, name ≠ ".." ∧ name ≠ "/") ∧ place = root ++ rest

/-- Where names lead: up some steps, and then down. -/
structure Route where
  up : Nat
  down : List String
deriving DecidableEq

namespace Route

/-- One name more: two points take back the last name, or lead up where there is none. -/
def append (route : Route) (name : String) : Route :=
  if name ≠ ".." then ⟨route.up, route.down ++ [name]⟩
  else if route.down = [] then ⟨route.up + 1, []⟩
  else ⟨route.up, route.down.dropLast⟩

/-- The route of a list of names. -/
def ofNames (names : List String) : Route := names.foldl append ⟨0, []⟩

/-- The route of an application's id. -/
def ofId (appId : String) : Route := ofNames (Path.ofString appId).parts

theorem ofNames_concat (names : List String) (name : String) :
    ofNames (names ++ [name]) = (ofNames names).append name := by
  rw [ofNames, List.foldl_append]
  rfl

/-- The names that a route leads down through are among those that it was read from. -/
theorem mem_of_mem_down {names : List String} {name : String} (h : name ∈ (ofNames names).down) :
    name ∈ names ∧ name ≠ ".." := by
  induction names using List.reverseRecOn with
  | nil => cases h
  | append_singleton names last ih =>
    rw [ofNames_concat, append] at h
    rw [List.mem_append]
    split at h
    · rename_i hlast
      rcases List.mem_append.1 h with h | h
      · exact ⟨.inl (ih h).1, (ih h).2⟩
      · cases List.mem_singleton.1 h
        exact ⟨.inr (List.mem_singleton.2 rfl), hlast⟩
    · split at h
      · cases h
      · have hkept := ih (List.mem_of_mem_dropLast h)
        exact ⟨.inl hkept.1, hkept.2⟩

end Route

/-- A name below a place that is no way up is taken back by two points. -/
theorem up_concat {place : List String} {name : String}
    (h : name ≠ ".." ∧ name ≠ "/" ∧ name ≠ "//") : Directory.up (place ++ [name]) = place := by
  obtain ⟨hup, hslash, hslashes⟩ := h
  unfold Directory.up
  rw [List.getLast?_concat, List.dropLast_concat]
  split <;> simp_all

/-- **From any place, names lead along their route.** -/
theorem foldl_step_eq {names : List String} (hnames : ∀ name ∈ names, '/' ∉ name.toList)
    (place : List String) :
    names.foldl Directory.step place =
      Directory.up^[(Route.ofNames names).up] place ++ (Route.ofNames names).down := by
  induction names using List.reverseRecOn with
  | nil => simp [Route.ofNames]
  | append_singleton names last ih =>
    have hbefore : ∀ name ∈ names, '/' ∉ name.toList := fun name hname =>
      hnames name (List.mem_append_left _ hname)
    rw [List.foldl_append, List.foldl_cons, List.foldl_nil, ih hbefore, Route.ofNames_concat, Route.append,
      Directory.step]
    by_cases hlast : last = ".."
    · rw [if_pos hlast, if_neg (not_not_intro hlast)]
      rcases List.eq_nil_or_concat' (Route.ofNames names).down with hdown | ⟨front, name, hdown⟩
      · -- There is no name to take back, and the route leads up one step more.
        rw [if_pos hdown, hdown, List.append_nil, List.append_nil, Function.iterate_succ_apply']
      · have hname : name ∈ (Route.ofNames names).down := by
          rw [hdown]
          exact List.mem_append_right _ (List.mem_singleton.2 rfl)
        obtain ⟨hmem, hpoints⟩ := Route.mem_of_mem_down hname
        have hslash := hbefore name hmem
        have hkept : name ≠ ".." ∧ name ≠ "/" ∧ name ≠ "//" := by
          refine ⟨hpoints, ?_, ?_⟩ <;> rintro rfl <;> exact hslash (by decide)
        rw [hdown, if_neg (by simp), ← List.append_assoc, up_concat hkept, List.dropLast_concat]
    · rw [if_neg hlast, if_pos hlast, List.append_assoc]

theorem iterate_up_nil (n : Nat) : Directory.up^[n] [] = List.replicate n ".." := by
  induction n with
  | zero => rfl
  | succ n ih =>
    rw [Function.iterate_succ_apply', ih, List.replicate_succ']
    cases n with
    | zero => rfl
    | succ n => simp [Directory.up, List.getLast?_replicate]

/-- A name that leads down one step. -/
structure SingleName (name : String) : Prop where
  noSlash : '/' ∉ name.toList
  leads : name ≠ "" ∧ name ≠ "." ∧ name ≠ ".."

theorem Route.ofId_of_single {appId : String} (h : SingleName appId) : ofId appId = ⟨0, [appId]⟩ := by
  obtain ⟨hslash, hempty, hpoint, hpoints⟩ := h
  have hparts : (Path.ofString appId).parts = [appId] := by
    unfold Path.ofString
    dsimp only
    rw [Path.splitAt_of_not_mem hslash, List.map_singleton, String.ofList_toList]
    exact List.filter_eq_self.2 fun name hname => by simp_all [Path.isName]
  rw [ofId, hparts]
  exact if_pos hpoints

/-! ## The files of a release -/

/-- The place at which the paths of files start; under an empty root they start at a slash. -/
def rootPlace (outRoot : String) : List String := if outRoot = "" then ["/"] else placeOf outRoot

/-- The place of an application's files. -/
def releasePlace (outRoot appId : String) : List String :=
  Directory.up^[(Route.ofId appId).up] (rootPlace outRoot) ++ (Route.ofId appId).down

/-- The names of the files of a release. -/
def artifactNames : List String := ["app-definition.json", "ui-schema.json", "event-manifest.json"]

theorem artifactNames_parts : ∀ file ∈ artifactNames, (Path.ofString file).parts = [file] ∧
    file ≠ ".." ∧ file ≠ "/" := by
  decide +kernel

theorem placeOf_artifact {file : String} (hfile : file ∈ artifactNames) (outRoot appId : String) :
    placeOf (outRoot ++ "/" ++ appId ++ "/" ++ file) = releasePlace outRoot appId ++ [file] := by
  obtain ⟨hname, hup, _⟩ := artifactNames_parts file hfile
  have hparts : (Path.ofString (outRoot ++ "/" ++ appId ++ "/" ++ file)).parts =
      (Path.ofString outRoot).parts ++ (Path.ofString appId).parts ++ [file] := by
    rw [Path.parts_append, Path.parts_append, hname]
  have hstart : (Path.ofString (outRoot ++ "/" ++ appId ++ "/" ++ file)).root = "" ↔
      outRoot ≠ "" ∧ (Path.ofString outRoot).root = "" := by
    rw [Path.root_eq_empty_iff, Path.root_eq_empty_iff]
    simp only [String.toList_append, ne_eq, ← String.toList_eq_nil_iff]
    cases outRoot.toList <;> simp
  have hroot : (Path.ofString outRoot).parts.foldl Directory.step
      (if (Path.ofString (outRoot ++ "/" ++ appId ++ "/" ++ file)).root = "" then [] else ["/"]) =
        rootPlace outRoot := by
    unfold rootPlace placeOf
    by_cases hempty : outRoot = ""
    · rw [if_pos hempty, if_neg fun h => (hstart.1 h).1 hempty, hempty]
      rfl
    · simp only [hstart, ne_eq, hempty, not_false_eq_true, true_and, if_false]
  rw [placeOf, hparts, List.foldl_append, List.foldl_append, hroot,
    foldl_step_eq fun name => Path.slash_not_mem]
  exact if_neg hup

section

variable {settings : Settings} {app : App} {r : Release}

/-- The files of a release are the three names below its place. -/
theorem release_places (h : release settings app = .ok r) :
    r.files.map (fun f => placeOf f.path) =
      artifactNames.map fun file => releasePlace settings.outRoot app.appId ++ [file] := by
  have hpaths : r.files.map Artifact.path = artifactNames.map fun file =>
      settings.outRoot ++ "/" ++ app.appId ++ "/" ++ file := by
    rw [release_paths h]
    simp only [artifactNames, artifactRoot, List.map_cons, List.map_nil, String.append_assoc]
    rfl
  have hmap : r.files.map (fun f => placeOf f.path) = (r.files.map Artifact.path).map placeOf := by
    rw [List.map_map]
    rfl
  rw [hmap, hpaths, List.map_map]
  exact List.map_congr_left fun file hfile => placeOf_artifact hfile settings.outRoot app.appId

theorem exists_file_iff (h : release settings app = .ok r) {place : List String} :
    (∃ f ∈ r.files, placeOf f.path = place) ↔
      ∃ file ∈ artifactNames, releasePlace settings.outRoot app.appId ++ [file] = place := by
  rw [← List.mem_map, release_places h, List.mem_map]

/-- Two releases share the place of a file exactly when all their files have one place. -/
theorem exists_shared_iff {other : App} {r' : Release} (h : release settings app = .ok r)
    (h' : release settings other = .ok r') :
    (∃ f ∈ r.files, ∃ f' ∈ r'.files, placeOf f.path = placeOf f'.path) ↔
      releasePlace settings.outRoot app.appId = releasePlace settings.outRoot other.appId := by
  constructor
  · rintro ⟨f, hf, f', hf', heq⟩
    obtain ⟨file, _, hplace⟩ := (exists_file_iff h).1 ⟨f, hf, rfl⟩
    obtain ⟨file', _, hplace'⟩ := (exists_file_iff h').1 ⟨f', hf', rfl⟩
    rw [← hplace, ← hplace'] at heq
    exact (List.append_inj' heq rfl).1
  · intro heq
    have hname : "app-definition.json" ∈ artifactNames := List.mem_cons_self ..
    obtain ⟨f, hf, hplace⟩ := (exists_file_iff h).2 ⟨_, hname, rfl⟩
    obtain ⟨f', hf', hplace'⟩ := (exists_file_iff h').2 ⟨_, hname, rfl⟩
    exact ⟨f, hf, f', hf', by rw [hplace, hplace', heq]⟩

/-- An id that does not lead up keeps its files inside the root directory. -/
theorem files_inside (h : release settings app = .ok r) (hroot : settings.outRoot ≠ "")
    (hup : (Route.ofId app.appId).up = 0) :
    ∀ f ∈ r.files, Inside (placeOf settings.outRoot) (placeOf f.path) := by
  intro f hf
  obtain ⟨file, hfile, hplace⟩ := (exists_file_iff h).1 ⟨f, hf, rfl⟩
  refine ⟨(Route.ofId app.appId).down ++ [file], by simp, fun name hname => ?_, ?_⟩
  · rcases List.mem_append.1 hname with hdown | hlast
    · obtain ⟨hmem, hpoints⟩ := Route.mem_of_mem_down hdown
      refine ⟨hpoints, ?_⟩
      rintro rfl
      exact Path.slash_not_mem hmem (by decide)
    · cases List.mem_singleton.1 hlast
      exact (artifactNames_parts _ hfile).2
  · rw [← hplace, releasePlace, hup, rootPlace, if_neg hroot, List.append_assoc]
    rfl

/-- An id that leads up takes its files out of the working directory. -/
theorem files_outside (h : release settings app = .ok r) (hroot : settings.outRoot = ".")
    (hup : (Route.ofId app.appId).up ≠ 0) :
    ∀ f ∈ r.files, ¬ Inside (placeOf settings.outRoot) (placeOf f.path) := by
  rintro f hf ⟨rest, _, hrest, heq⟩
  obtain ⟨file, _, hplace⟩ := (exists_file_iff h).1 ⟨f, hf, rfl⟩
  have hhere : placeOf "." = [] := by decide
  have hstart : rootPlace "." = [] := by decide
  rw [← hplace, hroot, hhere, releasePlace, hstart, iterate_up_nil, List.nil_append] at heq
  have hpoints : ".." ∈ rest := by
    rw [← heq]
    exact List.mem_append_left _ (List.mem_append_left _ (List.mem_replicate.2 ⟨hup, rfl⟩))
  exact (hrest _ hpoints).1 rfl

/-- Under an empty root the files lie at a slash, outside of the working directory. -/
theorem files_absolute (h : release settings app = .ok r) (hroot : settings.outRoot = "") :
    ∀ f ∈ r.files, ¬ Inside (placeOf settings.outRoot) (placeOf f.path) := by
  rintro f hf ⟨rest, _, hrest, heq⟩
  obtain ⟨file, _, hplace⟩ := (exists_file_iff h).1 ⟨f, hf, rfl⟩
  have hhere : placeOf "" = [] := by decide
  have htop : Directory.up^[(Route.ofId app.appId).up] ["/"] = ["/"] := Function.iterate_fixed (by decide) _
  rw [← hplace, hroot, hhere, releasePlace, rootPlace, if_pos rfl, htop, List.nil_append] at heq
  have hslash : "/" ∈ rest := by
    rw [← heq]
    exact List.mem_append_left _ (List.mem_append_left _ (List.mem_singleton.2 rfl))
  exact (hrest _ hslash).2 rfl

end

/-! ## Compiling -/

/-- Settings do not decide what compiles. -/
theorem compile_of_other_settings {settings : Settings} {raw : Json} {c : Compilation} {r : Release}
    (hc : compile settings raw = .ok c) (hr : c.release? = some r) (other : Settings) :
    ∃ c' r', compile other raw = .ok c' ∧ c'.release? = some r' ∧ r'.app = r.app := by
  obtain ⟨app, hread, haccepted, hrelease⟩ := release_of_compile hc hr
  cases hother : release other app.normalize with
  | error e =>
    rw [release_error_iff.2 (release_error_iff.1 hother)] at hrelease
    cases hrelease
  | ok r' =>
    have hc' : compile other raw = .ok ⟨(validate raw).diagnostics, some r'⟩ := by
      rw [compile_of_accepted hread haccepted, hother]
      rfl
    obtain ⟨_, _, _, _, rfl⟩ := release_ok_iff.1 hrelease
    obtain ⟨_, _, _, _, rfl⟩ := release_ok_iff.1 hother
    exact ⟨_, _, hc', rfl, rfl⟩

/-- A release is that of its application. -/
theorem release_app {settings : Settings} {raw : Json} {c : Compilation} {r : Release}
    (hc : compile settings raw = .ok c) (hr : c.release? = some r) : release settings r.app = .ok r := by
  obtain ⟨app, _, _, hrelease⟩ := release_of_compile hc hr
  obtain ⟨_, _, _, _, rfl⟩ := release_ok_iff.1 hrelease
  exact hrelease

/-- Whatever root directory is set, the value compiles and all files lie inside. -/
def StaysInside (raw : Json) : Prop :=
  ∀ settings : Settings, settings.outRoot ≠ "" →
    ∃ c r, compile settings raw = .ok c ∧ c.release? = some r ∧
      ∀ f ∈ r.files, Inside (placeOf settings.outRoot) (placeOf f.path)

/-- The files of an application stay inside every root directory exactly when its id does not lead up. -/
theorem staysInside_iff {settings : Settings} {raw : Json} {c : Compilation} {r : Release}
    (hc : compile settings raw = .ok c) (hr : c.release? = some r) :
    StaysInside raw ↔ (Route.ofId r.app.appId).up = 0 := by
  constructor
  · intro hinside
    -- Taken from the working directory, the first step up leads out.
    have hroot : "." ≠ "" := by decide
    obtain ⟨c', r', hc', hr', happ⟩ := compile_of_other_settings hc hr { settings with outRoot := "." }
    obtain ⟨d, q, hd, hq, hfiles⟩ := hinside { settings with outRoot := "." } hroot
    cases hd.symm.trans hc'
    cases hq.symm.trans hr'
    have hrelease := release_app hc' hr'
    by_contra hup
    rw [← happ] at hup
    obtain ⟨f, hf, _⟩ := (exists_file_iff hrelease).2 ⟨_, List.mem_cons_self .., rfl⟩
    exact files_outside hrelease rfl hup f hf (hfiles f hf)
  · intro hup other hroot
    obtain ⟨c', r', hc', hr', happ⟩ := compile_of_other_settings hc hr other
    refine ⟨c', r', hc', hr', files_inside (release_app hc' hr') hroot ?_⟩
    rw [happ, hup]

/-- **Where the files of releases lie**, for any two values that compile under the same settings.  The files
of the first lie inside every root directory exactly when its id does not lead up.  Where neither id leads up,
the two share the place of a file exactly when their ids lead down through the same names.  So ids that are
single names keep their files inside the root directory and apart from each other.  An empty root is no
directory: the files then lie at a slash. -/
theorem artifact_places {settings : Settings} {raw raw' : Json} {c c' : Compilation} {r r' : Release}
    (hc : compile settings raw = .ok c) (hr : c.release? = some r) (hc' : compile settings raw' = .ok c')
    (hr' : c'.release? = some r') :
    (StaysInside raw ↔ (Route.ofId r.app.appId).up = 0) ∧
      ((Route.ofId r.app.appId).up = 0 → (Route.ofId r'.app.appId).up = 0 →
        ((∃ f ∈ r.files, ∃ f' ∈ r'.files, placeOf f.path = placeOf f'.path) ↔
          (Route.ofId r.app.appId).down = (Route.ofId r'.app.appId).down)) ∧
      (SingleName r.app.appId → SingleName r'.app.appId → r.app.appId ≠ r'.app.appId →
        StaysInside raw ∧ StaysInside raw' ∧
          ∀ f ∈ r.files, ∀ f' ∈ r'.files, placeOf f.path ≠ placeOf f'.path) ∧
      (settings.outRoot = "" → ∀ f ∈ r.files, ¬ Inside (placeOf settings.outRoot) (placeOf f.path)) := by
  have hrelease := release_app hc hr
  have hrelease' := release_app hc' hr'
  have hshared : (Route.ofId r.app.appId).up = 0 → (Route.ofId r'.app.appId).up = 0 →
      ((∃ f ∈ r.files, ∃ f' ∈ r'.files, placeOf f.path = placeOf f'.path) ↔
        (Route.ofId r.app.appId).down = (Route.ofId r'.app.appId).down) := by
    intro hup hup'
    rw [exists_shared_iff hrelease hrelease', releasePlace, releasePlace, hup, hup']
    exact List.append_right_inj _
  refine ⟨staysInside_iff hc hr, hshared, fun hsingle hsingle' hne => ?_, files_absolute hrelease⟩
  have hroute := Route.ofId_of_single hsingle
  have hroute' := Route.ofId_of_single hsingle'
  have hup : (Route.ofId r.app.appId).up = 0 := by rw [hroute]
  have hup' : (Route.ofId r'.app.appId).up = 0 := by rw [hroute']
  refine ⟨(staysInside_iff hc hr).2 hup, (staysInside_iff hc' hr').2 hup', fun f hf f' hf' heq => ?_⟩
  have hdown := (hshared hup hup').1 ⟨f, hf, f', hf', heq⟩
  rw [hroute, hroute'] at hdown
  exact hne (List.singleton_inj.1 hdown)

/-- A form with a given id. -/
def namedForm (appId : String) : App := { summaryForm "notes" with appId := appId }

/-- The release of a form under the settings that hold by default. -/
theorem namedForm_release (appId : String)
    (hread : App.ofJson (namedForm appId).toJson = .ok (namedForm appId))
    (hcompiled : ((compile Settings.default (namedForm appId).toJson).toOption.bind
      Compilation.release?).isSome = true) :
    ∃ c r, compile Settings.default (namedForm appId).toJson = .ok c ∧ c.release? = some r ∧
      r.app.appId = appId := by
  obtain ⟨c, r, hc, hr, hnormal⟩ := exists_release hread hcompiled
  exact ⟨c, r, hc, hr, by rw [hnormal]; rfl⟩

/-- An id with a folder in it keeps its files inside the root directory, and apart from those of the
folder. -/
theorem artifact_places_desk :
    ∃ c r c' r', compile Settings.default (namedForm "desk/intake").toJson = .ok c ∧ c.release? = some r ∧
      compile Settings.default (namedForm "desk").toJson = .ok c' ∧ c'.release? = some r' ∧
      StaysInside (namedForm "desk/intake").toJson ∧
        ¬ ∃ f ∈ r.files, ∃ f' ∈ r'.files, placeOf f.path = placeOf f'.path := by
  obtain ⟨c, r, hc, hr, hid⟩ := namedForm_release "desk/intake" (by decide +kernel) (by decide +kernel)
  obtain ⟨c', r', hc', hr', hid'⟩ := namedForm_release "desk" (by decide +kernel) (by decide +kernel)
  obtain ⟨hinside, hshared, _, _⟩ := artifact_places hc hr hc' hr'
  have hroute : Route.ofId "desk/intake" = ⟨0, ["desk", "intake"]⟩ := by decide +kernel
  have hroute' : Route.ofId "desk" = ⟨0, ["desk"]⟩ := by decide +kernel
  rw [hid, hroute] at hinside hshared
  rw [hid', hroute'] at hshared
  exact ⟨c, r, c', r', hc, hr, hc', hr', hinside.2 rfl, fun h => absurd ((hshared rfl rfl).1 h) (by decide)⟩

/-- Two points take the files out of the root directory, and a slash at the end of an id does not count. -/
theorem artifacts_astray :
    (¬ ∀ (settings : Settings) (raw : Json) (c : Compilation) (r : Release),
        compile settings raw = .ok c → c.release? = some r →
          ∀ f ∈ r.files, Inside (placeOf settings.outRoot) (placeOf f.path)) ∧
      ¬ ∀ (settings : Settings) (raw raw' : Json) (c c' : Compilation) (r r' : Release),
        compile settings raw = .ok c → c.release? = some r →
          compile settings raw' = .ok c' → c'.release? = some r' → r.app.appId ≠ r'.app.appId →
            ∀ f ∈ r.files, ∀ f' ∈ r'.files, placeOf f.path ≠ placeOf f'.path := by
  have hname : "app-definition.json" ∈ artifactNames := List.mem_cons_self ..
  constructor
  · intro h
    obtain ⟨c, r, hc, hr, hid⟩ := namedForm_release ".." (by decide +kernel) (by decide +kernel)
    have hplace : releasePlace Settings.default.outRoot r.app.appId = [] := by
      rw [hid]
      decide +kernel
    obtain ⟨f, hf, hfile⟩ := (exists_file_iff (release_app hc hr)).2 ⟨_, hname, rfl⟩
    obtain ⟨rest, _, _, heq⟩ := h _ _ c r hc hr f hf
    have hroot : placeOf Settings.default.outRoot = ["generated"] := by decide +kernel
    rw [hfile, hplace, hroot] at heq
    exact absurd (List.cons.inj heq).1 (by decide)
  · intro h
    obtain ⟨c, r, hc, hr, hid⟩ := namedForm_release "form" (by decide +kernel) (by decide +kernel)
    obtain ⟨c', r', hc', hr', hid'⟩ := namedForm_release "form/" (by decide +kernel) (by decide +kernel)
    have hplace : releasePlace Settings.default.outRoot "form" =
        releasePlace Settings.default.outRoot "form/" := by decide +kernel
    rw [← hid, ← hid'] at hplace
    obtain ⟨f, hf, f', hf', heq⟩ := (exists_shared_iff (release_app hc hr) (release_app hc' hr')).2 hplace
    exact h _ _ _ c c' r r' hc hr hc' hr' (by rw [hid, hid']; decide) f hf f' hf' heq

end FormFlow
