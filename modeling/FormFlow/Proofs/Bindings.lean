import FormFlow.Proofs.AliasOrder
import FormFlow.Proofs.CanonicalText
import FormFlow.Proofs.CompileFailure
import Mathlib.Data.List.Pairwise

/-!
# The bindings of the event manifest

The manifest looks up the last button that a click takes to an event.  In a well-formed application it is the
only one: no two components share an id, and no two buttons an event.  So the manifest does not depend on the
order of the components, and neither does what an application must be like.

## Principal results

* `boundButton?_eq_some_iff`, `boundButton?_eq_none_iff` — the button of an event, without a word about order;
* `App.WellFormed.of_perm` — components in another order make a well-formed application;
* `manifest_of_perm` — and the same manifest;
* `exists_manifestFile` — where the manifest of a release stands, and how it is read;
* `manifest_bindings` — what the manifest of a release says.
-/

namespace FormFlow

open Json

/-! ## The button of an event -/

section

variable {app : App} {eventId : String} {b : Button}

theorem App.mem_buttons : b ∈ app.buttons ↔ .button b ∈ app.components := by
  unfold buttons
  rw [List.mem_filterMap]
  constructor
  · rintro ⟨c, hc, hb⟩
    cases c with
    | button found =>
      cases hb
      exact hc
    | textArea area => cases hb
    | dataTable table => cases hb
  · intro hb
    exact ⟨.button b, hb, rfl⟩

/-- A button of a well-formed application is known by its id. -/
theorem App.WellFormed.eq_of_button_id_eq (h : app.WellFormed) {other : Button} (hb : b ∈ app.buttons)
    (hother : other ∈ app.buttons) (hid : other.id = b.id) : other = b :=
  Component.button.inj
    (List.inj_on_of_nodup_map h.componentIds (App.mem_buttons.1 hother) (App.mem_buttons.1 hb) hid)

/-- A button of a well-formed application is known by its event. -/
theorem App.WellFormed.eq_of_onClick_eq (h : app.WellFormed) {other : Button} (hb : b ∈ app.buttons)
    (hclick : b.onClick? = some eventId) (hother : other ∈ app.buttons)
    (hsame : other.onClick? = some eventId) : other = b := by
  have hsymm : Std.Symm fun a c : Button => ∀ x, a.onClick? = some x → ∀ y, c.onClick? = some y → x ≠ y :=
    ⟨fun _ _ hac x hx y hy heq => hac y hy x hx heq.symm⟩
  by_contra hne
  exact (List.pairwise_filterMap.1 h.clickedOnce).forall hother hb hne _ hsame _ hclick rfl

theorem boundButton?_eq_some_iff (h : app.WellFormed) :
    app.boundButton? eventId = some b ↔ b ∈ app.buttons ∧ b.onClick? = some eventId := by
  unfold App.boundButton?
  constructor
  · intro hfound
    exact ⟨List.mem_reverse.1 (List.mem_of_find?_eq_some hfound), by simpa using List.find?_some hfound⟩
  · rintro ⟨hb, hclick⟩
    cases hfound : app.buttons.reverse.find? fun b => b.onClick? = some eventId with
    | none =>
      have hnone := List.find?_eq_none.1 hfound b (List.mem_reverse.2 hb)
      exact absurd (decide_eq_true hclick) hnone
    | some other =>
      have hother := List.mem_reverse.1 (List.mem_of_find?_eq_some hfound)
      rw [h.eq_of_onClick_eq hb hclick hother (by simpa using List.find?_some hfound)]

theorem boundButton?_eq_none_iff :
    app.boundButton? eventId = none ↔ ∀ b ∈ app.buttons, b.onClick? ≠ some eventId := by
  unfold App.boundButton?
  rw [List.find?_eq_none]
  simp

/-- The button that the manifest names under an event. -/
def App.boundId (app : App) (eventId : String) : Json :=
  ((app.boundButton? eventId).map fun b => str b.id).getD null

theorem boundId_eq_str_iff (h : app.WellFormed) (hb : b ∈ app.buttons) :
    app.boundId eventId = str b.id ↔
      b.onClick? = some eventId ∧ ∀ other ∈ app.buttons, other.onClick? = some eventId → other = b := by
  constructor
  · intro hbound
    unfold App.boundId at hbound
    cases hfound : app.boundButton? eventId with
    | none =>
      rw [hfound] at hbound
      cases hbound
    | some found =>
      rw [hfound] at hbound
      obtain ⟨hmem, hclick⟩ := (boundButton?_eq_some_iff h).1 hfound
      obtain rfl := h.eq_of_button_id_eq hb hmem (Json.str.inj hbound)
      exact ⟨hclick, fun other hother hsame => h.eq_of_onClick_eq hb hclick hother hsame⟩
  · rintro ⟨hclick, _⟩
    rw [App.boundId, (boundButton?_eq_some_iff h).2 ⟨hb, hclick⟩]
    rfl

theorem boundId_eq_null_iff :
    app.boundId eventId = null ↔ ∀ b ∈ app.buttons, b.onClick? ≠ some eventId := by
  rw [← boundButton?_eq_none_iff, App.boundId]
  cases app.boundButton? eventId <;> simp

theorem boundId_cases (app : App) (eventId : String) :
    app.boundId eventId = null ∨ ∃ b ∈ app.buttons, app.boundId eventId = str b.id := by
  unfold App.boundId
  cases hfound : app.boundButton? eventId with
  | none => exact .inl rfl
  | some b => exact .inr ⟨b, List.mem_reverse.1 (List.mem_of_find?_eq_some hfound), rfl⟩

end

/-! ## Components in another order -/

section

variable {app : App} {components : List Component}

/-- **Components in another order make a well-formed application too.** -/
theorem App.WellFormed.of_perm (h : app.WellFormed) (hperm : components.Perm app.components) :
    { app with components := components }.WellFormed := by
  have hkeyFor : App.keyFor { app with components := components } = app.keyFor := by
    funext name
    unfold App.keyFor
    rw [aliasTable_eq_of_perm h.componentIds hperm.symm]
  have hkeys := hperm.filterMap Component.boundKey?
  have hclicks := (hperm.filterMap Component.button?).filterMap Button.onClick?
  have hids := hperm.map Component.id
  exact
    { componentIds := hids.nodup_iff.2 h.componentIds
      boundKeys := fun key hkey => h.boundKeys key (hkeys.mem_iff.1 hkey)
      boundOnce := hkeys.nodup_iff.2 h.boundOnce
      clickedOnce := hclicks.nodup_iff.2 h.clickedOnce
      eventIds := h.eventIds
      triggers := fun e he => hids.mem_iff.2 (h.triggers e he)
      graphs := h.graphs
      prompts := fun e he id spec hspec => by
        obtain ⟨htokens, hdeclared, hlisted⟩ := h.prompts e he id spec hspec
        exact ⟨by rwa [hkeyFor], by rwa [hkeyFor], by rwa [hkeyFor]⟩
      transforms := fun e he id targets hnode =>
        ⟨(h.transforms e he id targets hnode).targetKeys, (h.transforms e he id targets hnode).references⟩ }

/-- The manifest does not depend on the order of the components. -/
theorem manifest_of_perm (h : app.WellFormed) (hperm : components.Perm app.components) :
    { app with components := components }.manifest = app.manifest := by
  have hbuttons (b : Button) : b ∈ App.buttons { app with components := components } ↔ b ∈ app.buttons :=
    (hperm.filterMap Component.button?).mem_iff
  have hbound (eventId : String) :
      App.boundButton? { app with components := components } eventId = app.boundButton? eventId := by
    refine Option.ext fun b => ?_
    rw [boundButton?_eq_some_iff h, boundButton?_eq_some_iff (h.of_perm hperm), hbuttons]
  unfold App.manifest App.manifestEntry
  simp only [hbound]

/-- Numbers stand in an application wherever its components stand. -/
theorem App.mem_numbers_of_perm (hperm : components.Perm app.components) {n : Number} :
    n ∈ (App.toJson { app with components := components }).numbers ↔ n ∈ app.toJson.numbers := by
  have hui : n ∈ (App.uiJson { app with components := components }).numbers ↔ n ∈ app.uiJson.numbers := by
    simp [App.uiJson, hperm.mem_iff]
  rw [App.mem_numbers, App.mem_numbers, hui]
  rfl

end

/-! ## The file of the manifest -/

theorem App.manifest_normalize (app : App) : app.normalize.manifest = app.manifest := by
  unfold manifest
  simp only [normalize, List.map_map]
  rfl

theorem App.manifest_portable (app : App) : app.manifest.Portable := by
  refine ⟨?_, fun n hn => absurd hn not_mem_numbers_manifest⟩
  have hentry (e : EventDefinition) : (app.manifestEntry e).Distinct := by
    cases hbutton : app.boundButton? e.id <;> simp [manifestEntry, hbutton, Table.keys, distinct_obj_iff, Distinct]
  have hentries : (arr (app.events.map app.manifestEntry)).Distinct :=
    distinct_arr_iff.2 (List.forall_mem_map.2 fun e _ => hentry e)
  simp [manifest, Table.keys, hentries]

/-- The path of the manifest of an application. -/
def manifestPath (settings : Settings) (app : App) : String :=
  settings.outRoot ++ "/" ++ app.appId ++ "/event-manifest.json"

/-- The manifest stands in a file of its release. -/
theorem exists_manifestFile {settings : Settings} {app : App} {r : Release}
    (h : release settings app.normalize = .ok r) {content : String}
    (hcontent : prettyText app.manifest = .ok content) :
    ⟨manifestPath settings app, content⟩ ∈ r.files := by
  obtain ⟨files, print, hfiles, _, rfl⟩ := release_ok_iff.1 h
  have hmem : writeArtifact (manifestPath settings app, app.normalize.manifest) ∈ files.map .ok := by
    rw [← firstError_ok_iff.1 hfiles]
    exact List.mem_map_of_mem (by simp [artifactSources, artifactRoot, manifestPath, App.normalize])
  obtain ⟨file, hfile, heq⟩ := List.mem_map.1 hmem
  rw [App.manifest_normalize, writeArtifact, hcontent] at heq
  cases heq
  exact hfile

/-- An application with its components in another order is released where it is. -/
theorem exists_release_of_perm {settings : Settings} {raw : Json} {app : App} {components : List Component}
    (hformed : app.WellFormed) {r : Release} (hr : release settings app.normalize = .ok r)
    (hperm : components.Perm app.components) (hread : App.ofJson raw = .ok { app with components := components }) :
    ∃ c s, compile settings raw = .ok c ∧ c.release? = some s ∧
      release settings (App.normalize { app with components := components }) = .ok s := by
  rw [compile_of_accepted hread (accepted_iff_wellFormed.2 (hformed.of_perm hperm))]
  cases hs : release settings (App.normalize { app with components := components }) with
  | ok s => exact ⟨_, s, rfl, rfl, rfl⟩
  | error e =>
    -- A number without a canonical form would stand in both applications.
    obtain ⟨n, hn, herror⟩ := canonical?_error (release_error_iff.1 hs)
    rw [App.mem_numbers_normalize, App.mem_numbers_of_perm hperm, ← App.mem_numbers_normalize] at hn
    cases hwhole : canonical? app.normalize.toJson with
    | error found =>
      rw [release_error_iff.2 hwhole] at hr
      cases hr
    | ok w =>
      obtain ⟨m, hm⟩ := canonicalNumber_of_canonical? hwhole n hn
      rw [herror] at hm
      cases hm

/-- **The bindings of the manifest are exact**, for all settings and every application that is released.  The
file of the manifest is read, up to the order of members, as the events in the order of their declaration, each
once and with its own trigger.  The button of an event has the id of a button exactly if that is the one button
that a click takes to the event, and it is null exactly if there is none.  The same file is released of the
application with its components in any other order. -/
theorem manifest_bindings {settings : Settings} {raw : Json} {c : Compilation} {r : Release}
    (hc : compile settings raw = .ok c) (hr : c.release? = some r) :
    ∃ (app : App) (content : String) (bound : String → Json) (read : Json),
      App.ofJson raw = .ok app ∧ (app.events.map EventDefinition.id).Nodup ∧
      ⟨settings.outRoot ++ "/" ++ app.appId ++ "/event-manifest.json", content⟩ ∈ r.files ∧
      Json.read .strict content.toList = .ok read ∧
      read.Permuted (.obj [("appId", .str app.appId), ("eventIds", .ofStrings (app.events.map EventDefinition.id)),
        ("triggers", .arr (app.events.map fun e => .obj [("eventId", .str e.id),
          ("componentId", .str e.trigger.componentId), ("event", .str e.trigger.kind.text),
          ("boundButton", bound e.id)]))]) ∧
      (∀ eventId,
        (∀ b ∈ app.buttons, bound eventId = .str b.id ↔
          b.onClick? = some eventId ∧ ∀ other ∈ app.buttons, other.onClick? = some eventId → other = b) ∧
        (bound eventId = .null ↔ ∀ b ∈ app.buttons, b.onClick? ≠ some eventId) ∧
        (bound eventId = .null ∨ ∃ b ∈ app.buttons, bound eventId = .str b.id)) ∧
      ∀ components other, components.Perm app.components →
        App.ofJson other = .ok { app with components := components } →
        ∃ c' r', compile settings other = .ok c' ∧ c'.release? = some r' ∧
          ⟨settings.outRoot ++ "/" ++ app.appId ++ "/event-manifest.json", content⟩ ∈ r'.files := by
  obtain ⟨app, hread, haccepted, hrelease⟩ := release_of_compile hc hr
  have hformed := accepted_iff_wellFormed.1 haccepted
  obtain ⟨found, _, content, halike, _, _, hcontent, _, htexts⟩ := app.manifest_portable.read_texts
  refine ⟨app, content, app.boundId, found, hread, hformed.eventIds, exists_manifestFile hrelease hcontent,
    (htexts _).2, halike.permuted.symm, fun eventId => ?_, fun components other hperm hother => ?_⟩
  · exact ⟨fun b hb => boundId_eq_str_iff hformed hb, boundId_eq_null_iff, boundId_cases app eventId⟩
  · obtain ⟨c', r', hc', hr', hsame⟩ := exists_release_of_perm hformed hrelease hperm hother
    refine ⟨c', r', hc', hr', @exists_manifestFile _ { app with components := components } _ hsame _ ?_⟩
    rw [manifest_of_perm hformed hperm, hcontent]

/-- A form with two events and two buttons, one of which names no event, and that form with its components in
another order. -/
def boardForm (components : List Component) : App where
  appId := "board"
  version := "1"
  components := components
  stateModel := [("notes", .primitive ⟨.string, none, none, none, none⟩)]
  events :=
    [⟨"send", ⟨"go", .onClick⟩, ⟨[.validate "check" ["notes"]], []⟩⟩,
      ⟨"note", ⟨"input", .onChange⟩, ⟨[.validate "check" ["notes"]], []⟩⟩]

/-- The components of the board. -/
def boardComponents : List Component :=
  [.textArea ⟨"input", "Notes", "notes", ⟨none, none⟩⟩, .button ⟨"idle", "Idle", [("onClick", "")]⟩,
    .button ⟨"go", "Go", [("onClick", "send")]⟩]

/-- The first event is bound to its button, the second to none, in either order of the components. -/
theorem manifest_bindings_board :
    ∃ c r, compile Settings.default (boardForm boardComponents).toJson = .ok c ∧ c.release? = some r ∧
      ∃ content read, ⟨"generated/board/event-manifest.json", content⟩ ∈ r.files ∧
        Json.read .strict content.toList = .ok read ∧
        read.Permuted (.obj [("appId", .str "board"), ("eventIds", .ofStrings ["send", "note"]),
          ("triggers", .arr [
            .obj [("eventId", .str "send"), ("componentId", .str "go"), ("event", .str "onClick"),
              ("boundButton", .str "go")],
            .obj [("eventId", .str "note"), ("componentId", .str "input"), ("event", .str "onChange"),
              ("boundButton", .null)]])]) ∧
        ∃ c' r', compile Settings.default (boardForm boardComponents.reverse).toJson = .ok c' ∧
          c'.release? = some r' ∧ ⟨"generated/board/event-manifest.json", content⟩ ∈ r'.files := by
  have hread : App.ofJson (boardForm boardComponents).toJson = .ok (boardForm boardComponents) := by
    decide +kernel
  have hturned : App.ofJson (boardForm boardComponents.reverse).toJson =
      .ok (boardForm boardComponents.reverse) := by decide +kernel
  obtain ⟨c, r, hc, hr, _⟩ := exists_release hread (by decide +kernel)
  obtain ⟨app, content, bound, read, happ, _, hfile, hcontent, hsame, hbound, horder⟩ := manifest_bindings hc hr
  rw [hread] at happ
  cases happ
  refine ⟨c, r, hc, hr, content, read, hfile, hcontent, ?_, horder _ _ (List.reverse_perm _) hturned⟩
  have hsend : bound "send" = .str "go" :=
    ((hbound "send").1 ⟨"go", "Go", [("onClick", "send")]⟩ (by decide)).2 (by decide)
  have hnote : bound "note" = .null := (hbound "note").2.1.2 (by decide)
  simpa [boardForm, hsend, hnote, TriggerKind.text] using hsame

end FormFlow
