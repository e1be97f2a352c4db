import FormFlow.App.Normalization
import FormFlow.App.Writing
import FormFlow.Digest.Sha256
import FormFlow.Json.Canonical
import FormFlow.Settings
import FormFlow.Validation

/-!
# Compiling applications

An application that validation accepts is compiled into a release: its normal form, three files that
describe it, the name and tags of an image, and a fingerprint.  The files hold canonical JSON on indented
lines.  An application that is refused has no release.  Beyond that, an accepted application may hold a
number that has no canonical form; then compiling ends with a `Json.DomainError`.

## Principal results

* `compile_refused_iff` — an application is refused exactly when validation does not accept it;
* `release_ok_iff` — what a release is made of;
* `release_paths` — the paths of the files follow from the settings and the application's id.
-/

namespace FormFlow

open Json

/-! ## The event manifest -/

/-- The last button that a click takes to an event. -/
def App.boundButton? (app : App) (eventId : String) : Option Button :=
  app.buttons.reverse.find? fun b => b.onClick? = some eventId

/-- What the manifest says about an event: its trigger and the button bound to it. -/
def App.manifestEntry (app : App) (e : EventDefinition) : Json :=
  obj [("eventId", str e.id), ("componentId", str e.trigger.componentId),
    ("event", str e.trigger.kind.text),
    ("boundButton", ((app.boundButton? e.id).map fun b => str b.id).getD null)]

/-- The manifest of an application's events. -/
def App.manifest (app : App) : Json :=
  obj [("appId", str app.appId), ("eventIds", ofStrings (app.events.map EventDefinition.id)),
    ("triggers", arr (app.events.map app.manifestEntry))]

/-- The page and the state model of an application. -/
def App.interface (app : App) : Json :=
  obj [("appId", str app.appId), ("version", str app.version), ("ui", app.uiJson),
    ("stateModel", app.stateModelJson)]

/-! ## Releases -/

/-- A generated file. -/
structure Artifact where
  path : String
  content : String
deriving DecidableEq

/-- What compiling an accepted application gives. -/
structure Release where
  app : App
  files : List Artifact
  imageName : String
  tags : List String
  fingerprint : String
deriving DecidableEq

/-- The directory of an application's files. -/
def artifactRoot (settings : Settings) (app : App) : String := settings.outRoot ++ "/" ++ app.appId

/-- The files of an application: the path of each, and what it describes. -/
def artifactSources (settings : Settings) (app : App) : List (String × Json) :=
  [(artifactRoot settings app ++ "/app-definition.json", app.toJson),
    (artifactRoot settings app ++ "/ui-schema.json", app.interface),
    (artifactRoot settings app ++ "/event-manifest.json", app.manifest)]

/-- The file of a description. -/
def writeArtifact (source : String × Json) : Except DomainError Artifact :=
  (prettyText source.2).map (⟨source.1, ·⟩)

/-- The digest of a value's canonical text. -/
def fingerprint (v : Json) : Except DomainError String :=
  (canonicalText v).map Digest.sha256String

/-- The release of an application in normal form. -/
def release (settings : Settings) (app : App) : Except DomainError Release := do
  let files ← firstError ((artifactSources settings app).map writeArtifact)
  let print ← fingerprint app.toJson
  return {
    app := app
    files := files
    imageName := "app-" ++ app.appId
    tags := [settings.imageTag]
    fingerprint := print }

/-! ## Compiling -/

/-- The outcome of compiling: the findings of validation, and the release of an accepted
application. -/
structure Compilation where
  diagnostics : List Diagnostic
  release? : Option Release
deriving DecidableEq

/-- An application was accepted. -/
def Compilation.succeeded (c : Compilation) : Bool := c.release?.isSome

/-- The application that a validation accepts. -/
def Validation.accepted? (v : Validation) : Option App := if v.ok then v.app else none

/-- Compile an application. -/
def compile (settings : Settings) (raw : Json) : Except DomainError Compilation :=
  let v := validate raw
  match v.accepted? with
  | none => .ok ⟨v.diagnostics, none⟩
  | some app => (release settings app.normalize).map (⟨v.diagnostics, some ·⟩)

/-- An application is refused exactly when validation does not accept it. -/
theorem compile_refused_iff {settings : Settings} {raw : Json} :
    compile settings raw = .ok ⟨(validate raw).diagnostics, none⟩ ↔
      (validate raw).accepted? = none := by
  simp only [compile]
  cases h : (validate raw).accepted? with
  | none => simp
  | some app =>
    dsimp only
    cases release settings app.normalize <;> simp [Except.map]

/-- A release is made exactly when every file and the fingerprint are. -/
theorem release_ok_iff {settings : Settings} {app : App} {r : Release} :
    release settings app = .ok r ↔
      ∃ files print, firstError ((artifactSources settings app).map writeArtifact) = .ok files ∧
        fingerprint app.toJson = .ok print ∧
          r = ⟨app, files, "app-" ++ app.appId, [settings.imageTag], print⟩ := by
  unfold release
  cases firstError ((artifactSources settings app).map writeArtifact) with
  | error e => simp [bind, Except.bind]
  | ok files =>
    cases fingerprint app.toJson with
    | error e => simp [bind, Except.bind]
    | ok print => simp [bind, Except.bind, pure, Except.pure, eq_comm]

/-- Files keep the paths of their sources. -/
theorem writeArtifacts_paths {sources : List (String × Json)} {files : List Artifact}
    (h : firstError (sources.map writeArtifact) = .ok files) :
    files.map Artifact.path = sources.map (·.1) := by
  induction sources generalizing files with
  | nil =>
    simp only [List.map_nil, firstError, Except.ok.injEq] at h
    simp [← h]
  | cons source rest ih =>
    rw [List.map_cons, writeArtifact] at h
    cases ht : prettyText source.2 with
    | error e => simp [ht, Except.map, firstError] at h
    | ok content =>
      cases hr : firstError (rest.map writeArtifact) with
      | error e => simp [ht, hr, Except.map, firstError] at h
      | ok tail =>
        simp only [ht, hr, Except.map, firstError, Except.ok.injEq] at h
        simp [← h, ih hr]

/-- The paths of the files follow from the settings and the application's id. -/
theorem release_paths {settings : Settings} {app : App} {r : Release}
    (h : release settings app = .ok r) :
    r.files.map Artifact.path =
      ["/app-definition.json", "/ui-schema.json", "/event-manifest.json"].map
        (artifactRoot settings app ++ ·) := by
  obtain ⟨files, print, hfiles, _, rfl⟩ := release_ok_iff.1 h
  show files.map Artifact.path = _
  rw [writeArtifacts_paths hfiles]
  rfl

end FormFlow
