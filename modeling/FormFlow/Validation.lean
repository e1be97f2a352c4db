import FormFlow.Alias
import FormFlow.App.Reading
import FormFlow.Diagnostic
import FormFlow.Expression
import FormFlow.GraphOrder

/-!
# Validating applications

`validate` reads an application and runs every check of its cross references.  Issues of reading end
the validation; otherwise all checks run and their findings accumulate: components first, then event
by event the trigger, the graph and the nodes.

A name or state key belongs to the first component that claims it.  A later component with another id
that claims it too is a finding; a repeated id is a finding of its own.

## Principal results

* `validate_ok_iff` — an application is accepted exactly when it reads and no check finds an error;
* `validate_issues` — issues of reading are the only findings when there are any.
-/

namespace FormFlow

/-! ## Components -/

/-- The findings on what a component shows or edits, given the components before it. -/
def checkBinding (app : App) (earlier : List Component) (c : Component) : List Diagnostic :=
  match c.binding? with
  | none => []
  | some (field, key) =>
    (if app.stateModel.has key then [] else [.missingStateKey c.typeName c.id field key]) ++
      match earlier.find? fun d => d.binding?.any fun b => b.2 = key with
      | some owner => if owner.id = c.id then [] else [.sharedStateKey owner.id c.id field key]
      | none => []

/-- The event that a click on a component names. -/
def Component.clickEvent? (c : Component) : Option String := c.button?.bind Button.onClick?

/-- The findings on the event that a component names, given the components before it. -/
def checkClick (earlier : List Component) (c : Component) : List Diagnostic :=
  match c.clickEvent? with
  | none => []
  | some eventId =>
    match earlier.find? fun d => d.clickEvent? = some eventId with
    | some owner => if owner.id = c.id then [] else [.sharedTrigger owner.id c.id eventId]
    | none => []

/-- The findings on a component, given the components before it. -/
def checkComponent (app : App) (earlier : List Component) (c : Component) : List Diagnostic :=
  (if earlier.any fun d => d.id = c.id then [.duplicateComponent c.id] else []) ++
    checkBinding app earlier c ++ checkClick earlier c

/-- The findings on a list, each element with the elements before it. -/
def checkEach {α : Type} (check : List α → α → List Diagnostic) :
    List α → List α → List Diagnostic
  | _, [] => []
  | earlier, a :: rest => check earlier a ++ checkEach check (earlier ++ [a]) rest

/-- The findings on the components. -/
def checkComponents (app : App) : List Diagnostic := checkEach (checkComponent app) [] app.components

/-! ## Graphs -/

/-- The findings on a graph: repeated node ids, unknown ends of edges, cycles. -/
def checkGraph (eventId : String) (g : ActionGraph) : List Diagnostic :=
  let order := GraphOrder.compute g.nodeIds g.edges
  checkEach
      (fun earlier (id : String) =>
        if earlier.contains id then [.duplicateNode eventId id] else []) [] g.nodeIds ++
    order.unknownEdges.map (fun e => .unknownEdge eventId e.source e.target) ++
    if order.isAcyclic then [] else [.cycle eventId]

/-! ## Nodes -/

/-- The findings on a prompt: tokens and variables that no state key answers, and tokens that are not
declared. -/
def checkPrompt (stateModel : Table StateField) (aliases : Table String) (eventId nodeId : String)
    (spec : PromptSpec) : List Diagnostic :=
  let known (name : String) : Bool := stateModel.has (resolve aliases name)
  let tokens := Template.keys spec.template
  let readKeys := spec.declared.map (resolve aliases)
  (tokens.filter fun t => !known t).map (.unknownToken eventId nodeId) ++
    (spec.declared.filter fun v => !known v).map (.unknownVariable eventId nodeId) ++
    (tokens.filter fun t => known t && !readKeys.contains (resolve aliases t)).map
      (.undeclaredToken eventId nodeId)

/-- The findings on a transform: targets that are no state keys, and references to nodes that the
graph does not have. -/
def checkTransform (stateModel : Table StateField) (nodeIds : List String) (eventId nodeId : String)
    (targets : Table String) : List Diagnostic :=
  targets.flatMap fun entry =>
    (if stateModel.has entry.1 then [] else [.unknownTarget eventId nodeId entry.1]) ++
      match Expression.parse entry.2 with
      | .reference id =>
        if nodeIds.contains id then [] else [.unknownReference eventId nodeId entry.1 id]
      | .literal _ => []

/-- The findings on a node. -/
def checkNode (app : App) (e : EventDefinition) : Node → List Diagnostic
  | .validate _ _ => []
  | .prompt id spec => checkPrompt app.stateModel (aliasTable app.components) e.id id spec
  | .transform id targets => checkTransform app.stateModel e.graph.nodeIds e.id id targets

/-! ## Events -/

/-- The last component with an id. -/
def App.component? (app : App) (id : String) : Option Component :=
  app.components.reverse.find? fun c => c.id = id

/-- The findings on the trigger of an event. -/
def checkTrigger (app : App) (e : EventDefinition) : List Diagnostic :=
  match app.component? e.trigger.componentId with
  | none => [.unknownTrigger e.id e.trigger.componentId]
  | some (.button _) => []
  | some c => [.triggerNotButton e.id e.trigger.componentId c.typeName]

/-- The findings on an event, given the events before it. -/
def checkEvent (app : App) (earlier : List EventDefinition) (e : EventDefinition) :
    List Diagnostic :=
  (if earlier.any fun d => d.id = e.id then [.duplicateEvent e.id] else []) ++
    checkTrigger app e ++ checkGraph e.id e.graph ++ e.graph.nodes.flatMap (checkNode app e)

/-- The findings on the events. -/
def checkEvents (app : App) : List Diagnostic := checkEach (checkEvent app) [] app.events

/-! ## Applications -/

/-- The findings on an application. -/
def checkApp (app : App) : List Diagnostic := checkComponents app ++ checkEvents app

/-- The outcome of a validation. -/
structure Validation where
  app : Option App
  diagnostics : List Diagnostic
deriving DecidableEq

namespace Validation

/-- The findings that refuse the application. -/
def errors (v : Validation) : List Diagnostic := v.diagnostics.filter Diagnostic.isError

/-- The findings that do not. -/
def warnings (v : Validation) : List Diagnostic := v.diagnostics.filter fun d => !d.isError

/-- The application is accepted. -/
def ok (v : Validation) : Bool := v.app.isSome && v.errors.isEmpty

end Validation

/-- Read an application and run every check. -/
def validate (raw : Json) : Validation :=
  match App.ofJson raw with
  | .ok app => ⟨some app, checkApp app⟩
  | .issues found => ⟨none, found.map .schema⟩

/-- An application is accepted exactly when it reads and every finding is a warning. -/
theorem validate_ok_iff {raw : Json} :
    (validate raw).ok = true ↔
      ∃ app, App.ofJson raw = .ok app ∧ ∀ d ∈ checkApp app, d.isError = false := by
  unfold validate
  cases h : App.ofJson raw with
  | ok app => simp [Validation.ok, Validation.errors, List.filter_eq_nil_iff]
  | issues found => simp [Validation.ok]

/-- Issues of reading are the only findings when there are any. -/
theorem validate_issues {raw : Json} {found : List Schema.Issue}
    (h : App.ofJson raw = .issues found) : validate raw = ⟨none, found.map .schema⟩ := by
  simp [validate, h]

end FormFlow
