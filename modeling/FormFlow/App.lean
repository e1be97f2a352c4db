import FormFlow.Json

/-!
# Form applications

A form application has components on a page, a model of the state that the form edits, and events.
An event is triggered by a component and runs an action graph whose nodes check state, ask a model
provider, or write results back into the state.

## Principal results

* `findEvent?_mem` — the event found under an id belongs to the application and has that id.
-/

namespace FormFlow

/-! ## State model -/

/-- The kinds of a plain state field. -/
inductive PrimitiveKind where
  | string | number | boolean
deriving DecidableEq

/-- A state field that holds one plain value. -/
structure PrimitiveField where
  kind : PrimitiveKind
  source : Option String
  allowed : Option (List String)
  minLength : Option Nat
  maxLength : Option Nat
deriving DecidableEq

/-- A state field that holds a list of objects of one shape. -/
structure ArrayField where
  source : Option String
  shape : Table Json
deriving DecidableEq

/-- A field of the state model. -/
inductive StateField where
  | primitive (field : PrimitiveField)
  | array (field : ArrayField)
deriving DecidableEq

/-! ## Components -/

/-- Optional limits on what a text area accepts. -/
structure TextAreaProps where
  required : Option Bool
  maxLength : Option Nat
deriving DecidableEq

/-- A free-form input bound to a state key. -/
structure TextArea where
  id : String
  label : String
  stateKey : String
  props : TextAreaProps
deriving DecidableEq

/-- A button with the events that its interactions name. -/
structure Button where
  id : String
  label : String
  events : Table String
deriving DecidableEq

/-- The event that a click on a button names; an empty name counts as none. -/
def Button.onClick? (b : Button) : Option String := (b.events.get? "onClick").filter (· ≠ "")

/-- A table that shows a state key. -/
structure DataTable where
  id : String
  label : String
  dataKey : String
deriving DecidableEq

/-- A component of the page. -/
inductive Component where
  | textArea (area : TextArea)
  | button (button : Button)
  | dataTable (table : DataTable)
deriving DecidableEq

namespace Component

/-- The id of a component. -/
def id : Component → String
  | textArea a => a.id
  | button b => b.id
  | dataTable t => t.id

/-- The name of the component's type. -/
def typeName : Component → String
  | textArea _ => "TextArea"
  | button _ => "Button"
  | dataTable _ => "DataTable"

/-- The text area, if the component is one. -/
def textArea? : Component → Option TextArea
  | textArea a => some a
  | _ => none

/-- The button, if the component is one. -/
def button? : Component → Option Button
  | button b => some b
  | _ => none

/-- The state key that a component shows or edits, with the name of the field that holds it. -/
def binding? : Component → Option (String × String)
  | textArea a => some ("stateKey", a.stateKey)
  | dataTable t => some ("dataKey", t.dataKey)
  | button _ => none

end Component

/-! ## Action graphs -/

/-- The model providers that a prompt may name. -/
inductive ProviderName where
  | openai | anthropic | mock
deriving DecidableEq

/-- The name of a provider. -/
def ProviderName.text : ProviderName → String
  | openai => "openai"
  | anthropic => "anthropic"
  | mock => "mock"

/-- Which model of which provider answers a prompt, and how freely. -/
structure ModelPolicy where
  provider : ProviderName
  model : String
  temperature : Option Float
deriving DecidableEq

/-- A prompt: a template, the variables it declares, who answers and the shape of the answer. -/
structure PromptSpec where
  template : String
  declared : List String
  policy : ModelPolicy
  shape : Table Json
deriving DecidableEq

/-- A step of an action graph. -/
inductive Node where
  /-- Check that state keys hold something. -/
  | validate (id : String) (stateKeys : List String)
  /-- Ask a provider and keep its answer. -/
  | prompt (id : String) (spec : PromptSpec)
  /-- Write literals and answers to state keys. -/
  | transform (id : String) (targets : Table String)
deriving DecidableEq

/-- The id of a node. -/
def Node.id : Node → String
  | validate id _ => id
  | prompt id _ => id
  | transform id _ => id

/-- An edge: the source runs before the target. -/
structure Edge where
  source : String
  target : String
deriving DecidableEq

/-- The nodes of an event and the edges between them. -/
structure ActionGraph where
  nodes : List Node
  edges : List Edge
deriving DecidableEq

/-- The node ids in declaration order. -/
def ActionGraph.nodeIds (g : ActionGraph) : List String := g.nodes.map Node.id

/-- The interactions that trigger events. -/
inductive TriggerKind where
  | onClick | onChange | onSubmit
deriving DecidableEq

/-- The name of an interaction. -/
def TriggerKind.text : TriggerKind → String
  | onClick => "onClick"
  | onChange => "onChange"
  | onSubmit => "onSubmit"

/-- What sets off an event. -/
structure Trigger where
  componentId : String
  kind : TriggerKind
deriving DecidableEq

/-- An event: its trigger and its action graph. -/
structure EventDefinition where
  id : String
  trigger : Trigger
  graph : ActionGraph
deriving DecidableEq

/-! ## Applications -/

/-- A form application. -/
structure App where
  appId : String
  version : String
  components : List Component
  stateModel : Table StateField
  events : List EventDefinition
deriving DecidableEq

namespace App

/-- The text areas in declaration order. -/
def textAreas (app : App) : List TextArea := app.components.filterMap Component.textArea?

/-- The buttons in declaration order. -/
def buttons (app : App) : List Button := app.components.filterMap Component.button?

/-- The first event with an id. -/
def findEvent? (app : App) (eventId : String) : Option EventDefinition :=
  app.events.find? fun e => e.id = eventId

theorem findEvent?_mem {app : App} {eventId : String} {e : EventDefinition}
    (h : app.findEvent? eventId = some e) : e ∈ app.events ∧ e.id = eventId :=
  ⟨List.mem_of_find?_eq_some h, by simpa using List.find?_some h⟩

end App

end FormFlow
