import FormFlow.Schema

/-!
# Diagnostics

What a validation finds.  Each finding says what it is about; its code, severity, path and wording
follow from that.  Findings are collected, and only errors refuse an application.

## Principal results

* `isError_iff` — the one finding that is no error is a trigger that is not a button.
-/

namespace FormFlow

/-- A finding of validation. -/
inductive Diagnostic where
  | schema (issue : Schema.Issue)
  | duplicateComponent (id : String)
  | missingStateKey (typeName id field key : String)
  | sharedStateKey (owner id field key : String)
  | sharedTrigger (owner id eventId : String)
  | duplicateEvent (id : String)
  | unknownTrigger (eventId componentId : String)
  | triggerNotButton (eventId componentId typeName : String)
  | duplicateNode (eventId nodeId : String)
  | unknownEdge (eventId source target : String)
  | cycle (eventId : String)
  | unknownToken (eventId nodeId token : String)
  | unknownVariable (eventId nodeId name : String)
  | undeclaredToken (eventId nodeId token : String)
  | unknownTarget (eventId nodeId target : String)
  | unknownReference (eventId nodeId target reference : String)
deriving DecidableEq

/-- How grave a finding is. -/
inductive Severity where
  | error | warning
deriving DecidableEq

/-- The name of a severity. -/
def Severity.text : Severity → String
  | error => "error"
  | warning => "warning"

namespace Diagnostic

/-- How grave a finding is. -/
def severity : Diagnostic → Severity
  | triggerNotButton .. => .warning
  | _ => .error

/-- A finding that refuses the application. -/
def isError (d : Diagnostic) : Bool := d.severity = .error

theorem isError_iff {d : Diagnostic} :
    d.isError = true ↔ ∀ e c t, d ≠ triggerNotButton e c t := by
  cases d <;> simp [isError, severity]

/-- The code of a finding. -/
def code : Diagnostic → String
  | schema _ => "SCHEMA_VALIDATION_ERROR"
  | duplicateComponent _ => "DUPLICATE_COMPONENT_ID"
  | missingStateKey .. => "MISSING_STATE_KEY"
  | sharedStateKey .. => "DUPLICATE_UI_STATE_KEY"
  | sharedTrigger .. => "DUPLICATE_TRIGGER_EVENT_ID"
  | duplicateEvent _ => "DUPLICATE_EVENT_ID"
  | unknownTrigger .. => "UNKNOWN_TRIGGER_COMPONENT"
  | triggerNotButton .. => "TRIGGER_COMPONENT_NOT_BUTTON"
  | duplicateNode .. => "GRAPH_DUPLICATE_NODE_ID"
  | unknownEdge .. => "GRAPH_UNKNOWN_EDGE_NODE"
  | cycle _ => "GRAPH_CYCLE_DETECTED"
  | unknownToken .. | unknownVariable .. => "UNKNOWN_PROMPT_VARIABLE"
  | undeclaredToken .. => "PROMPT_TOKEN_NOT_DECLARED"
  | unknownTarget .. => "TRANSFORM_UNKNOWN_STATE_KEY"
  | unknownReference .. => "TRANSFORM_UNKNOWN_NODE"

/-- The path of a component. -/
def componentPath (id : String) : String := "ui.components." ++ id

/-- The path of an event. -/
def eventPath (id : String) : String := "events." ++ id

/-- The path of an event's graph. -/
def graphPath (eventId : String) : String := eventPath eventId ++ ".actionGraph"

/-- The path of a node. -/
def nodePath (eventId nodeId : String) : String := graphPath eventId ++ ".nodes." ++ nodeId

/-- Where a finding lies. -/
def path : Diagnostic → String
  | schema issue => issue.pathText
  | duplicateComponent id => componentPath id
  | missingStateKey _ id field _ => componentPath id ++ "." ++ field
  | sharedStateKey _ id field _ => componentPath id ++ "." ++ field
  | sharedTrigger _ id _ => componentPath id ++ ".events.onClick"
  | duplicateEvent id => eventPath id
  | unknownTrigger eventId _ => eventPath eventId ++ ".trigger.componentId"
  | triggerNotButton eventId _ _ => eventPath eventId ++ ".trigger.componentId"
  | duplicateNode eventId nodeId => nodePath eventId nodeId
  | unknownEdge eventId _ _ => graphPath eventId ++ ".edges"
  | cycle eventId => graphPath eventId
  | unknownToken eventId nodeId _ => nodePath eventId nodeId ++ ".promptSpec.template"
  | unknownVariable eventId nodeId _ => nodePath eventId nodeId ++ ".promptSpec.variables"
  | undeclaredToken eventId nodeId _ => nodePath eventId nodeId ++ ".promptSpec.template"
  | unknownTarget eventId nodeId target => nodePath eventId nodeId ++ ".mapToState." ++ target
  | unknownReference eventId nodeId target _ =>
    nodePath eventId nodeId ++ ".mapToState." ++ target

/-- A key as a template token. -/
def tokenText (key : String) : String := "\x7b\x7b" ++ key ++ "\x7d\x7d"

open Schema (tick)

/-- The wording of a finding. -/
def message : Diagnostic → String
  | schema issue => issue.problem.message
  | duplicateComponent id => "Duplicate component id " ++ tick id ++ "."
  | missingStateKey typeName id _ key =>
    typeName ++ " component " ++ tick id ++ " references missing state key " ++ tick key ++ "."
  | sharedStateKey owner id _ key =>
    "State key " ++ tick key ++ " is used by both " ++ tick owner ++ " and " ++ tick id ++ "."
  | sharedTrigger owner id eventId =>
    "Button event id " ++ tick eventId ++ " is used by both " ++ tick owner ++ " and " ++
      tick id ++ "."
  | duplicateEvent id => "Duplicate event id " ++ tick id ++ "."
  | unknownTrigger eventId componentId =>
    "Event " ++ tick eventId ++ " references unknown trigger component " ++ tick componentId ++ "."
  | triggerNotButton eventId componentId typeName =>
    "Event " ++ tick eventId ++ " is triggered by " ++ typeName ++ " " ++ tick componentId ++
      ", not a Button."
  | duplicateNode eventId nodeId =>
    "Duplicate action node id " ++ tick nodeId ++ " in event " ++ tick eventId ++ "."
  | unknownEdge eventId source target =>
    "Edge references unknown node(s) " ++ tick source ++ " -> " ++ tick target ++ " in event " ++
      tick eventId ++ "."
  | cycle eventId => "Action graph for event " ++ tick eventId ++ " contains a cycle."
  | unknownToken _ _ token =>
    "Prompt variable " ++ tick (tokenText token) ++ " does not map to a known state key."
  | unknownVariable _ _ name =>
    "Prompt variable " ++ tick name ++ " does not map to a known state key."
  | undeclaredToken _ _ token =>
    "Prompt token " ++ tick (tokenText token) ++ " is not listed in promptSpec.variables."
  | unknownTarget _ nodeId target =>
    "Transform " ++ tick nodeId ++ " maps into unknown state key " ++ tick target ++ "."
  | unknownReference _ nodeId _ reference =>
    "Transform " ++ tick nodeId ++ " references unknown node " ++ tick reference ++ "."

/-- A finding on one line: severity, code, path if there is one, wording. -/
def render (d : Diagnostic) : String :=
  "[" ++ d.severity.text ++ "] " ++ d.code ++ (if d.path = "" then "" else " " ++ d.path) ++ ": " ++
    d.message

end Diagnostic

end FormFlow
