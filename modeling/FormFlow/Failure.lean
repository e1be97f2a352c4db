import FormFlow.Json.Numbers
import FormFlow.Schema

/-!
# Failures of a run

An event fails as a whole: the first fault ends it and no part of its result counts.  A fault of the
event itself is an `EventError`, which says what went wrong and, once that is known, in which event and
at which node.  Other faults lie outside: a provider that breaks down, a value without a text, and an output
shape that cannot be checked at all.
-/

namespace FormFlow

open Schema (tick)

/-- What went wrong while an event ran. -/
inductive Cause where
  /-- Any other fault, in its own words. -/
  | other (message : String)
  | unknownEvent (message : String)
  | cyclicGraph (message : String)
  | unknownNode (message : String)
  /-- A state key that must hold something holds nothing. -/
  | emptyState (key : String)
  /-- A template token has no value. -/
  | missingVariable (name : String)
  /-- No provider is registered under a name. -/
  | unknownProvider (name : String)
  /-- The text of a provider is no JSON. -/
  | badResponse (detail rawText : String)
  /-- The answer of a provider does not have the declared shape. -/
  | badOutput (detail : String) (found : List Schema.Issue) (payload : Json)
deriving DecidableEq

namespace Cause

/-- The application has no event with an id. -/
def noEvent (eventId : String) : Cause := unknownEvent ("Unknown event " ++ tick eventId ++ ".")

/-- The nodes of an event cannot be ordered. -/
def cyclic : Cause := cyclicGraph "Graph contains a cycle; cannot execute event."

/-- The order names a node that the graph does not have. -/
def absentNode (nodeId : String) : Cause :=
  unknownNode ("Node " ++ tick nodeId ++ " not found during execution.")

/-- A reference names a node without an output. -/
def noOutput (nodeId : String) : Cause :=
  unknownNode ("Transform references node " ++ tick nodeId ++ " which produced no output.")

/-- An answer that misses its shape, with all issues found. -/
def mismatch (found : List Schema.Issue) (payload : Json) : Cause :=
  badOutput (Schema.counted found.length "validation error" ++ " for PromptOutput") found payload

/-- The wording of a cause. -/
def message : Cause → String
  | other message | unknownEvent message | cyclicGraph message | unknownNode message => message
  | emptyState key => "Validation failed: state key " ++ tick key ++ " is empty."
  | missingVariable name => "Missing template variable " ++ tick name ++ "."
  | unknownProvider name => "Unknown provider " ++ tick name ++ "."
  | badResponse detail _ => "Provider response is not valid JSON: " ++ detail
  | badOutput detail _ _ => "Provider output does not match output schema: " ++ detail

end Cause

/-- A fault of an event, with the event and the node where it arose as far as they are known. -/
structure EventError where
  cause : Cause
  eventId : Option String
  nodeId : Option String
deriving DecidableEq

namespace EventError

/-- A fault without context. -/
def of (cause : Cause) : EventError := ⟨cause, none, none⟩

/-- Add context; what is known already stays. -/
def withContext (e : EventError) (eventId nodeId : Option String) : EventError :=
  { e with eventId := e.eventId.or eventId, nodeId := e.nodeId.or nodeId }

/-- Where a fault arose, after its message.  An empty id counts as unknown, and a node is named only
within an event. -/
def place (e : EventError) : String :=
  match e.eventId.filter (· ≠ ""), e.nodeId.filter (· ≠ "") with
  | some event, some node => " (event " ++ tick event ++ ", node " ++ tick node ++ ")"
  | some event, none => " (event " ++ tick event ++ ")"
  | none, _ => ""

/-- The text of a fault.  The issues of a bad output would stand between its message and its place, so
that its text is the message alone. -/
def text (e : EventError) : String :=
  match e.cause with
  | .badOutput .. => e.cause.message
  | _ => e.cause.message ++ e.place

end EventError

/-- Why a run ended without a result. -/
inductive Failure where
  /-- A fault of the event. -/
  | event (error : EventError)
  /-- A provider broke down. -/
  | provider (message : String)
  /-- A value has no text, or a declared output shape no type. -/
  | value (error : ValueError)
  /-- The declared output shape has a length bound that cannot be kept. -/
  | badBound
deriving DecidableEq

namespace Failure

/-- A fault of the event without context. -/
def of (cause : Cause) : Failure := event (.of cause)

/-- Add context to a fault of the event. -/
def withContext (eventId nodeId : Option String) : Failure → Failure
  | event e => event (e.withContext eventId nodeId)
  | f => f

end Failure

end FormFlow
