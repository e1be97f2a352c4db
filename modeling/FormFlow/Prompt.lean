import FormFlow.App
import FormFlow.Failure
import FormFlow.Json.Reader
import FormFlow.Provider
import FormFlow.Shape
import FormFlow.Template

/-!
# Asking a provider

A prompt is filled in, sent to the provider that its policy names, and the answer is read as strict JSON
and checked against the declared shape.  A prompt that cannot be filled in, or whose provider is not
registered, makes no request; any other fault comes after the request.

## Principal results

* `ask_requests` — asking adds at most one request to those made before.
-/

namespace FormFlow

/-- All requests made so far, in order, and what came of the last step. -/
structure Asked (α : Type) where
  requests : List Request
  result : Except Failure α

/-- What a prompt gave: the checked output, the text it was read from, and details of its origin. -/
structure PromptResult where
  output : Json
  rawText : String
  details : Table Json
deriving DecidableEq

namespace Prompt

/-- What every prompt says before its own text. -/
def instruction : String := "You are a strict JSON API.\nReturn ONLY valid JSON."

/-- The temperature of a policy; without one it is zero. -/
def temperature (policy : ModelPolicy) : Number := .float (policy.temperature.getD 0.0)

/-- A prompt that cannot be filled in fails; if a key has no value, with a fault of the event. -/
def unfilled : Template.Fault → Failure
  | .missing name => .of (.missingVariable name)
  | .value error => .value error

/-- The provider and the request of a prompt. -/
def requestFor (registry : Registry) (policy : ModelPolicy) (values : Table Json)
    (template : String) : Except Failure (Provider × Request) :=
  match Template.interpolate values template with
  | .error fault => .error (unfilled fault)
  | .ok text =>
    match registry.get? policy.provider.text with
    | none => .error (.of (.unknownProvider policy.provider.text))
    | some provider =>
      .ok (provider,
        { provider := policy.provider.text
          prompt := instruction ++ "\n" ++ text
          model := policy.model
          temperature := temperature policy })

/-- A request goes to the provider that the policy names. -/
theorem requestFor_provider {registry : Registry} {policy : ModelPolicy} {values : Table Json}
    {template : String} {provider : Provider} {request : Request}
    (h : requestFor registry policy values template = .ok (provider, request)) :
    Table.get? registry policy.provider.text = some provider := by
  unfold requestFor at h
  split at h
  · cases h
  · split at h
    · cases h
    · rename_i found hfound
      cases h
      exact hfound

/-- Read the text of a provider as strict JSON. -/
def parseText (text : String) : Except Cause Json.Reading :=
  match Json.readText .strict text.toList with
  | .ok r => .ok r
  | .error e => .error (.badResponse (e.message text.toList) text)

/-- Read the text of a provider as a value, with characters in its strings. -/
def parseResponse (text : String) : Except Cause Json := (parseText text).map Json.Reading.toJson

/-- Check a value against the declared shape. -/
def checkOutput (shape : Table Json) (payload : Json) : Except Failure Json :=
  match validateOutput shape payload with
  | .ok v => .ok v
  | .error (.value error) => .error (.value error)
  | .error .badBound => .error .badBound
  | .error (.mismatch found) => .error (.of (.mismatch found payload))

/-- What the text of a provider gives. -/
def receive (shape : Table Json) (text : String) : Except Failure Json :=
  match parseResponse text with
  | .error cause => .error (.of cause)
  | .ok payload => checkOutput shape payload

/-- Ask the provider that a policy names. -/
def ask (registry : Registry) (policy : ModelPolicy) (shape values : Table Json)
    (template : String) (earlier : List Request) : Asked PromptResult :=
  match requestFor registry policy values template with
  | .error failure => ⟨earlier, .error failure⟩
  | .ok (provider, request) =>
    { requests := earlier ++ [request]
      result :=
        match provider earlier request with
        | .error message => .error (.provider message)
        | .ok reply => (receive shape reply.text).map (⟨·, reply.text, reply.details⟩) }

/-- Asking adds at most one request to those made before. -/
theorem ask_requests (registry : Registry) (policy : ModelPolicy) (shape values : Table Json)
    (template : String) (earlier : List Request) :
    (ask registry policy shape values template earlier).requests = earlier ∨
      ∃ request, (ask registry policy shape values template earlier).requests =
        earlier ++ [request] := by
  unfold ask
  split
  · exact .inl rfl
  · exact .inr ⟨_, rfl⟩

end Prompt

end FormFlow
