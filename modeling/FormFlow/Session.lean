import FormFlow.Compilation
import FormFlow.Execution

/-!
# Sessions

A session runs events of one application against a state that lasts.  Between runs the state can be
edited; a successful run merges its patch into the state, and a failed one leaves the state alone.
Providers see the requests of the whole session.

## Principal results

* `step_failed_state` — a failed run does not change the state;
* `step_edit_requests` — edits make no requests.
-/

namespace FormFlow

/-- How a session has gone so far: the state, and all requests made. -/
structure Session where
  state : Table Json
  requests : List Request
deriving DecidableEq

/-- A step of a session. -/
inductive SessionStep where
  /-- Merge entries into the state. -/
  | set (entries : Table Json)
  /-- Remove keys from the state. -/
  | unset (keys : List String)
  /-- Run an event. -/
  | run (eventId : String)
deriving DecidableEq

namespace Session

/-- Run an event and merge its patch. -/
def run (app : App) (registry : Registry) (s : Session) (eventId : String) :
    Session × Except Failure RunResult :=
  let asked := runEvent app ⟨eventId, s.state, registry⟩ s.requests
  let state :=
    match asked.result with
    | .ok r => s.state.merge r.statePatch
    | .error _ => s.state
  (⟨state, asked.requests⟩, asked.result)

/-- Take a step; a run has a result. -/
def step (app : App) (registry : Registry) (s : Session) :
    SessionStep → Session × Option (Except Failure RunResult)
  | .set entries => ({ s with state := s.state.merge entries }, none)
  | .unset keys => ({ s with state := keys.foldl Table.erase s.state }, none)
  | .run eventId =>
    let (s, result) := s.run app registry eventId
    (s, some result)

/-- A failed run does not change the state. -/
theorem step_failed_state {app : App} {registry : Registry} {s t : Session} {eventId : String}
    {f : Failure} (h : s.step app registry (.run eventId) = (t, some (.error f))) :
    t.state = s.state := by
  simp only [step, run, Prod.mk.injEq, Option.some.injEq] at h
  obtain ⟨rfl, hf⟩ := h
  simp [hf]

/-- Edits make no requests. -/
theorem step_edit_requests {app : App} {registry : Registry} {s : Session} {step : SessionStep}
    (h : ∀ eventId, step ≠ .run eventId) : (s.step app registry step).1.requests = s.requests := by
  cases step with
  | set entries => rfl
  | unset keys => rfl
  | run eventId => exact absurd rfl (h eventId)

/-- Take steps one after another, keeping what each left behind. -/
def steps (app : App) (registry : Registry) (s : Session) :
    List SessionStep → List (Session × Option (Except Failure RunResult))
  | [] => []
  | first :: rest =>
    let taken := s.step app registry first
    taken :: taken.1.steps app registry rest

end Session

end FormFlow
