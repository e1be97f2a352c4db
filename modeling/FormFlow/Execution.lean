import FormFlow.Expression
import FormFlow.GraphOrder
import FormFlow.Prompt

/-!
# Running events

The nodes of an event run one at a time in the order of the graph.  A prompt leaves an output for later
nodes; a transform writes literals and outputs into a patch of the state.  The first fault ends the run,
and then there is no patch.

The application is taken in normal form: a prompt reads the state under the names of its variables, and
aliases are not resolved here.

## Principal results

* `runNodes_append` — running a list of nodes is running its front and then its back;
* `mapTargets_keys` — a transform writes to its targets only.
-/

namespace FormFlow

/-- The stage of a run that a log entry reports. -/
inductive Stage where
  | validate | prompt | transform
deriving DecidableEq

/-- The name of a stage. -/
def Stage.text : Stage → String
  | validate => "validate"
  | prompt => "prompt"
  | transform => "transform"

/-- An entry of the log of a run. -/
structure LogEntry where
  eventId : String
  stage : Stage
  message : String
deriving DecidableEq

/-- How far a run has come: the outputs of nodes, the patch of the state, the log. -/
structure Progress where
  outputs : Table Json
  patch : Table Json
  logs : List LogEntry
deriving DecidableEq

namespace Progress

/-- The start of a run. -/
def start : Progress := ⟨[], [], []⟩

/-- One more log entry. -/
def log (p : Progress) (eventId : String) (stage : Stage) (message : String) : Progress :=
  { p with logs := p.logs ++ [⟨eventId, stage, message⟩] }

end Progress

/-- What an event runs against. -/
structure Setting where
  eventId : String
  state : Table Json
  registry : Registry

namespace Setting

/-- The value of a state key; an absent key reads as null. -/
def valueOf (s : Setting) (key : String) : Json := (s.state.get? key).getD .null

/-- A state key that holds nothing: absent, null or an empty text. -/
def isVacant (s : Setting) (key : String) : Bool :=
  s.valueOf key = .null || s.valueOf key = .str ""

/-- The values of a prompt's variables. -/
def values (s : Setting) (names : List String) : Table Json :=
  names.map fun name => (name, s.valueOf name)

end Setting

/-- Write the value of each target into a patch, or stop at a reference to a node without an output. -/
def mapTargets (outputs : Table Json) : Table String → Table Json → Except String (Table Json)
  | [], patch => .ok patch
  | (target, expression) :: rest, patch =>
    match (Expression.parse expression).evaluate outputs with
    | .ok v => mapTargets outputs rest (patch.put target v)
    | .error nodeId => .error nodeId

/-- A transform writes to its targets only. -/
theorem mapTargets_keys {outputs : Table Json} {targets : Table String} {patch result : Table Json}
    (h : mapTargets outputs targets patch = .ok result) (key : String) :
    key ∈ result.keys ↔ key ∈ patch.keys ∨ key ∈ targets.keys := by
  induction targets generalizing patch with
  | nil =>
    simp only [mapTargets, Except.ok.injEq] at h
    simp [h, Table.keys]
  | cons entry rest ih =>
    obtain ⟨target, expression⟩ := entry
    rw [mapTargets] at h
    split at h
    · rename_i v _
      rw [ih h]
      by_cases hm : target ∈ patch.keys
      · rw [Table.keys_put_of_mem v hm]
        constructor
        · rintro (hk | hk)
          · exact .inl hk
          · exact .inr (by simp only [Table.keys, List.map_cons] at hk ⊢; exact .tail _ hk)
        · rintro (hk | hk)
          · exact .inl hk
          · simp only [Table.keys, List.map_cons, List.mem_cons] at hk
            rcases hk with rfl | hk
            · exact .inl hm
            · exact .inr hk
      · rw [Table.keys_put_of_not_mem v hm]
        simp only [Table.keys, List.map_cons, List.mem_append, List.mem_cons, List.not_mem_nil,
          or_false]
        grind
    · cases h

/-! ## Nodes -/

/-- Run one node. -/
def runNode (s : Setting) (node : Node) (p : Progress) (earlier : List Request) : Asked Progress :=
  match node with
  | .validate _ keys =>
    match keys.find? s.isVacant with
    | some key => ⟨earlier, .error (.of (.emptyState key))⟩
    | none =>
      ⟨earlier, .ok (p.log s.eventId .validate s!"Validated {keys.length} state keys.")⟩
  | .prompt id spec =>
    let asked := Prompt.ask s.registry spec.policy spec.shape (s.values spec.declared)
      spec.template earlier
    { requests := asked.requests
      result := asked.result.map fun r =>
        { p with outputs := p.outputs.put id r.output }.log s.eventId .prompt
          s!"PromptTask '{id}' executed via '{spec.policy.provider.text}'." }
  | .transform _ targets =>
    match mapTargets p.outputs targets p.patch with
    | .error nodeId => ⟨earlier, .error (.of (.noOutput nodeId))⟩
    | .ok patch =>
      ⟨earlier, .ok ({ p with patch := patch }.log s.eventId .transform
        s!"Mapped {targets.length} outputs into state patch.")⟩

/-- Run nodes in order; a fault is reported with the event and the node where it arose. -/
def runNodes (s : Setting) : List Node → Progress → List Request → Asked Progress
  | [], p, earlier => ⟨earlier, .ok p⟩
  | node :: rest, p, earlier =>
    match runNode s node p earlier with
    | ⟨requests, .ok p⟩ => runNodes s rest p requests
    | ⟨requests, .error f⟩ => ⟨requests, .error (f.withContext (some s.eventId) (some node.id))⟩

/-- Running a list of nodes is running its front and then, if that succeeds, its back. -/
theorem runNodes_append (s : Setting) (front back : List Node) (p : Progress)
    (earlier : List Request) :
    runNodes s (front ++ back) p earlier =
      match runNodes s front p earlier with
      | ⟨requests, .ok p⟩ => runNodes s back p requests
      | ⟨requests, .error f⟩ => ⟨requests, .error f⟩ := by
  induction front generalizing p earlier with
  | nil => rfl
  | cons node front ih =>
    rw [List.cons_append, runNodes, runNodes]
    rcases runNode s node p earlier with ⟨requests, _ | p⟩
    · rfl
    · exact ih p requests

/-! ## Events -/

/-- The last node with an id. -/
def ActionGraph.node? (g : ActionGraph) (id : String) : Option Node :=
  g.nodes.reverse.find? fun n => n.id = id

/-- The nodes under a list of ids, or the first id that has none. -/
def ActionGraph.lookup (g : ActionGraph) : List String → List Node × Option String
  | [] => ([], none)
  | id :: ids =>
    match g.node? id with
    | none => ([], some id)
    | some node =>
      let (nodes, absent) := g.lookup ids
      (node :: nodes, absent)

/-- The result of an event. -/
structure RunResult where
  statePatch : Table Json
  logs : List LogEntry
deriving DecidableEq

/-- Run the graph of an event. -/
def runGraph (s : Setting) (g : ActionGraph) (earlier : List Request) : Asked RunResult :=
  match topologicalSort? g.nodeIds g.edges with
  | none => ⟨earlier, .error (.event ⟨.cyclic, some s.eventId, none⟩)⟩
  | some order =>
    let (nodes, absent) := g.lookup order
    match runNodes s nodes .start earlier, absent with
    | ⟨requests, .ok p⟩, none => ⟨requests, .ok ⟨p.patch, p.logs⟩⟩
    | ⟨requests, .ok _⟩, some id =>
      ⟨requests, .error (.event ⟨.absentNode id, some s.eventId, none⟩)⟩
    | ⟨requests, .error f⟩, _ => ⟨requests, .error f⟩

/-- Run an event of an application. -/
def runEvent (app : App) (s : Setting) (earlier : List Request) : Asked RunResult :=
  match app.findEvent? s.eventId with
  | none => ⟨earlier, .error (.event ⟨.noEvent s.eventId, some s.eventId, none⟩)⟩
  | some e => runGraph s e.graph earlier

end FormFlow
