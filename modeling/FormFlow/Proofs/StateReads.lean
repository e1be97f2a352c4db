import FormFlow.Proofs.RunSteps
import Mathlib.Data.List.Find

/-!
# What a run reads of the state

A run reads the state under the keys that its checks list and its prompts declare, and a key that is
absent reads like one that is null.  So two states that agree under these keys cannot be told apart: every
node does the same in both, and by induction so does the run, request by request.

The providers are the same on both sides, but they need not be without a memory: what a provider answers
may depend on all requests made before, and these are the same too.

## Principal results

* `runNode_congr` — a node does the same where the settings agree under the keys that it reads;
* `runNodes_congr` — so does a list of nodes, with the same requests;
* `runEvent_congr` — so does an event.
-/

namespace FormFlow

/-- The state keys that a node reads. -/
def Node.stateReads : Node → List String
  | .validate _ keys => keys
  | .prompt _ spec => spec.declared
  | .transform .. => []

/-- The state keys that the nodes of an event read. -/
def EventDefinition.stateReads (e : EventDefinition) : List String :=
  e.graph.nodes.flatMap Node.stateReads

/-- Two settings run the same event with the same providers, over states that agree under some keys.  Of
the states nothing else is asked, and an absent key counts as null.  Values are the same if they are the same
JSON: `1` is not `true`, and the members of an object stand in an order. -/
structure Setting.AgreeOn (keys : List String) (s t : Setting) : Prop where
  eventId : s.eventId = t.eventId
  registry : s.registry = t.registry
  values : ∀ key ∈ keys, (s.state.get? key).getD .null = (t.state.get? key).getD .null

section

variable {s t : Setting} {keys : List String}

theorem Setting.AgreeOn.mono (h : AgreeOn keys s t) {fewer : List String}
    (hsub : ∀ key ∈ fewer, key ∈ keys) : AgreeOn fewer s t :=
  ⟨h.eventId, h.registry, fun key hkey => h.values key (hsub key hkey)⟩

theorem Setting.AgreeOn.isVacant_eq (h : AgreeOn keys s t) {key : String} (hkey : key ∈ keys) :
    s.isVacant key = t.isVacant key := by
  have hvalue : s.valueOf key = t.valueOf key := h.values key hkey
  unfold isVacant
  rw [hvalue]

/-- A check finds the same key empty in both states, or none in either. -/
theorem Setting.AgreeOn.find?_isVacant (h : AgreeOn keys s t) :
    keys.find? s.isVacant = keys.find? t.isVacant :=
  List.find?_congr fun _ hkey => h.isVacant_eq hkey

/-- A prompt reads the same values. -/
theorem Setting.AgreeOn.values_eq (h : AgreeOn keys s t) : s.values keys = t.values keys :=
  List.map_congr_left fun key hkey => Prod.ext rfl (h.values key hkey)

/-- **A node does the same** where the settings agree under the keys that it reads. -/
theorem runNode_congr {node : Node} (h : Setting.AgreeOn node.stateReads s t) (p : Progress)
    (earlier : List Request) : runNode s node p earlier = runNode t node p earlier := by
  cases node with
  | validate id keys =>
    have hvacant : keys.find? s.isVacant = keys.find? t.isVacant := h.find?_isVacant
    rw [runNode, runNode, hvacant, h.eventId]
  | prompt id spec =>
    have hvalues : s.values spec.declared = t.values spec.declared := h.values_eq
    rw [runNode, runNode, hvalues, h.registry, h.eventId]
  | transform id targets => rw [runNode, runNode, h.eventId]

/-- **A list of nodes does the same.**  A node comes to the same progress and leaves the same requests, so
the providers of the nodes behind it have seen the same. -/
theorem runNodes_congr {nodes : List Node} (h : ∀ node ∈ nodes, Setting.AgreeOn node.stateReads s t)
    (p : Progress) (earlier : List Request) : runNodes s nodes p earlier = runNodes t nodes p earlier := by
  induction nodes generalizing p earlier with
  | nil => rfl
  | cons node nodes ih =>
    have hnode := h node (List.mem_cons_self ..)
    have hrest := ih fun other hother => h other (List.mem_cons_of_mem _ hother)
    rw [runNodes, runNodes, runNode_congr hnode]
    rcases runNode t node p earlier with ⟨requests, f | q⟩
    · rw [hnode.eventId]
    · exact hrest q requests

end

theorem ActionGraph.mem_of_node? {g : ActionGraph} {id : String} {node : Node}
    (h : g.node? id = some node) : node ∈ g.nodes :=
  List.mem_reverse.1 (List.mem_of_find?_eq_some h)

/-- Only nodes of the graph are looked up. -/
theorem ActionGraph.mem_of_mem_lookup {g : ActionGraph} {ids : List String} {node : Node}
    (h : node ∈ (g.lookup ids).1) : node ∈ g.nodes := by
  induction ids with
  | nil => cases h
  | cons id ids ih =>
    rw [lookup] at h
    cases hnode : g.node? id with
    | none =>
      rw [hnode] at h
      cases h
    | some found =>
      rw [hnode] at h
      rcases List.mem_cons.1 h with rfl | h
      · exact mem_of_node? hnode
      · exact ih h

/-- **A run depends on the state keys that its event names**, for every application, every event of it,
all providers and whatever was asked before.  Over two states that agree under these keys it makes the same
requests in the same order, and it ends with the same patch and the same log or with the same failure. -/
theorem runEvent_congr {app : App} {s t : Setting} {e : EventDefinition}
    (hfound : app.findEvent? s.eventId = some e) (hagree : Setting.AgreeOn e.stateReads s t)
    (earlier : List Request) : runEvent app s earlier = runEvent app t earlier := by
  have hnode : ∀ node ∈ e.graph.nodes, Setting.AgreeOn node.stateReads s t := fun node hnode =>
    hagree.mono fun _ hkey => List.mem_flatMap.2 ⟨node, hnode, hkey⟩
  have hgraph : runGraph s e.graph earlier = runGraph t e.graph earlier := by
    unfold runGraph
    cases topologicalSort? e.graph.nodeIds e.graph.edges with
    | none => rw [hagree.eventId]
    | some order =>
      dsimp only
      rw [runNodes_congr fun node hmem => hnode node (ActionGraph.mem_of_mem_lookup hmem), hagree.eventId]
  unfold runEvent
  rw [← hagree.eventId, hfound]
  exact hgraph

/-- A check, two prompts that ask the same provider, and what they write. -/
def toneGraph : ActionGraph :=
  { nodes := [.validate "check" ["notes"],
      .prompt "ask" ⟨"{{notes}} in tone {{tone}}", ["notes", "tone"], ⟨.mock, "m", none⟩, []⟩,
      .prompt "again" ⟨"Again: {{notes}}", ["notes"], ⟨.mock, "m", none⟩, []⟩,
      .transform "write" [("summary", "[$again.output]")]]
    edges := [⟨"check", "ask"⟩, ⟨"ask", "again"⟩, ⟨"again", "write"⟩] }

/-- A provider that answers its second request otherwise than its first. -/
def moodyRegistry : Registry :=
  [("mock", Provider.scripted ["\x7b\x7d", "\x7b\"n\": 2\x7d"] false "used up")]

/-- A tone of null, and a key that no node reads. -/
def toneless : Setting :=
  ⟨"send", [("tone", .null), ("notes", .str "late"), ("secret", .ofInt 1)], moodyRegistry⟩

/-- No tone at all, and another value under the key that no node reads. -/
def untoned : Setting :=
  ⟨"send", [("secret", .str "two"), ("notes", .str "late")], moodyRegistry⟩

/-- The two states make no difference, and the run succeeds. -/
theorem runEvent_congr_tone :
    Setting.AgreeOn (EventDefinition.stateReads ⟨"send", ⟨"button", .onClick⟩, toneGraph⟩)
        toneless untoned ∧
      runEvent (App.ofGraph toneGraph) toneless [] = runEvent (App.ofGraph toneGraph) untoned [] ∧
      (runEvent (App.ofGraph toneGraph) untoned []).result.toOption.isSome = true := by
  have hagree : Setting.AgreeOn (EventDefinition.stateReads ⟨"send", ⟨"button", .onClick⟩, toneGraph⟩)
      toneless untoned := by
    refine ⟨rfl, rfl, ?_⟩
    decide +kernel
  exact ⟨hagree, runEvent_congr (App.findEvent?_ofGraph toneGraph) hagree [], by decide +kernel⟩

end FormFlow
