import FormFlow.App

/-!
# Ordering action graphs

Nodes run in an order in which the source of every edge stands before its target.  Nodes without
incoming edges are released in declaration order; a released node removes its outgoing edges in the
order in which they were declared, and a target that has lost its last incoming edge is released
next.  An edge to or from an undeclared node is set aside.  Nodes on a cycle, or behind one, are never
released, so the order comes out short exactly when there is a cycle.

## Principal results

* `mem_distinct`, `nodup_distinct` — repeated ids collapse to their first occurrence;
* `unknownEdges_append` — edges are split into known and unknown ones without loss.
-/

namespace FormFlow

/-- The elements of a list without repetitions, each at its first occurrence. -/
def distinct : List String → List String
  | [] => []
  | a :: as => a :: (distinct as).filter (· ≠ a)

@[simp] theorem mem_distinct {a : String} {as : List String} : a ∈ distinct as ↔ a ∈ as := by
  induction as with
  | nil => simp [distinct]
  | cons b bs ih =>
    by_cases h : a = b <;> simp [distinct, h, ih]

theorem nodup_distinct (as : List String) : (distinct as).Nodup := by
  induction as with
  | nil => simp [distinct]
  | cons a as ih =>
    refine List.nodup_cons.2 ⟨by simp, ?_⟩
    exact List.filter_sublist.nodup ih

/-- The outcome of ordering a graph. -/
structure GraphOrder where
  /-- The released nodes, in the order of their release. -/
  order : List String
  /-- The number of distinct nodes. -/
  nodeCount : Nat
  /-- The edges with an undeclared end, in declaration order. -/
  unknownEdges : List Edge
deriving DecidableEq

/-- Every node was released. -/
def GraphOrder.isAcyclic (r : GraphOrder) : Bool := r.order.length == r.nodeCount

namespace GraphOrder

/-- An edge between declared nodes. -/
def isKnown (ids : List String) (e : Edge) : Bool := ids.contains e.source && ids.contains e.target

/-- The number of edges into a node. -/
def indegree (edges : List Edge) (id : String) : Nat := edges.countP fun e => e.target == id

/-- The targets of the edges out of a node, in declaration order. -/
def targets (edges : List Edge) (id : String) : List String :=
  (edges.filter fun e => e.source == id).map Edge.target

/-- Remove one incoming edge from each of a list of nodes, in order: the incoming edges that remain,
and the nodes that lost their last one. -/
def releaseAll : List String → (String → Nat) → (String → Nat) × List String
  | [], incoming => (incoming, [])
  | id :: ids, incoming =>
    let left := incoming id - 1
    let (rest, released) := releaseAll ids fun other => if other = id then left else incoming other
    (rest, if left = 0 then id :: released else released)

/-- Take nodes off the front of a queue and release their targets at its back. -/
def drain (edges : List Edge) : Nat → List String → (String → Nat) → List String
  | 0, _, _ => []
  | _, [], _ => []
  | fuel + 1, id :: queue, incoming =>
    let (incoming, released) := releaseAll (targets edges id) incoming
    id :: drain edges fuel (queue ++ released) incoming

/-- Order a graph.  Each node enters the queue at most once, so as many steps as there are nodes
suffice. -/
def compute (nodeIds : List String) (edges : List Edge) : GraphOrder :=
  let ids := distinct nodeIds
  let known := edges.filter (isKnown ids)
  let start := ids.filter fun id => indegree known id == 0
  { order := drain known ids.length start (indegree known)
    nodeCount := ids.length
    unknownEdges := edges.filter fun e => !isKnown ids e }

theorem unknownEdges_append (nodeIds : List String) (edges : List Edge) :
    (edges.filter (isKnown (distinct nodeIds)) ++ (compute nodeIds edges).unknownEdges).Perm
      edges := by
  simp only [compute]
  exact List.filter_append_perm _ _

end GraphOrder

/-- The order of a graph without cycles, and nothing for a graph with one. -/
def topologicalSort? (nodeIds : List String) (edges : List Edge) : Option (List String) :=
  let r := GraphOrder.compute nodeIds edges
  if r.isAcyclic then some r.order else none

end FormFlow
