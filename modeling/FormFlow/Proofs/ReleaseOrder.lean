import FormFlow.GraphOrder
import Mathlib.Data.Fintype.Card
import Mathlib.Data.Set.Finite.Basic
import Mathlib.Logic.Relation

/-!
# Which nodes are released, and in which order

The loop of `GraphOrder.drain` keeps counters of incoming edges.  `Draining` says what the counters,
the queue and the nodes taken so far have to do with each other; `Draining.step` keeps it over one
turn of the loop and `drain_spec` over a whole run.  At the end the queue is empty, and then a node
is missing exactly when one of its sources is missing.

## Principal results

* `releaseAll_counts`, `mem_releaseAll` — what removing a list of edges does to the counters and which
  nodes it releases;
* `order_settled` — the order holds every node without a missing source and puts sources first;
* `entangled_of_source_closed` — in a finite graph, nodes that all have a source among them stand on or
  behind a cycle;
* `compute_exact` — the order, the edges set aside and the absence of cycles, for every list of nodes
  and every list of edges;
* `Orders.not_reaches` — in an order of the nodes no path leads back;
* `Orders.filter_eq` — nodes that are joined by paths stand in every order alike.
-/

namespace FormFlow.GraphOrder

/-! ## Releasing -/

theorem releaseAll_counts (ids : List String) (incoming : String → Nat) (v : String) :
    (releaseAll ids incoming).1 v = incoming v - ids.count v := by
  induction ids generalizing incoming with
  | nil => simp [releaseAll]
  | cons id ids ih =>
    simp only [releaseAll, ih, List.count_cons]
    by_cases h : v = id
    · subst h
      simp
      omega
    · have hb : (id == v) = false := by simp [Ne.symm h]
      simp [h, hb]

/-- Counters that cover a list of edges still cover its tail once the first edge is removed. -/
theorem counts_tail {id : String} {ids : List String} {incoming : String → Nat}
    (h : ∀ v, (id :: ids).count v ≤ incoming v) (w : String) :
    ids.count w ≤ if w = id then incoming id - 1 else incoming w := by
  have hcount := h w
  by_cases hw : w = id
  · subst hw
    rw [List.count_cons_self] at hcount
    rw [if_pos rfl]
    omega
  · rw [List.count_cons_of_ne (Ne.symm hw)] at hcount
    rw [if_neg hw]
    exact hcount

/-- A node is released exactly when the list holds all of its incoming edges. -/
theorem mem_releaseAll {ids : List String} {incoming : String → Nat}
    (h : ∀ v, ids.count v ≤ incoming v) (v : String) :
    v ∈ (releaseAll ids incoming).2 ↔ v ∈ ids ∧ incoming v = ids.count v := by
  induction ids generalizing incoming with
  | nil => simp [releaseAll]
  | cons id ids ih =>
    have htail := counts_tail h
    have ih := ih htail
    simp only [releaseAll]
    by_cases hv : v = id
    · subst hv
      have hself := h v
      rw [List.count_cons_self] at hself ⊢
      -- The last of the edges into `v` may come now or later in the list.
      by_cases hlast : incoming v - 1 = 0
      · simp only [hlast, if_true, List.mem_cons, true_or, true_and, true_iff]
        have := htail v
        rw [if_pos rfl] at this
        omega
      · simp only [hlast, if_false, ih, if_true, List.mem_cons, true_or, true_and]
        constructor
        · rintro ⟨_, he⟩
          omega
        · intro he
          exact ⟨List.count_pos_iff.1 (by omega), by omega⟩
    · have hcount : (id :: ids).count v = ids.count v := List.count_cons_of_ne (Ne.symm hv)
      rw [hcount, List.mem_cons]
      rw [if_neg hv] at ih
      split <;> simp [hv, ih]

theorem nodup_releaseAll {ids : List String} {incoming : String → Nat}
    (h : ∀ v, ids.count v ≤ incoming v) : (releaseAll ids incoming).2.Nodup := by
  induction ids generalizing incoming with
  | nil => simp [releaseAll]
  | cons id ids ih =>
    have htail := counts_tail h
    simp only [releaseAll]
    split
    · rename_i hlast
      refine List.nodup_cons.2 ⟨?_, ih htail⟩
      rw [mem_releaseAll htail]
      rintro ⟨hmem, he⟩
      have hpos := List.count_pos_iff.2 hmem
      rw [if_pos rfl] at he
      omega
    · exact ih htail

/-! ## The loop -/

/-- The edges whose source has not been taken. -/
def remaining (known : List Edge) (taken : List String) : List Edge :=
  known.filter fun e => !taken.contains e.source

theorem mem_remaining {known : List Edge} {taken : List String} {e : Edge} :
    e ∈ remaining known taken ↔ e ∈ known ∧ e.source ∉ taken := by
  simp [remaining]

theorem indegree_eq_zero_iff {edges : List Edge} {v : String} :
    indegree edges v = 0 ↔ ∀ e ∈ edges, e.target ≠ v := by
  simp [indegree, List.countP_eq_zero]

theorem remaining_cons (e : Edge) (known : List Edge) (taken : List String) :
    remaining (e :: known) taken =
      if e.source ∈ taken then remaining known taken else e :: remaining known taken := by
  by_cases h : e.source ∈ taken <;> simp [remaining, h]

theorem indegree_cons (e : Edge) (edges : List Edge) (v : String) :
    indegree (e :: edges) v = indegree edges v + if e.target = v then 1 else 0 := by
  simp [indegree, List.countP_cons]

theorem count_targets_cons (e : Edge) (edges : List Edge) (id v : String) :
    (targets (e :: edges) id).count v =
      (targets edges id).count v + if e.source = id ∧ e.target = v then 1 else 0 := by
  by_cases h : e.source = id <;> simp [targets, h, List.count_cons]

/-- Taking a node removes its outgoing edges and no others. -/
theorem indegree_remaining_append {known : List Edge} {taken : List String} {id : String}
    (h : id ∉ taken) (v : String) :
    indegree (remaining known taken) v =
      indegree (remaining known (taken ++ [id])) v + (targets known id).count v := by
  induction known with
  | nil => rfl
  | cons e known ih =>
    rw [remaining_cons, remaining_cons, count_targets_cons]
    by_cases hid : e.source = id
    · have hout : e.source ∉ taken := hid ▸ h
      have hin : e.source ∈ taken ++ [id] := by simp [hid]
      rw [if_neg hout, if_pos hin, indegree_cons, ih]
      simp only [hid, true_and]
      omega
    · have hsame : e.source ∈ taken ++ [id] ↔ e.source ∈ taken := by simp [hid]
      simp only [hsame, hid, false_and, if_false]
      split
      · exact ih
      · rw [indegree_cons, indegree_cons, ih]
        omega

/-- Every edge into a node of the list comes from a node further to the front. -/
def SourcesFirst (known : List Edge) (order : List String) : Prop :=
  ∀ front v back, order = front ++ v :: back → ∀ e ∈ known, e.target = v → e.source ∈ front

/-- What holds between two turns of the loop: `taken` has been put out, `queue` waits. -/
structure Draining (ids : List String) (known : List Edge) (taken queue : List String)
    (incoming : String → Nat) : Prop where
  nodup : (taken ++ queue).Nodup
  declared : ∀ v ∈ taken ++ queue, v ∈ ids
  counts : ∀ v, incoming v = indegree (remaining known taken) v
  released : ∀ v ∈ ids, (v ∈ taken ++ queue ↔ incoming v = 0)
  sourcesFirst : SourcesFirst known taken

theorem Draining.source_taken {ids taken queue : List String} {known : List Edge}
    {incoming : String → Nat} (inv : Draining ids known taken queue incoming) {v : String}
    (hv : v ∈ ids) (hmem : v ∈ taken ++ queue) {e : Edge} (he : e ∈ known) (ht : e.target = v) :
    e.source ∈ taken := by
  have hzero := (inv.released v hv).1 hmem
  rw [inv.counts v, indegree_eq_zero_iff] at hzero
  by_cases hs : e.source ∈ taken
  · exact hs
  · exact absurd ht (hzero e (mem_remaining.2 ⟨he, hs⟩))

theorem SourcesFirst.append {known : List Edge} {order : List String} {id : String}
    (h : SourcesFirst known order) (hid : ∀ e ∈ known, e.target = id → e.source ∈ order) :
    SourcesFirst known (order ++ [id]) := by
  intro front v back heq e he ht
  rcases back.eq_nil_or_concat with rfl | ⟨back, w, rfl⟩
  · obtain ⟨rfl, hv⟩ := List.append_inj' heq rfl
    simp only [List.cons.injEq, and_true] at hv
    exact hid e he (ht.trans hv.symm)
  · rw [List.concat_eq_append, ← List.cons_append, ← List.append_assoc] at heq
    exact h front v back (List.append_inj' heq rfl).1 e he ht

/-- One turn of the loop: the node at the front of the queue is taken, and the targets that lost their
last edge join the queue. -/
theorem Draining.step {ids taken queue : List String} {known : List Edge} {id : String}
    {incoming : String → Nat} (inv : Draining ids known taken (id :: queue) incoming)
    (hknown : ∀ e ∈ known, e.target ∈ ids) :
    Draining ids known (taken ++ [id])
      (queue ++ (releaseAll (targets known id) incoming).2)
      (releaseAll (targets known id) incoming).1 := by
  have hid : id ∉ taken := by
    have := inv.nodup
    rw [List.nodup_append] at this
    exact fun hm => this.2.2 id hm id (List.mem_cons_self ..) rfl
  have hsplit : ∀ v, indegree (remaining known taken) v =
      indegree (remaining known (taken ++ [id])) v + (targets known id).count v :=
    indegree_remaining_append hid
  have hcover : ∀ v, (targets known id).count v ≤ incoming v := by
    intro v
    rw [inv.counts v, hsplit v]
    omega
  have hcounts : ∀ v, (releaseAll (targets known id) incoming).1 v =
      indegree (remaining known (taken ++ [id])) v := by
    intro v
    rw [releaseAll_counts, inv.counts v, hsplit v]
    omega
  have hreleased : ∀ v, v ∈ (releaseAll (targets known id) incoming).2 ↔
      v ∈ targets known id ∧ incoming v = (targets known id).count v := mem_releaseAll hcover
  have hdeclared : ∀ v ∈ targets known id, v ∈ ids := by
    intro v hv
    simp only [targets, List.mem_map, List.mem_filter] at hv
    obtain ⟨e, ⟨he, _⟩, rfl⟩ := hv
    exact hknown e he
  -- A released node still had an edge, so it was not waiting or taken before.
  have hfresh : ∀ v ∈ (releaseAll (targets known id) incoming).2, v ∉ taken ++ id :: queue := by
    intro v hv hold
    obtain ⟨hmem, hcount⟩ := (hreleased v).1 hv
    have hpos := List.count_pos_iff.2 hmem
    have hzero := (inv.released v (hdeclared v hmem)).1 hold
    omega
  have happend : taken ++ [id] ++ (queue ++ (releaseAll (targets known id) incoming).2) =
      taken ++ id :: queue ++ (releaseAll (targets known id) incoming).2 := by simp
  constructor
  · rw [happend, List.nodup_append]
    refine ⟨inv.nodup, nodup_releaseAll hcover, ?_⟩
    rintro a ha b hb rfl
    exact hfresh a hb ha
  · rw [happend]
    intro v hv
    rcases List.mem_append.1 hv with hv | hv
    · exact inv.declared v hv
    · exact hdeclared v ((hreleased v).1 hv).1
  · exact hcounts
  · intro v hv
    rw [happend, List.mem_append, inv.released v hv, hreleased v, releaseAll_counts]
    constructor
    · rintro (hzero | ⟨_, hcount⟩) <;> omega
    · intro hleft
      have hle := hcover v
      by_cases hmem : v ∈ targets known id
      · exact .inr ⟨hmem, by omega⟩
      · rw [List.count_eq_zero_of_not_mem hmem] at hleft
        exact .inl (by omega)
  · have hwait : id ∈ taken ++ id :: queue := by simp
    exact inv.sourcesFirst.append fun e he ht =>
      inv.source_taken (inv.declared id hwait) hwait he ht

/-- **A run of the loop** takes nodes until none waits. -/
theorem drain_spec {ids : List String} {known : List Edge} (hknown : ∀ e ∈ known, e.target ∈ ids)
    (fuel : Nat) {taken queue : List String} {incoming : String → Nat}
    (inv : Draining ids known taken queue incoming) (hfuel : taken.length + fuel = ids.length) :
    ∃ left, Draining ids known (taken ++ drain known fuel queue incoming) [] left := by
  induction fuel generalizing taken queue incoming with
  | zero =>
    -- All declared nodes have been taken, so none can be waiting.
    have hle := (inv.nodup.subperm inv.declared).length_le
    rw [List.length_append] at hle
    have hempty : queue = [] := List.eq_nil_of_length_eq_zero (by omega)
    subst hempty
    exact ⟨incoming, by simpa [drain] using inv⟩
  | succ fuel ih =>
    cases queue with
    | nil => exact ⟨incoming, by simpa [drain] using inv⟩
    | cons id queue =>
      have hnext := ih (inv.step hknown) (by simp; omega)
      simpa [drain, List.append_assoc] using hnext

/-! ## The order of a graph -/

variable {nodeIds : List String} {edges : List Edge}

/-- An edge between declared nodes leads from its source to its target. -/
def Leads (nodeIds : List String) (edges : List Edge) (u v : String) : Prop :=
  ⟨u, v⟩ ∈ edges ∧ u ∈ nodeIds ∧ v ∈ nodeIds

/-- A node on a cycle, or reachable from one. -/
def Entangled (nodeIds : List String) (edges : List Edge) (v : String) : Prop :=
  ∃ u, Relation.TransGen (Leads nodeIds edges) u u ∧ Relation.ReflTransGen (Leads nodeIds edges) u v

theorem isKnown_iff {e : Edge} :
    isKnown (distinct nodeIds) e = true ↔ e.source ∈ nodeIds ∧ e.target ∈ nodeIds := by
  simp [isKnown]

theorem leads_iff_known {u v : String} :
    Leads nodeIds edges u v ↔ ⟨u, v⟩ ∈ edges.filter (isKnown (distinct nodeIds)) := by
  rw [List.mem_filter, isKnown_iff, Leads]

/-- What holds at the start of the loop: the nodes without incoming edges wait. -/
theorem Draining.start (nodeIds : List String) (known : List Edge) :
    Draining (distinct nodeIds) known [] ((distinct nodeIds).filter fun id => indegree known id == 0)
      (indegree known) := by
  constructor
  · exact List.filter_sublist.nodup (nodup_distinct nodeIds)
  · exact fun v hv => (List.mem_filter.1 hv).1
  · intro v
    simp [remaining]
  · intro v hv
    simp [mem_distinct.1 hv]
  · intro front v back heq
    simp at heq

theorem target_declared (nodeIds : List String) (edges : List Edge) :
    ∀ e ∈ edges.filter (isKnown (distinct nodeIds)), e.target ∈ distinct nodeIds := by
  intro e he
  exact mem_distinct.2 (isKnown_iff.1 (List.mem_filter.1 he).2).2

/-- At the end of the loop no node waits. -/
theorem compute_drained (nodeIds : List String) (edges : List Edge) :
    ∃ left, Draining (distinct nodeIds) (edges.filter (isKnown (distinct nodeIds)))
      (compute nodeIds edges).order [] left := by
  have := drain_spec (target_declared nodeIds edges) (distinct nodeIds).length
    (Draining.start nodeIds _) (by simp)
  simpa only [compute, List.nil_append] using this

theorem order_nodup (nodeIds : List String) (edges : List Edge) :
    (compute nodeIds edges).order.Nodup := by
  obtain ⟨left, inv⟩ := compute_drained nodeIds edges
  simpa using inv.nodup

theorem order_declared {v : String} (h : v ∈ (compute nodeIds edges).order) : v ∈ nodeIds := by
  obtain ⟨left, inv⟩ := compute_drained nodeIds edges
  exact mem_distinct.1 (inv.declared v (by simpa using h))

/-- The sources of a released node stand further to the front. -/
theorem order_sourcesFirst (nodeIds : List String) (edges : List Edge) :
    SourcesFirst (edges.filter (isKnown (distinct nodeIds))) (compute nodeIds edges).order := by
  obtain ⟨left, inv⟩ := compute_drained nodeIds edges
  exact inv.sourcesFirst

/-- A node that was not released has a source that was not released. -/
theorem exists_missing_source {v : String} (hv : v ∈ nodeIds)
    (h : v ∉ (compute nodeIds edges).order) :
    ∃ u, u ∉ (compute nodeIds edges).order ∧ Leads nodeIds edges u v := by
  obtain ⟨left, inv⟩ := compute_drained nodeIds edges
  have hleft : left v ≠ 0 := by
    intro hzero
    have := (inv.released v (mem_distinct.2 hv)).2 hzero
    exact h (by simpa using this)
  rw [inv.counts v, Ne, indegree_eq_zero_iff] at hleft
  simp only [not_forall] at hleft
  obtain ⟨e, he, ht⟩ := hleft
  obtain ⟨hknown, hs⟩ := mem_remaining.1 he
  refine ⟨e.source, hs, ?_⟩
  rw [leads_iff_known, ← not_not.1 ht]
  exact hknown

/-! ## Paths -/

theorem idxOf_lt_of_leads {u v : String} (h : Leads nodeIds edges u v)
    (hv : v ∈ (compute nodeIds edges).order) :
    (compute nodeIds edges).order.idxOf u < (compute nodeIds edges).order.idxOf v := by
  obtain ⟨front, back, heq⟩ := List.append_of_mem hv
  have hu := order_sourcesFirst nodeIds edges front v back heq _ (leads_iff_known.1 h) rfl
  have hnodup := order_nodup nodeIds edges
  rw [heq] at hnodup ⊢
  have hfront : v ∉ front := by
    rw [List.nodup_append] at hnodup
    exact fun hm => hnodup.2.2 v hm v (List.mem_cons_self ..) rfl
  rw [List.idxOf_append_of_mem hu, List.idxOf_append_of_notMem hfront, List.idxOf_cons_self]
  exact List.idxOf_lt_length_of_mem hu

theorem mem_order_of_idxOf_lt {order : List String} {u v : String}
    (h : order.idxOf u < order.idxOf v) : u ∈ order :=
  List.idxOf_lt_length_iff.1 (Nat.lt_of_lt_of_le h List.idxOf_le_length)

/-- A path to a released node climbs in the order. -/
theorem idxOf_lt_of_path {u v : String} (h : Relation.TransGen (Leads nodeIds edges) u v)
    (hv : v ∈ (compute nodeIds edges).order) :
    (compute nodeIds edges).order.idxOf u < (compute nodeIds edges).order.idxOf v := by
  induction h with
  | single hstep => exact idxOf_lt_of_leads hstep hv
  | tail _ hstep ih =>
    have hlast := idxOf_lt_of_leads hstep hv
    exact Nat.lt_trans (ih (mem_order_of_idxOf_lt hlast)) hlast

theorem not_entangled_of_mem_order {v : String} (hv : v ∈ (compute nodeIds edges).order) :
    ¬ Entangled nodeIds edges v := by
  rintro ⟨u, hcycle, hpath⟩
  have hu : u ∈ (compute nodeIds edges).order := by
    rcases Relation.reflTransGen_iff_eq_or_transGen.1 hpath with rfl | hpath
    · exact hv
    · exact mem_order_of_idxOf_lt (idxOf_lt_of_path hpath hv)
  exact Nat.lt_irrefl _ (idxOf_lt_of_path hcycle hu)

/-- Going back from source to source in a finite graph ends in a cycle. -/
theorem entangled_of_source_closed {P : String → Prop}
    (h : ∀ v, P v → ∃ u, P u ∧ Leads nodeIds edges u v) {v : String} (hv : P v) :
    Entangled nodeIds edges v := by
  by_contra hfree
  let Node := { u : String // u ∈ nodeIds }
  -- The nodes that lead to `v` are finitely many and, without a cycle, well-founded.
  let before : Node → Node → Prop := fun a b =>
    Relation.TransGen (Leads nodeIds edges) a.1 b.1 ∧
      Relation.ReflTransGen (Leads nodeIds edges) b.1 v
  have hirrefl : Std.Irrefl before := ⟨fun a ha => hfree ⟨a.1, ha⟩⟩
  have htrans : IsTrans Node before := ⟨fun a b c hab hbc => ⟨hab.1.trans hbc.1, hbc.2⟩⟩
  have hfinite : Finite Node := List.finite_toSet nodeIds
  have hwf : WellFounded before := Finite.wellFounded_of_trans_of_irrefl before
  have hnone : ∀ a : Node, Relation.ReflTransGen (Leads nodeIds edges) a.1 v → ¬ P a.1 := by
    intro a
    induction a using hwf.induction with
    | _ a ih =>
      intro hpath ha
      obtain ⟨u, hu, hstep⟩ := h a.1 ha
      exact ih ⟨u, hstep.2.1⟩ ⟨.single hstep, hpath⟩ (.head hstep hpath) hu
  obtain ⟨_, _, hstep⟩ := h v hv
  exact hnone ⟨v, hstep.2.2⟩ .refl hv

/-- The order holds exactly the declared nodes that no cycle holds back. -/
theorem mem_order_iff {v : String} :
    v ∈ (compute nodeIds edges).order ↔ v ∈ nodeIds ∧ ¬ Entangled nodeIds edges v := by
  constructor
  · exact fun hv => ⟨order_declared hv, not_entangled_of_mem_order hv⟩
  · rintro ⟨hv, hfree⟩
    by_contra hmissing
    refine hfree (entangled_of_source_closed
      (P := fun u => u ∈ nodeIds ∧ u ∉ (compute nodeIds edges).order) ?_ ⟨hv, hmissing⟩)
    rintro w ⟨hw, hout⟩
    obtain ⟨u, hu, hstep⟩ := exists_missing_source hw hout
    exact ⟨u, ⟨hstep.2.1, hu⟩, hstep⟩

/-- Every node is released exactly when no node leads back to itself. -/
theorem isAcyclic_iff :
    (compute nodeIds edges).isAcyclic = true ↔
      ∀ v, ¬ Relation.TransGen (Leads nodeIds edges) v v := by
  have hlength : (compute nodeIds edges).isAcyclic = true ↔
      (compute nodeIds edges).order.length = (distinct nodeIds).length := by
    simp [isAcyclic, compute]
  have hsub : (compute nodeIds edges).order ⊆ distinct nodeIds :=
    fun v hv => mem_distinct.2 (order_declared hv)
  have hsubperm := (order_nodup nodeIds edges).subperm hsub
  rw [hlength]
  constructor
  · intro heq v hcycle
    have hperm := hsubperm.perm_of_length_le (Nat.le_of_eq heq.symm)
    obtain ⟨w, hstep, _⟩ := Relation.TransGen.head'_iff.1 hcycle
    have hv : v ∈ (compute nodeIds edges).order := hperm.mem_iff.2 (mem_distinct.2 hstep.2.1)
    exact not_entangled_of_mem_order hv ⟨v, hcycle, .refl⟩
  · intro hfree
    refine Nat.le_antisymm hsubperm.length_le ?_
    refine ((nodup_distinct nodeIds).subperm fun v hv => ?_).length_le
    refine mem_order_iff.2 ⟨mem_distinct.1 hv, ?_⟩
    rintro ⟨u, hcycle, _⟩
    exact hfree u hcycle

theorem mem_order_of_isAcyclic (h : (compute nodeIds edges).isAcyclic = true) {v : String}
    (hv : v ∈ nodeIds) : v ∈ (compute nodeIds edges).order := by
  refine mem_order_iff.2 ⟨hv, ?_⟩
  rintro ⟨u, hcycle, _⟩
  exact isAcyclic_iff.1 h u hcycle

/-- **What ordering a graph gives**, for every list of nodes and every list of edges.  The edges set
aside are those with an undeclared end.  The order repeats nothing, holds the declared nodes that stand
neither on nor behind a cycle, and puts the source of an edge before its target.  Exactly when no node
leads back to itself there are no nodes missing, and sorting gives the order. -/
theorem compute_exact (nodeIds : List String) (edges : List Edge) :
    (compute nodeIds edges).unknownEdges =
        edges.filter (fun e => decide (e.source ∉ nodeIds ∨ e.target ∉ nodeIds)) ∧
      (compute nodeIds edges).order.Nodup ∧
      (∀ v, v ∈ (compute nodeIds edges).order ↔ v ∈ nodeIds ∧ ¬ Entangled nodeIds edges v) ∧
      (∀ u v, Leads nodeIds edges u v → v ∈ (compute nodeIds edges).order →
        u ∈ (compute nodeIds edges).order ∧
          (compute nodeIds edges).order.idxOf u < (compute nodeIds edges).order.idxOf v) ∧
      ((compute nodeIds edges).isAcyclic = true ↔
        ∀ v, ¬ Relation.TransGen (Leads nodeIds edges) v v) ∧
      (topologicalSort? nodeIds edges = some (compute nodeIds edges).order ↔
        ∀ v, ¬ Relation.TransGen (Leads nodeIds edges) v v) ∧
      (topologicalSort? nodeIds edges = none ↔
        ∃ v, Relation.TransGen (Leads nodeIds edges) v v) := by
  refine ⟨?_, order_nodup nodeIds edges, fun v => mem_order_iff, ?_, isAcyclic_iff, ?_, ?_⟩
  · simp only [compute]
    refine List.filter_congr fun e _ => ?_
    rw [Bool.eq_iff_iff, Bool.not_eq_true', ← Bool.not_eq_true, isKnown_iff, decide_eq_true_iff]
    tauto
  · intro u v hstep hv
    have hlt := idxOf_lt_of_leads hstep hv
    exact ⟨mem_order_of_idxOf_lt hlt, hlt⟩
  · rw [← isAcyclic_iff]
    unfold topologicalSort?
    cases h : (compute nodeIds edges).isAcyclic <;> simp [h]
  · have hnot : (∃ v, Relation.TransGen (Leads nodeIds edges) v v) ↔
        ¬ (compute nodeIds edges).isAcyclic = true := by
      rw [isAcyclic_iff]
      simp
    rw [hnot]
    unfold topologicalSort?
    cases h : (compute nodeIds edges).isAcyclic <;> simp [h]

end FormFlow.GraphOrder

namespace FormFlow

/-- A relation holds along a list when each element has it with the elements before. -/
theorem pairwise_iff_earlier {α : Type} {R : α → α → Prop} {as : List α} :
    as.Pairwise R ↔ ∀ front a back, as = front ++ a :: back → ∀ d ∈ front, R d a := by
  constructor
  · intro h front a back heq d hd
    rw [heq, List.pairwise_append] at h
    exact h.2.2 d hd a (List.mem_cons_self ..)
  · intro h
    induction as with
    | nil => exact List.Pairwise.nil
    | cons b as ih =>
      refine List.pairwise_cons.2 ⟨fun a ha => ?_, ih fun front a back heq d hd => ?_⟩
      · obtain ⟨front, back, rfl⟩ := List.append_of_mem ha
        exact h (b :: front) a back rfl b (List.mem_cons_self ..)
      · exact h (b :: front) a back (by rw [heq]; rfl) d (List.mem_cons_of_mem _ hd)

namespace ActionGraph

variable {g : ActionGraph}

/-! ## Well-formed graphs -/

/-- The ids of nodes are distinct, edges join nodes, and no node leads back to itself. -/
structure WellFormed (g : ActionGraph) : Prop where
  nodeIds : g.nodeIds.Nodup
  edges : ∀ e ∈ g.edges, e.source ∈ g.nodeIds ∧ e.target ∈ g.nodeIds
  acyclic : ∀ v, ¬ Relation.TransGen (fun u w => ⟨u, w⟩ ∈ g.edges) v v

theorem leads_iff_edge (h : ∀ e ∈ g.edges, e.source ∈ g.nodeIds ∧ e.target ∈ g.nodeIds) :
    GraphOrder.Leads g.nodeIds g.edges = fun u w => ⟨u, w⟩ ∈ g.edges := by
  funext u w
  refine propext ⟨fun hleads => hleads.1, fun hedge => ⟨hedge, ?_⟩⟩
  exact h ⟨u, w⟩ hedge

/-! ## Orders of nodes -/

/-- Known edges lead from one node to another, in one step or more. -/
def Reaches (g : ActionGraph) (u v : String) : Prop :=
  Relation.TransGen (GraphOrder.Leads g.nodeIds g.edges) u v

/-- All nodes, each once, the source of every known edge before its target. -/
structure Orders (g : ActionGraph) (order : List Node) : Prop where
  perm : order.Perm g.nodes
  sourcesFirst : ∀ front node back, order = front ++ node :: back →
    ∀ u, GraphOrder.Leads g.nodeIds g.edges u node.id → u ∈ front.map Node.id

namespace Orders

variable {order front back : List Node} {node : Node}

theorem nodup (h : g.Orders order) (hids : g.nodeIds.Nodup) : (order.map Node.id).Nodup :=
  (h.perm.map Node.id).nodup_iff.2 hids

/-- The start of a path to a node stands further to the front. -/
theorem reachesFirst (h : g.Orders order) (heq : order = front ++ node :: back) {u : String}
    (hpath : g.Reaches u node.id) : u ∈ front.map Node.id := by
  generalize hid : node.id = v at hpath
  induction hpath generalizing front node back with
  | single hstep => exact h.sourcesFirst front node back heq u (hid ▸ hstep)
  | tail _ hstep ih =>
    obtain ⟨middle, hmiddle, hname⟩ := List.mem_map.1 (h.sourcesFirst front node back heq _ (hid ▸ hstep))
    obtain ⟨fore, aft, rfl⟩ := List.append_of_mem hmiddle
    rw [List.append_assoc, List.cons_append] at heq
    have hfore := ih heq hname
    rw [List.map_append]
    exact List.mem_append_left _ hfore

/-- No path leads back in an order. -/
theorem not_reaches (h : g.Orders order) (hids : g.nodeIds.Nodup)
    (heq : order = front ++ node :: back) : ∀ other ∈ front ++ [node], ¬ g.Reaches node.id other.id := by
  intro other hother hpath
  have hnodup := h.nodup hids
  rw [heq, List.map_append, List.map_cons, List.nodup_append] at hnodup
  -- Otherwise the node would stand before itself.
  have hnode : node.id ∈ front.map Node.id := by
    rcases List.mem_append.1 hother with hfront | hlast
    · obtain ⟨fore, aft, rfl⟩ := List.append_of_mem hfront
      rw [List.append_assoc, List.cons_append] at heq
      rw [List.map_append]
      exact List.mem_append_left _ (h.reachesFirst heq hpath)
    · rw [List.mem_singleton.1 hlast] at hpath
      exact h.reachesFirst heq hpath
  exact hnodup.2.2 _ hnode _ (List.mem_cons_self ..) rfl

/-- The nodes of a kind that are joined by paths two by two stand in every order alike. -/
theorem filter_eq {other : List Node} (h : g.Orders order) (hother : g.Orders other)
    (hids : g.nodeIds.Nodup) {kind : Node → Bool}
    (hpaths : ∀ a ∈ g.nodes, ∀ b ∈ g.nodes, kind a = true → kind b = true → a ≠ b →
      g.Reaches a.id b.id ∨ g.Reaches b.id a.id) :
    order.filter kind = other.filter kind := by
  have hpairwise : ∀ {nodes : List Node}, g.Orders nodes →
      (nodes.filter kind).Pairwise fun a b => g.Reaches a.id b.id := by
    intro nodes hnodes
    rw [List.pairwise_filter, pairwise_iff_earlier]
    intro front b back heq a ha hkind hlast
    have hmem : ∀ c ∈ front ++ [b], c ∈ g.nodes := by
      intro c hc
      refine hnodes.perm.subset ?_
      rw [heq, ← List.singleton_append, ← List.append_assoc]
      exact List.mem_append_left _ hc
    have hback : ¬ g.Reaches b.id a.id := hnodes.not_reaches hids heq a (List.mem_append_left _ ha)
    have hne : a ≠ b := by
      rintro rfl
      have hnodup := (hnodes.nodup hids).of_map
      rw [heq, List.nodup_append] at hnodup
      exact hnodup.2.2 a ha a (List.mem_cons_self ..) rfl
    exact (hpaths a (hmem a (List.mem_append_left _ ha)) b (hmem b (by simp)) hkind hlast hne).resolve_right
      hback
  refine List.Perm.eq_of_pairwise (fun a b ha hb hab hba => ?_) (hpairwise h) (hpairwise hother)
    ((h.perm.trans hother.perm.symm).filter kind)
  -- Two nodes that reach each other would be one before the other, both ways.
  obtain ⟨front, back, heq⟩ := List.append_of_mem (List.mem_filter.1 ha).1
  exact absurd (hab.trans hba) (h.not_reaches hids heq a (by simp))

end Orders

end ActionGraph

end FormFlow
