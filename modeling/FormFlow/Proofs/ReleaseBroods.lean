import FormFlow.Proofs.ReleaseOrder
import Mathlib.Data.List.Dedup
import Mathlib.Data.Prod.Lex

/-!
# Who releases whom

The queue of `GraphOrder.drain` gives out nodes in the order in which they came in.  So the order of a graph
begins with the nodes without sources, and goes on with what each node released, node by node: `broods`.  A
node is released by the last of its sources to be taken, together with the other nodes that this source
releases, and among these in the order of the last edges to them.

## Principal results

* `releaseAll_eq` — a node is released at the last of its edges;
* `order_broods` — the order is the nodes without sources, followed by what each node of it released;
* `order_precedes` — of two nodes in a row, why the first stands before the second.
-/

namespace FormFlow

/-! ## Last occurrences -/

section

variable {α : Type} [DecidableEq α]

/-- The index of the last occurrence of an element; zero if there is none. -/
def lastIndexOf (a : α) : List α → Nat
  | [] => 0
  | _ :: as => if a ∈ as then lastIndexOf a as + 1 else 0

theorem lastIndexOf_cons_of_mem {a b : α} {as : List α} (h : a ∈ as) :
    lastIndexOf a (b :: as) = lastIndexOf a as + 1 := by
  rw [lastIndexOf, if_pos h]

theorem lastIndexOf_cons_of_not_mem {a b : α} {as : List α} (h : a ∉ as) :
    lastIndexOf a (b :: as) = 0 := by
  rw [lastIndexOf, if_neg h]

/-- An element stands at the index of its last occurrence, and nowhere behind it. -/
theorem getElem?_lastIndexOf {a : α} {as : List α} (h : a ∈ as) :
    as[lastIndexOf a as]? = some a ∧ ∀ i, as[i]? = some a → i ≤ lastIndexOf a as := by
  induction as with
  | nil => cases h
  | cons b as ih =>
    by_cases hmem : a ∈ as
    · rw [lastIndexOf_cons_of_mem hmem]
      obtain ⟨hlast, hleast⟩ := ih hmem
      refine ⟨hlast, fun i hi => ?_⟩
      cases i with
      | zero => exact Nat.zero_le _
      | succ i => exact Nat.succ_le_succ (hleast i hi)
    · rw [lastIndexOf_cons_of_not_mem hmem]
      have hab : a = b := (List.mem_cons.1 h).resolve_right hmem
      refine ⟨by rw [hab]; rfl, fun i hi => ?_⟩
      cases i with
      | zero => exact Nat.le_refl _
      | succ i => exact absurd (List.mem_of_getElem? (by simpa using hi)) hmem

end

namespace GraphOrder

variable {nodeIds : List String} {edges known : List Edge} {front : List String} {u v : String}

/-! ## Broods -/

/-- **A node is released at the last of its edges**, if the list holds all that are left of them. -/
theorem releaseAll_eq {ids : List String} {incoming : String → Nat}
    (h : ∀ v, ids.count v ≤ incoming v) :
    (releaseAll ids incoming).2 = ids.dedup.filter fun v => incoming v = ids.count v := by
  induction ids generalizing incoming with
  | nil => rfl
  | cons id ids ih =>
    have hself := h id
    rw [List.count_cons_self] at hself
    simp only [releaseAll]
    rw [ih (counts_tail h)]
    -- Where the edges of a node are counted, the first one has been taken off both sides.
    have hsame : ∀ v ∈ ids, ((if v = id then incoming id - 1 else incoming v) = ids.count v ↔
        incoming v = (id :: ids).count v) := by
      intro v _
      by_cases hv : v = id
      · subst hv
        rw [if_pos rfl, List.count_cons_self]
        omega
      · rw [if_neg hv, List.count_cons_of_ne (Ne.symm hv)]
    have hfilter : ids.dedup.filter (fun v => decide ((if v = id then incoming id - 1 else incoming v) =
        ids.count v)) = ids.dedup.filter fun v => decide (incoming v = (id :: ids).count v) :=
      List.filter_congr fun v hv => by simp only [hsame v (List.mem_dedup.1 hv)]
    rw [hfilter]
    by_cases hid : id ∈ ids
    · have hpos := List.count_pos_iff.2 hid
      rw [if_neg (by omega), List.dedup_cons_of_mem hid]
    · have hcount := List.count_eq_zero_of_not_mem hid
      rw [List.dedup_cons_of_notMem hid, List.filter_cons, List.count_cons_self, hcount]
      by_cases hone : incoming id = 1
      · simp [hone]
      · rw [if_neg (by omega), if_neg (by simpa using hone)]

/-- The nodes that are released when a node is taken behind others. -/
def brood (known : List Edge) (front : List String) (id : String) : List String :=
  (releaseAll (targets known id) (indegree (remaining known front))).2

/-- What each of some nodes releases when they are taken in order behind others. -/
def broods (known : List Edge) : List String → List String → List String
  | _, [] => []
  | front, id :: ids => brood known front id ++ broods known (front ++ [id]) ids

theorem broods_concat (known : List Edge) (front ids : List String) (id : String) :
    broods known front (ids ++ [id]) = broods known front ids ++ brood known (front ++ ids) id := by
  induction ids generalizing front with
  | nil => simp [broods]
  | cons other ids ih => simp [broods, ih]

theorem count_targets_le (h : u ∉ front) (v : String) :
    (targets known u).count v ≤ indegree (remaining known front) v := by
  rw [indegree_remaining_append h]
  omega

theorem mem_targets : v ∈ targets known u ↔ ⟨u, v⟩ ∈ known := by
  simp only [targets, List.mem_map, List.mem_filter, beq_iff_eq]
  constructor
  · rintro ⟨e, ⟨he, rfl⟩, rfl⟩
    exact he
  · intro h
    exact ⟨_, ⟨h, rfl⟩, rfl⟩

/-- A node is released by a source when no other source is left. -/
theorem mem_brood_iff (h : u ∉ front) :
    v ∈ brood known front u ↔
      ⟨u, v⟩ ∈ known ∧ ∀ e ∈ known, e.target = v → e.source ∈ front ++ [u] := by
  rw [brood, mem_releaseAll (count_targets_le h), mem_targets, indegree_remaining_append h]
  have hleft : indegree (remaining known (front ++ [u])) v + (targets known u).count v =
      (targets known u).count v ↔ indegree (remaining known (front ++ [u])) v = 0 := by omega
  rw [hleft, indegree_eq_zero_iff]
  refine and_congr_right fun _ => ⟨fun hnone e he ht => ?_, fun hall e he ht => ?_⟩
  · by_contra hs
    exact hnone e (mem_remaining.2 ⟨he, hs⟩) ht
  · obtain ⟨hknown, hs⟩ := mem_remaining.1 he
    exact hs (hall e hknown ht)

theorem mem_broods_iff {ids : List String} :
    v ∈ broods known front ids ↔ ∃ fore u aft, ids = fore ++ u :: aft ∧ v ∈ brood known (front ++ fore) u := by
  induction ids generalizing front with
  | nil => simp [broods]
  | cons id ids ih =>
    rw [broods, List.mem_append, ih]
    constructor
    · rintro (h | ⟨fore, u, aft, rfl, h⟩)
      · exact ⟨[], id, ids, rfl, by simpa using h⟩
      · exact ⟨id :: fore, u, aft, rfl, by simpa using h⟩
    · rintro ⟨fore, u, aft, heq, h⟩
      cases fore with
      | nil =>
        cases heq
        exact .inl (by simpa using h)
      | cons other fore =>
        cases heq
        exact .inr ⟨fore, u, aft, rfl, by simpa using h⟩

/-- **What has come into the queue**, over a whole run: the nodes that waited at first, and what each node
taken released. -/
theorem drain_broods {ids start : List String} (hknown : ∀ e ∈ known, e.target ∈ ids) (fuel : Nat)
    {taken queue : List String} {incoming : String → Nat} (inv : Draining ids known taken queue incoming)
    (hfuel : taken.length + fuel = ids.length) (hbred : taken ++ queue = start ++ broods known [] taken) :
    taken ++ drain known fuel queue incoming =
      start ++ broods known [] (taken ++ drain known fuel queue incoming) := by
  induction fuel generalizing taken queue incoming with
  | zero =>
    have hle := (inv.nodup.subperm inv.declared).length_le
    rw [List.length_append] at hle
    have hempty : queue = [] := List.eq_nil_of_length_eq_zero (by omega)
    subst hempty
    simpa [drain] using hbred
  | succ fuel ih =>
    cases queue with
    | nil => simpa [drain] using hbred
    | cons id queue =>
      have hincoming : incoming = indegree (remaining known taken) := funext inv.counts
      have hnext := ih (inv.step hknown) (by simp; omega) <| by
        rw [broods_concat, List.nil_append, brood, ← hincoming, ← List.append_assoc start, ← hbred]
        simp
      simpa [drain, List.append_assoc] using hnext

/-- The nodes without sources, in the order of their declaration. -/
def roots (nodeIds : List String) (edges : List Edge) : List String :=
  (distinct nodeIds).filter fun id => indegree (edges.filter (isKnown (distinct nodeIds))) id == 0

/-- **The order is the nodes without sources, followed by what each node of it released.** -/
theorem order_broods (nodeIds : List String) (edges : List Edge) :
    (compute nodeIds edges).order =
      roots nodeIds edges ++
        broods (edges.filter (isKnown (distinct nodeIds))) [] (compute nodeIds edges).order := by
  have hstart : [] ++ roots nodeIds edges =
      roots nodeIds edges ++ broods (edges.filter (isKnown (distinct nodeIds))) [] [] := by
    simp [broods]
  have := drain_broods (target_declared nodeIds edges) (distinct nodeIds).length
    (Draining.start nodeIds _) (by simp) hstart
  simpa only [compute, List.nil_append] using this

/-! ## Why one node stands before another -/

/-- The source of a node that an order puts last. -/
structure LatestSource (nodeIds : List String) (edges : List Edge) (order : List String) (s v : String) :
    Prop where
  leads : Leads nodeIds edges s v
  latest : ∀ t, Leads nodeIds edges t v → order.idxOf t ≤ order.idxOf s

/-- No known edge leads to a node. -/
def Root (nodeIds : List String) (edges : List Edge) (v : String) : Prop :=
  ∀ u, ¬ Leads nodeIds edges u v

/-- When a source releases a node: the place of the source in the order, and then the last edge between the
two. -/
def releaseKey (edges : List Edge) (order : List String) (s v : String) : ℕ ×ₗ ℕ :=
  toLex (order.idxOf s, lastIndexOf ⟨s, v⟩ edges)

/-- Why a node stands before another one. -/
inductive Precedes (nodeIds : List String) (edges : List Edge) (order : List String) (v w : String) : Prop
  | declared (hv : Root nodeIds edges v) (hw : Root nodeIds edges w)
      (earlier : nodeIds.idxOf v < nodeIds.idxOf w) : Precedes nodeIds edges order v w
  | root {t : String} (hv : Root nodeIds edges v) (hw : LatestSource nodeIds edges order t w) :
      Precedes nodeIds edges order v w
  | released {s t : String} (hv : LatestSource nodeIds edges order s v)
      (hw : LatestSource nodeIds edges order t w)
      (earlier : releaseKey edges order s v < releaseKey edges order t w) :
      Precedes nodeIds edges order v w

theorem pairwise_distinct (ids : List String) :
    (distinct ids).Pairwise fun v w => ids.idxOf v < ids.idxOf w := by
  induction ids with
  | nil => exact .nil
  | cons id ids ih =>
    rw [distinct]
    refine List.pairwise_cons.2 ⟨fun w hw => ?_, ?_⟩
    · have hne : w ≠ id := by simpa using (List.mem_filter.1 hw).2
      rw [List.idxOf_cons_self, List.idxOf_cons_ne _ hne.symm]
      exact Nat.succ_pos _
    · refine (ih.sublist List.filter_sublist).imp_of_mem fun {v w} hv hw hlt => ?_
      have hv : v ≠ id := by simpa using (List.mem_filter.1 hv).2
      have hw : w ≠ id := by simpa using (List.mem_filter.1 hw).2
      rw [List.idxOf_cons_ne _ hv.symm, List.idxOf_cons_ne _ hw.symm]
      exact Nat.succ_lt_succ hlt

theorem mem_roots_iff : v ∈ roots nodeIds edges ↔ v ∈ nodeIds ∧ Root nodeIds edges v := by
  rw [roots, List.mem_filter, mem_distinct, beq_iff_eq, indegree_eq_zero_iff]
  refine and_congr_right fun _ => ⟨fun hnone u hleads => ?_, fun hroot e he ht => ?_⟩
  · exact hnone _ (leads_iff_known.1 hleads) rfl
  · exact hroot e.source (leads_iff_known.2 (by rwa [← ht]))

/-- Among the targets of a node, each at the last of its edges, the last edges stand in order. -/
theorem pairwise_dedup_targets (p : Edge → Bool) (u : String) (edges : List Edge) :
    (targets (edges.filter p) u).dedup.Pairwise fun v w =>
      lastIndexOf ⟨u, v⟩ edges < lastIndexOf ⟨u, w⟩ edges := by
  have hedge : ∀ {edges : List Edge} {v : String}, v ∈ (targets (edges.filter p) u).dedup →
      ⟨u, v⟩ ∈ edges := fun hv => (List.mem_filter.1 (mem_targets.1 (List.mem_dedup.1 hv))).1
  induction edges with
  | nil => exact .nil
  | cons e edges ih =>
    have hshift : (targets (edges.filter p) u).dedup.Pairwise fun v w =>
        lastIndexOf ⟨u, v⟩ (e :: edges) < lastIndexOf ⟨u, w⟩ (e :: edges) := by
      refine ih.imp_of_mem fun hv hw hlt => ?_
      rw [lastIndexOf_cons_of_mem (hedge hv), lastIndexOf_cons_of_mem (hedge hw)]
      exact Nat.succ_lt_succ hlt
    by_cases hsource : p e = true ∧ e.source = u
    · obtain ⟨hp, rfl⟩ := hsource
      have htargets : targets ((e :: edges).filter p) e.source =
          e.target :: targets (edges.filter p) e.source := by simp [targets, hp]
      rw [htargets]
      by_cases hmem : e.target ∈ targets (edges.filter p) e.source
      · rwa [List.dedup_cons_of_mem hmem]
      · rw [List.dedup_cons_of_notMem hmem]
        have hlast : e ∉ edges := fun he => hmem (mem_targets.2 (List.mem_filter.2 ⟨he, hp⟩))
        refine List.pairwise_cons.2 ⟨fun w hw => ?_, hshift⟩
        rw [lastIndexOf_cons_of_not_mem hlast, lastIndexOf_cons_of_mem (hedge hw)]
        exact Nat.succ_pos _
    · have htargets : targets ((e :: edges).filter p) u = targets (edges.filter p) u := by
        by_cases hp : p e = true
        · have hne : e.source ≠ u := fun h => hsource ⟨hp, h⟩
          simp [targets, hp, hne]
        · simp [hp]
      rwa [htargets]

section

variable {order back : List String}

theorem not_mem_front (hnodup : order.Nodup) (heq : order = front ++ u :: back) : u ∉ front := by
  subst heq
  exact fun hmem => (List.nodup_append.1 hnodup).2.2 u hmem u (List.mem_cons_self ..) rfl

theorem idxOf_middle (hnodup : order.Nodup) (heq : order = front ++ u :: back) :
    order.idxOf u = front.length := by
  have hu := not_mem_front hnodup heq
  rw [heq, List.idxOf_append_of_notMem hu, List.idxOf_cons_self, Nat.add_zero]

theorem idxOf_front_lt (heq : order = front ++ back) (hv : v ∈ front) : order.idxOf v < front.length := by
  subst heq
  rw [List.idxOf_append_of_mem hv]
  exact List.idxOf_lt_length_of_mem hv

/-- Who releases a node is the last of its sources. -/
theorem latestSource_of_mem_brood (hnodup : order.Nodup) (heq : order = front ++ u :: back)
    (hv : v ∈ brood (edges.filter (isKnown (distinct nodeIds))) front u) :
    LatestSource nodeIds edges order u v := by
  obtain ⟨hedge, hall⟩ := (mem_brood_iff (not_mem_front hnodup heq)).1 hv
  refine ⟨leads_iff_known.2 hedge, fun t ht => ?_⟩
  rcases List.mem_append.1 (hall _ (leads_iff_known.1 ht) rfl) with hfront | hlast
  · rw [idxOf_middle hnodup heq]
    exact Nat.le_of_lt (idxOf_front_lt heq hfront)
  · obtain rfl : t = u := List.mem_singleton.1 hlast
    exact Nat.le_refl _

/-- The nodes that a stretch of an order releases stand in the order of their release. -/
theorem pairwise_broods (hnodup : order.Nodup) (heq : order = front ++ back) :
    (broods (edges.filter (isKnown (distinct nodeIds))) front back).Pairwise
      (Precedes nodeIds edges order) := by
  induction back generalizing front with
  | nil => exact .nil
  | cons u back ih =>
    have hnext : order = (front ++ [u]) ++ back := by simpa using heq
    rw [broods, List.pairwise_append]
    refine ⟨?_, ih hnext, fun v hv w hw => ?_⟩
    · have hsource : ∀ v ∈ brood (edges.filter (isKnown (distinct nodeIds))) front u,
          LatestSource nodeIds edges order u v := fun v hv => latestSource_of_mem_brood hnodup heq hv
      have hedges : (brood (edges.filter (isKnown (distinct nodeIds))) front u).Pairwise fun v w =>
          lastIndexOf ⟨u, v⟩ edges < lastIndexOf ⟨u, w⟩ edges := by
        rw [brood, releaseAll_eq (count_targets_le (not_mem_front hnodup heq))]
        exact (pairwise_dedup_targets _ u edges).sublist List.filter_sublist
      refine hedges.imp_of_mem fun hv hw hlt => .released (hsource _ hv) (hsource _ hw) ?_
      exact Prod.Lex.toLex_lt_toLex.2 (.inr ⟨rfl, hlt⟩)
    · obtain ⟨fore, t, aft, rfl, hbrood⟩ := mem_broods_iff.1 hw
      have hlater : order = (front ++ [u] ++ fore) ++ t :: aft := by simpa using hnext
      refine .released (latestSource_of_mem_brood hnodup heq hv)
        (latestSource_of_mem_brood hnodup hlater hbrood) (Prod.Lex.toLex_lt_toLex.2 (.inl ?_))
      show order.idxOf u < order.idxOf t
      rw [idxOf_middle hnodup hlater]
      exact idxOf_front_lt hlater (by simp)

end

/-- **Of two nodes in a row, why the first stands before the second.** -/
theorem order_precedes (nodeIds : List String) (edges : List Edge) :
    (compute nodeIds edges).order.Pairwise (Precedes nodeIds edges (compute nodeIds edges).order) := by
  have hnodup := order_nodup nodeIds edges
  have heq := order_broods nodeIds edges
  generalize (compute nodeIds edges).order = order at hnodup heq
  suffices hall : (roots nodeIds edges ++ broods (edges.filter (isKnown (distinct nodeIds))) [] order).Pairwise
      (Precedes nodeIds edges order) by rwa [← heq] at hall
  refine List.pairwise_append.2 ⟨?_, pairwise_broods hnodup rfl, fun v hv w hw => ?_⟩
  · refine ((pairwise_distinct nodeIds).sublist List.filter_sublist).imp_of_mem fun hv hw hlt => ?_
    exact .declared (mem_roots_iff.1 hv).2 (mem_roots_iff.1 hw).2 hlt
  · obtain ⟨fore, t, aft, horder, hbrood⟩ := mem_broods_iff.1 hw
    exact .root (mem_roots_iff.1 hv).2 (latestSource_of_mem_brood hnodup horder hbrood)

theorem rel_of_idxOf_lt {R : String → String → Prop} {order : List String} (h : order.Pairwise R)
    (hw : v ∈ order) (hlt : order.idxOf u < order.idxOf v) : R u v := by
  have hu := mem_order_of_idxOf_lt hlt
  have hrel := List.pairwise_iff_getElem.1 h _ _ (List.idxOf_lt_length_of_mem hu)
    (List.idxOf_lt_length_of_mem hw) hlt
  rwa [List.getElem_idxOf, List.getElem_idxOf] at hrel

end GraphOrder

end FormFlow
