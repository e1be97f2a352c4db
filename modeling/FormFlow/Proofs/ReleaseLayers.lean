import FormFlow.Proofs.ReleaseBroods
import Mathlib.Data.Finset.Max
import Mathlib.Data.Nat.Find

/-!
# Layers of the release order

In a graph without cycles the depth of a node, which is the length of the longest path to it, decides first
where it stands in the release order; then the place of its last source does, and then the last edge from
there.  Nothing else decides: there is one order that follows these rules.

## Principal results

* `exists_depth`, `depth_le_of_idxOf_le` — each node has a depth, and no node stands before one of smaller
  depth;
* `Layered.unique` — at most one order follows the rules;
* `layered_iff_order` — the order of a graph without cycles is the one that does.
-/

namespace FormFlow.GraphOrder

variable {nodeIds : List String} {edges : List Edge} {u v : String}

/-! ## Depth -/

/-- Known edges in a row, and the node in which they end. -/
inductive PathTo (nodeIds : List String) (edges : List Edge) : Nat → String → Prop
  | start {v : String} (declared : v ∈ nodeIds) : PathTo nodeIds edges 0 v
  | step {n : Nat} {u v : String} (path : PathTo nodeIds edges n u) (leads : Leads nodeIds edges u v) :
      PathTo nodeIds edges (n + 1) v

/-- The length of the longest path to a node. -/
structure Depth (nodeIds : List String) (edges : List Edge) (v : String) (d : Nat) : Prop where
  path : PathTo nodeIds edges d v
  longest : ∀ n, PathTo nodeIds edges n v → n ≤ d

namespace Depth

variable {d e : Nat}

theorem unique (h : Depth nodeIds edges v d) (h' : Depth nodeIds edges v e) : d = e :=
  Nat.le_antisymm (h'.longest d h.path) (h.longest e h'.path)

theorem declared (h : Depth nodeIds edges v d) : v ∈ nodeIds := by
  cases h.path with
  | start declared => exact declared
  | step path leads => exact leads.2.2

/-- A source lies less deep. -/
theorem source_lt (h : Depth nodeIds edges v d) (hu : Depth nodeIds edges u e)
    (hleads : Leads nodeIds edges u v) : e < d :=
  h.longest _ (.step hu.path hleads)

theorem zero_iff : Depth nodeIds edges v 0 ↔ v ∈ nodeIds ∧ Root nodeIds edges v := by
  constructor
  · intro h
    refine ⟨h.declared, fun u hleads => ?_⟩
    exact absurd (h.longest 1 (.step (.start hleads.2.1) hleads)) (by omega)
  · rintro ⟨hv, hroot⟩
    refine ⟨.start hv, fun n path => ?_⟩
    cases path with
    | start declared => exact Nat.le_refl _
    | step path leads => exact absurd leads (hroot _)

/-- A node lies one step deeper than the deepest of its sources. -/
theorem succ (hu : Depth nodeIds edges u d) (hleads : Leads nodeIds edges u v)
    (hdeepest : ∀ t, Leads nodeIds edges t v → ∃ e, Depth nodeIds edges t e ∧ e ≤ d) :
    Depth nodeIds edges v (d + 1) := by
  refine ⟨.step hu.path hleads, fun n path => ?_⟩
  cases path with
  | start declared => exact Nat.zero_le _
  | step path leads =>
    obtain ⟨e, he, hle⟩ := hdeepest _ leads
    exact Nat.succ_le_succ (Nat.le_trans (he.longest _ path) hle)

end Depth

section

variable (hacyclic : ∀ v, ¬ Relation.TransGen (Leads nodeIds edges) v v)

include hacyclic

theorem mem_order_of_acyclic (hv : v ∈ nodeIds) : v ∈ (compute nodeIds edges).order :=
  mem_order_of_isAcyclic (isAcyclic_iff.2 hacyclic) hv

/-- Paths climb in the order, and so they are no longer than that. -/
theorem length_le_idxOf {n : Nat} (h : PathTo nodeIds edges n v) :
    n ≤ (compute nodeIds edges).order.idxOf v := by
  induction h with
  | start declared => exact Nat.zero_le _
  | step path leads ih =>
    have hlt := idxOf_lt_of_leads leads (mem_order_of_acyclic hacyclic leads.2.2)
    omega

/-- In a graph without cycles each node has a depth. -/
theorem exists_depth (hv : v ∈ nodeIds) : ∃ d, Depth nodeIds edges v d := by
  classical
  have hlongest := Nat.findGreatest_spec (P := fun n => PathTo nodeIds edges n v)
    (Nat.zero_le ((compute nodeIds edges).order.idxOf v)) (.start hv)
  refine ⟨_, hlongest, fun n path => ?_⟩
  exact Nat.le_findGreatest (length_le_idxOf hacyclic path) path

/-- **No node stands before one of smaller depth.** -/
theorem depth_le_of_idxOf_le {w : String} {d e : Nat} (hv : Depth nodeIds edges v d)
    (hw : Depth nodeIds edges w e)
    (h : (compute nodeIds edges).order.idxOf v ≤ (compute nodeIds edges).order.idxOf w) : d ≤ e := by
  generalize hn : (compute nodeIds edges).order.idxOf w = n at h
  -- The induction is on the place of the later node; the sources that release the two stand before it.
  induction n using Nat.strong_induction_on generalizing v w d e with
  | _ n ih =>
    have hmem : ∀ u ∈ nodeIds, u ∈ (compute nodeIds edges).order := fun u hu =>
      mem_order_of_acyclic hacyclic hu
    have hdepth : ∀ {s u : String}, LatestSource nodeIds edges (compute nodeIds edges).order s u →
        (compute nodeIds edges).order.idxOf s < n →
          ∃ a, Depth nodeIds edges s a ∧ Depth nodeIds edges u (a + 1) := by
      intro s u hs hlt
      obtain ⟨a, ha⟩ := exists_depth hacyclic hs.leads.2.1
      refine ⟨a, ha, ha.succ hs.leads fun t ht => ?_⟩
      obtain ⟨b, hb⟩ := exists_depth hacyclic ht.2.1
      exact ⟨b, hb, ih _ hlt hb ha rfl (hs.latest t ht)⟩
    rcases Nat.lt_or_eq_of_le h with hlt | heq
    · cases rel_of_idxOf_lt (order_precedes nodeIds edges) (hmem w hw.declared) (hn ▸ hlt) with
      | declared hroot _ _ | root hroot _ =>
        rw [hv.unique (Depth.zero_iff.2 ⟨hv.declared, hroot⟩)]
        exact Nat.zero_le _
      | @released s t hs ht earlier =>
        have hsv := idxOf_lt_of_leads hs.leads (hmem v hv.declared)
        have htw := idxOf_lt_of_leads ht.leads (hmem w hw.declared)
        obtain ⟨a, ha, hav⟩ := hdepth hs (by omega)
        obtain ⟨b, hb, hbw⟩ := hdepth ht (by omega)
        rw [hv.unique hav, hw.unique hbw]
        refine Nat.succ_le_succ (ih _ (by omega) ha hb rfl ?_)
        rcases Prod.Lex.toLex_lt_toLex.1 earlier with hlt | ⟨heq, _⟩
        · exact Nat.le_of_lt hlt
        · exact Nat.le_of_eq heq
    · have hsame : v = w := (List.idxOf_inj (hmem v hv.declared)).1 (heq.trans hn.symm)
      exact Nat.le_of_eq (hv.unique (hsame ▸ hw))

end

/-! ## One order -/

section

variable {order other : List String}

theorem exists_latestSource (order : List String) (h : Leads nodeIds edges u v) :
    ∃ s, LatestSource nodeIds edges order s v := by
  classical
  obtain ⟨s, hs, hlatest⟩ := Finset.exists_max_image
    (nodeIds.toFinset.filter fun t => Leads nodeIds edges t v) order.idxOf
    ⟨u, Finset.mem_filter.2 ⟨List.mem_toFinset.2 h.2.1, h⟩⟩
  refine ⟨s, (Finset.mem_filter.1 hs).2, fun t ht => ?_⟩
  exact hlatest t (Finset.mem_filter.2 ⟨List.mem_toFinset.2 ht.2.1, ht⟩)

theorem Depth.exists_latestSource {d : Nat} (h : Depth nodeIds edges v (d + 1)) (order : List String) :
    ∃ s, LatestSource nodeIds edges order s v := by
  cases h.path with
  | step path leads => exact GraphOrder.exists_latestSource order leads

/-- The rules of a release order: it holds every node once; nodes that lie deeper stand further back; the
nodes without sources stand in the order of their declaration; and of two nodes that lie equally deep below
them the one stands first whose last source stands first, or, if they share that source, whose last edge from
it comes first. -/
structure Layered (nodeIds : List String) (edges : List Edge) (order : List String) : Prop where
  nodup : order.Nodup
  mem_iff : ∀ v, v ∈ order ↔ v ∈ nodeIds
  layers : ∀ u v d e, Depth nodeIds edges u d → Depth nodeIds edges v e → d < e →
    order.idxOf u < order.idxOf v
  declared : ∀ u v, Depth nodeIds edges u 0 → Depth nodeIds edges v 0 →
    (order.idxOf u < order.idxOf v ↔ nodeIds.idxOf u < nodeIds.idxOf v)
  released : ∀ u v d s t, Depth nodeIds edges u (d + 1) → Depth nodeIds edges v (d + 1) →
    LatestSource nodeIds edges order s u → LatestSource nodeIds edges order t v →
      (order.idxOf u < order.idxOf v ↔ releaseKey edges order s u < releaseKey edges order t v)

namespace Layered

variable (hdepth : ∀ v ∈ nodeIds, ∃ d, Depth nodeIds edges v d)

include hdepth

/-- The last source of a node lies one step less deep. -/
theorem depth_latestSource (h : Layered nodeIds edges order) {s : String} {d : Nat}
    (hv : Depth nodeIds edges v (d + 1)) (hs : LatestSource nodeIds edges order s v) :
    Depth nodeIds edges s d := by
  obtain ⟨a, ha⟩ := hdepth s hs.leads.2.1
  have hle := hv.source_lt ha hs.leads
  cases hv.path with
  | @step n u _ path leads =>
    obtain ⟨b, hb⟩ := hdepth u leads.2.1
    have hdb : d ≤ b := hb.longest d path
    have hnot : ¬ a < b := fun hlt =>
      absurd (h.layers s u a b ha hb hlt) (Nat.not_lt.2 (hs.latest u leads))
    obtain rfl : a = d := by omega
    exact ha

/-- Two orders that follow the rules agree on nodes that lie equally deep. -/
theorem idxOf_lt_iff (h : Layered nodeIds edges order) (h' : Layered nodeIds edges other) (d : Nat) :
    ∀ u v, Depth nodeIds edges u d → Depth nodeIds edges v d →
      (order.idxOf u < order.idxOf v ↔ other.idxOf u < other.idxOf v) := by
  induction d with
  | zero => exact fun u v hu hv => (h.declared u v hu hv).trans (h'.declared u v hu hv).symm
  | succ d ih =>
    -- The last source of a node is the same in both orders.
    have hsource : ∀ {s v}, Depth nodeIds edges v (d + 1) → LatestSource nodeIds edges order s v →
        LatestSource nodeIds edges other s v := by
      intro s v hv hs
      have hsd := h.depth_latestSource hdepth hv hs
      refine ⟨hs.leads, fun t ht => ?_⟩
      obtain ⟨e, he⟩ := hdepth t ht.2.1
      rcases Nat.lt_or_eq_of_le (Nat.lt_succ_iff.1 (hv.source_lt he ht)) with hlt | rfl
      · exact Nat.le_of_lt (h'.layers t s e d he hsd hlt)
      · exact Nat.not_lt.1 fun hlt => absurd ((ih s t hsd he).2 hlt) (Nat.not_lt.2 (hs.latest t ht))
    intro u v hu hv
    obtain ⟨s, hs⟩ := hu.exists_latestSource order
    obtain ⟨t, ht⟩ := hv.exists_latestSource order
    have hplaces : order.idxOf s = order.idxOf t ↔ other.idxOf s = other.idxOf t := by
      rw [List.idxOf_inj ((h.mem_iff s).2 hs.leads.2.1), List.idxOf_inj ((h'.mem_iff s).2 hs.leads.2.1)]
    have hearlier := ih s t (h.depth_latestSource hdepth hu hs) (h.depth_latestSource hdepth hv ht)
    rw [h.released u v d s t hu hv hs ht, h'.released u v d s t hu hv (hsource hu hs) (hsource hv ht)]
    simp only [releaseKey, Prod.Lex.toLex_lt_toLex, hearlier, hplaces]

/-- **At most one order follows the rules.** -/
theorem unique (h : Layered nodeIds edges order) (h' : Layered nodeIds edges other) : order = other := by
  have hperm : order.Perm other := (List.perm_ext_iff_of_nodup h.nodup h'.nodup).2 fun v =>
    (h.mem_iff v).trans (h'.mem_iff v).symm
  have hplaces : ∀ {l : List String}, l.Nodup → l.Pairwise fun u v => l.idxOf u < l.idxOf v := by
    intro l hnodup
    refine List.pairwise_iff_getElem.2 fun i j hi hj hlt => ?_
    rwa [hnodup.idxOf_getElem i hi, hnodup.idxOf_getElem j hj]
  have hother : other.Pairwise fun u v => order.idxOf u < order.idxOf v := by
    refine (hplaces h'.nodup).imp_of_mem fun {u v} hu hv hlt => ?_
    obtain ⟨d, hd⟩ := hdepth u ((h'.mem_iff u).1 hu)
    obtain ⟨e, he⟩ := hdepth v ((h'.mem_iff v).1 hv)
    rcases Nat.lt_trichotomy d e with hde | rfl | hed
    · exact h.layers u v d e hd he hde
    · exact (idxOf_lt_iff hdepth h h' d u v hd he).2 hlt
    · exact absurd (h'.layers v u e d he hd hed) (Nat.lt_asymm hlt)
  refine hperm.eq_of_pairwise (fun u v _ _ huv hvu => ?_) (hplaces h.nodup) hother
  exact absurd hvu (Nat.lt_asymm huv)

end Layered

theorem LatestSource.place_eq {s t : String} (h : LatestSource nodeIds edges order s v)
    (h' : LatestSource nodeIds edges order t v) : order.idxOf s = order.idxOf t :=
  Nat.le_antisymm (h'.latest s h.leads) (h.latest t h'.leads)

end

section

variable (hacyclic : ∀ v, ¬ Relation.TransGen (Leads nodeIds edges) v v)

include hacyclic

/-- The last source of a node is one node. -/
theorem LatestSource.eq {s t : String}
    (h : LatestSource nodeIds edges (compute nodeIds edges).order s v)
    (h' : LatestSource nodeIds edges (compute nodeIds edges).order t v) : s = t :=
  (List.idxOf_inj (mem_order_of_acyclic hacyclic h.leads.2.1)).1 (h.place_eq h')

/-- Places compare as some keys do, if they do so in one direction and a place has one key. -/
theorem idxOf_lt_iff_of_keys {κ : Type} [LinearOrder κ] {x y : κ} (hu : u ∈ nodeIds) (hsame : u = v → x = y)
    (huv : (compute nodeIds edges).order.idxOf u < (compute nodeIds edges).order.idxOf v → x < y)
    (hvu : (compute nodeIds edges).order.idxOf v < (compute nodeIds edges).order.idxOf u → y < x) :
    (compute nodeIds edges).order.idxOf u < (compute nodeIds edges).order.idxOf v ↔ x < y := by
  refine ⟨huv, fun hlt => ?_⟩
  rcases Nat.lt_trichotomy ((compute nodeIds edges).order.idxOf u)
    ((compute nodeIds edges).order.idxOf v) with hplace | hplace | hplace
  · exact hplace
  · have hxy := hsame ((List.idxOf_inj (mem_order_of_acyclic hacyclic hu)).1 hplace)
    exact absurd hlt (hxy ▸ lt_irrefl _)
  · exact absurd (hvu hplace) (lt_asymm hlt)

theorem idxOf_lt_iff_of_roots (hu : Depth nodeIds edges u 0) (hv : Depth nodeIds edges v 0) :
    (compute nodeIds edges).order.idxOf u < (compute nodeIds edges).order.idxOf v ↔
      nodeIds.idxOf u < nodeIds.idxOf v := by
  have hdeclared : ∀ {u v}, Depth nodeIds edges u 0 → Depth nodeIds edges v 0 →
      (compute nodeIds edges).order.idxOf u < (compute nodeIds edges).order.idxOf v →
        nodeIds.idxOf u < nodeIds.idxOf v := by
    intro u v hu hv hlt
    cases rel_of_idxOf_lt (order_precedes nodeIds edges) (mem_order_of_acyclic hacyclic hv.declared) hlt with
    | declared _ _ earlier => exact earlier
    | root _ hw => exact absurd hw.leads ((Depth.zero_iff.1 hv).2 _)
    | released hs _ _ => exact absurd hs.leads ((Depth.zero_iff.1 hu).2 _)
  exact idxOf_lt_iff_of_keys hacyclic hu.declared (fun heq => heq ▸ rfl) (hdeclared hu hv) (hdeclared hv hu)

theorem idxOf_lt_iff_of_released {s t : String}
    (hs : LatestSource nodeIds edges (compute nodeIds edges).order s u)
    (ht : LatestSource nodeIds edges (compute nodeIds edges).order t v) :
    (compute nodeIds edges).order.idxOf u < (compute nodeIds edges).order.idxOf v ↔
      releaseKey edges (compute nodeIds edges).order s u <
        releaseKey edges (compute nodeIds edges).order t v := by
  have hreleased : ∀ {u v s t}, LatestSource nodeIds edges (compute nodeIds edges).order s u →
      LatestSource nodeIds edges (compute nodeIds edges).order t v →
        (compute nodeIds edges).order.idxOf u < (compute nodeIds edges).order.idxOf v →
          releaseKey edges (compute nodeIds edges).order s u <
            releaseKey edges (compute nodeIds edges).order t v := by
    intro u v s t hs ht hlt
    have hv := mem_order_of_acyclic hacyclic ht.leads.2.2
    cases rel_of_idxOf_lt (order_precedes nodeIds edges) hv hlt with
    | declared hroot _ _ | root hroot _ => exact absurd hs.leads (hroot _)
    | released hs' ht' earlier => rwa [hs.eq hacyclic hs', ht.eq hacyclic ht']
  refine idxOf_lt_iff_of_keys hacyclic hs.leads.2.2 (fun heq => ?_) (hreleased hs ht) (hreleased ht hs)
  subst heq
  rw [hs.eq hacyclic ht]

/-- **The order of a graph without cycles follows the rules.** -/
theorem layered_order : Layered nodeIds edges (compute nodeIds edges).order where
  nodup := order_nodup nodeIds edges
  mem_iff v := ⟨order_declared, mem_order_of_acyclic hacyclic⟩
  layers u v d e hu hv hlt := by
    by_contra hplace
    exact absurd hlt (Nat.not_lt.2 (depth_le_of_idxOf_le hacyclic hv hu (Nat.not_lt.1 hplace)))
  declared _ _ hu hv := idxOf_lt_iff_of_roots hacyclic hu hv
  released _ _ _ _ _ _ _ hs ht := idxOf_lt_iff_of_released hacyclic hs ht

/-- **The order of a graph without cycles is the one that follows the rules**, and the rules speak about each of
its nodes: each has a depth, and below the nodes without sources each has a last source. -/
theorem layered_iff_order :
    (∀ v ∈ nodeIds, ∃ d, Depth nodeIds edges v d) ∧
    (∀ order v d, Depth nodeIds edges v (d + 1) → ∃ s, LatestSource nodeIds edges order s v) ∧
    ∀ order, Layered nodeIds edges order ↔ order = (compute nodeIds edges).order := by
  refine ⟨fun v hv => exists_depth hacyclic hv, fun order v d hv => hv.exists_latestSource order,
    fun order => ⟨fun h => ?_, ?_⟩⟩
  · exact h.unique (fun v hv => exists_depth hacyclic hv) (layered_order hacyclic)
  · rintro rfl
    exact layered_order hacyclic

end

/-- The second edge from a to c makes d come first, although c is declared before it and its first edge is the
first of all. -/
theorem layered_iff_order_parallel :
    Layered ["b", "a", "c", "d", "a"] [⟨"a", "c"⟩, ⟨"a", "d"⟩, ⟨"x", "d"⟩, ⟨"a", "c"⟩]
      ["b", "a", "d", "c"] :=
  ((layered_iff_order (isAcyclic_iff.1 (by decide +kernel))).2.2 _).2 (by decide +kernel)

end FormFlow.GraphOrder
