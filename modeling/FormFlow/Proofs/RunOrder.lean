import FormFlow.Proofs.RunFaults

/-!
# The order, the requests and the end of a run

An event without a cycle runs along an order of its nodes.  `RunsAlong` says what such a run comes to:
which nodes ask their providers, what is logged when all nodes pass, and where the fault lies when one
does not.  A node behind the one that fails has asked nothing, so a check of the state holds back every
request behind it.

## Principal results

* `runsAlong_of_passes`, `runsAlong_of_stops` — the two ends of a run;
* `runEvent_runsAlong` — every run of an event without a cycle.
-/

namespace FormFlow

/-- What a run along an order of nodes comes to.  The requests are those of the nodes that asked. -/
structure RunsAlong (s : Setting) (g : ActionGraph) (earlier : List Request) (order asked : List Node)
    (run : Asked RunResult) : Prop where
  /-- The prompts that asked are the first of the order. -/
  asksInOrder : asked <+: order.filter Node.isPrompt
  /-- Each of them made one request. -/
  requests : ∃ made, run.requests = earlier ++ made ∧ asked.map (Node.request? s) = made.map some
  /-- A run that succeeds has asked for every prompt and logged every node. -/
  passes : ∀ r, run.result = .ok r →
    asked = order.filter Node.isPrompt ∧ r.logs = order.map (Node.logEntry s.eventId)
  /-- A run that fails has passed the nodes before the one where the fault lies, and nothing behind that
  node has asked. -/
  stops : ∀ f, run.result = .error f → ∃ front node back p fault,
    order = front ++ node :: back ∧ Passes s front earlier .start p ∧
      (runNode s node p (earlier ++ front.filterMap (Node.request? s))).result = .error fault ∧
      f = fault.withContext (some s.eventId) (some node.id) ∧
      (∀ c, f = .event c → c.eventId = some s.eventId ∧ c.nodeId = some node.id) ∧
      ∀ other ∈ asked, ¬ g.Reaches node.id other.id
  /-- Where a listed key holds nothing the run fails, and only nodes before the check have asked. -/
  gates : ∀ id keys, .validate id keys ∈ order →
    (∃ key ∈ keys, s.state.get? key = none ∨ s.state.get? key = some .null ∨
      s.state.get? key = some (.str "")) →
    (∀ r, run.result ≠ .ok r) ∧
      ∀ front back, order = front ++ .validate id keys :: back → ∀ other ∈ asked, other ∈ front

theorem Setting.isVacant_iff {s : Setting} {key : String} :
    s.isVacant key = true ↔
      s.state.get? key = none ∨ s.state.get? key = some .null ∨ s.state.get? key = some (.str "") := by
  unfold isVacant valueOf
  cases s.state.get? key <;> simp

section

variable {s : Setting} {g : ActionGraph} {earlier : List Request} {order front back : List Node}
  {node : Node} {p : Progress} {f : Failure}

/-- A check that passes has found something under each of its keys. -/
theorem Passes.held {nodes : List Node} {q : Progress} (h : Passes s nodes earlier p q) {id : String}
    {keys : List String} (hnode : .validate id keys ∈ nodes) : ∀ key ∈ keys, s.isVacant key = false := by
  obtain ⟨before, p', q', step⟩ := h.step_of_mem hnode
  cases step with
  | validate held => exact held

theorem map_request?_filter (s : Setting) (nodes : List Node) :
    (nodes.filter fun node => (node.request? s).isSome).map (Node.request? s) =
      (nodes.filterMap (Node.request? s)).map some := by
  induction nodes with
  | nil => rfl
  | cons node nodes ih => cases h : node.request? s <;> simp [h, ih]

/-- What stands up to a place before an element also stands before it. -/
theorem mem_front_of_split {α : Type} {front back fore aft : List α} {here there other : α}
    (heq : front ++ here :: back = fore ++ there :: aft) (hthere : there ∉ front)
    (hother : other ∈ front ++ [here]) (hne : other ≠ there) : other ∈ fore := by
  induction front generalizing fore with
  | nil =>
    cases fore with
    | nil =>
      cases heq
      exact absurd (List.mem_singleton.1 hother) hne
    | cons first fore =>
      cases heq
      rw [List.mem_singleton.1 hother]
      exact List.mem_cons_self ..
  | cons first front ih =>
    cases fore with
    | nil =>
      cases heq
      exact absurd (List.mem_cons_self ..) hthere
    | cons second fore =>
      obtain ⟨rfl, htail⟩ := List.cons.inj heq
      rcases List.mem_cons.1 hother with rfl | hother
      · exact List.mem_cons_self ..
      · have hfront := fun h => hthere (List.mem_cons_of_mem _ h)
        exact List.mem_cons_of_mem _ (ih htail hfront hother)

theorem runsAlong_of_passes (h : Passes s order earlier .start p) :
    RunsAlong s g earlier order (order.filter Node.isPrompt)
      { requests := earlier ++ order.filterMap (Node.request? s), result := .ok ⟨p.patch, p.logs⟩ } where
  asksInOrder := List.prefix_rfl
  requests := by
    refine ⟨order.filterMap (Node.request? s), rfl, ?_⟩
    rw [h.filter_isPrompt, map_request?_filter]
  passes r hr := by
    cases hr
    exact ⟨rfl, by rw [h.logs]; rfl⟩
  stops f hf := by cases hf
  gates id keys hnode hvacant := by
    obtain ⟨key, hkey, hvacant⟩ := hvacant
    rw [← Setting.isVacant_iff, h.held hnode key hkey] at hvacant
    cases hvacant

/-- The nodes that asked when a run stops are prompts before the node that failed, or that node. -/
theorem runsAlong_of_stops (horder : g.Orders order) (hids : g.nodeIds.Nodup)
    (heq : order = front ++ node :: back) (h : Passes s front earlier .start p)
    (hfault : (runNode s node p (earlier ++ front.filterMap (Node.request? s))).result = .error f) :
    RunsAlong s g earlier order ((front ++ [node]).filter fun node => (node.request? s).isSome)
      { requests := earlier ++ (front ++ [node]).filterMap (Node.request? s)
        result := .error (f.withContext (some s.eventId) (some node.id)) } where
  asksInOrder := by
    have hlast : ([node].filter fun node => (node.request? s).isSome) <+:
        (node :: back).filter Node.isPrompt := by
      cases hrequest : (node.request? s).isSome with
      | false => simp [hrequest]
      | true =>
        have hprompt := Node.isPrompt_of_request? hrequest
        exact ⟨back.filter Node.isPrompt, by simp [hrequest, hprompt]⟩
    rw [heq, List.filter_append, List.filter_append, ← h.filter_isPrompt]
    exact (List.prefix_append_right_inj _).2 hlast
  requests := ⟨_, rfl, map_request?_filter s _⟩
  passes r hr := by cases hr
  stops c hc := by
    cases hc
    refine ⟨front, node, back, p, f, heq, h, hfault, rfl, fun c hc => ?_, fun other hother => ?_⟩
    · cases f with
      | event fault =>
        obtain ⟨hbare, _⟩ := runNode_error hfault
        rw [hbare] at hc
        cases hc
        exact ⟨rfl, rfl⟩
      | provider message => cases hc
      | value error => cases hc
      | badBound => cases hc
    · exact horder.not_reaches hids heq other (List.mem_filter.1 hother).1
  gates id keys hnode hvacant := by
    refine ⟨fun r hr => (by cases hr), fun fore aft hsplit other hother => ?_⟩
    obtain ⟨key, hkey, hvacant⟩ := hvacant
    rw [← Setting.isVacant_iff] at hvacant
    obtain ⟨hreached, hasked⟩ := List.mem_filter.1 hother
    -- The check has not passed, so it is the node that failed or stands behind it.
    refine mem_front_of_split (heq.symm.trans hsplit) (fun hfront => ?_) hreached ?_
    · rw [h.held hfront key hkey] at hvacant
      cases hvacant
    · rintro rfl
      cases hasked

end

/-- **How an event runs**, for every event with distinct node ids and no cycle, every state and all
providers.  It runs along the order that ordering the graph gives, and `RunsAlong` says what it comes
to. -/
theorem runEvent_runsAlong {app : App} {s : Setting} {e : EventDefinition}
    (hfound : app.findEvent? s.eventId = some e) (hids : e.graph.nodeIds.Nodup)
    (hacyclic : ∀ v, ¬ e.graph.Reaches v v) (earlier : List Request) :
    ∃ order asked, e.graph.Orders order ∧
      order.map Node.id = (GraphOrder.compute e.graph.nodeIds e.graph.edges).order ∧
      RunsAlong s e.graph earlier order asked (runEvent app s earlier) := by
  obtain ⟨order, horder, hcompute, hrun⟩ := runEvent_orders hfound hids hacyclic
  rw [hrun earlier]
  rcases runNodes_passes_or_stops s order .start earlier with
    ⟨p, hpasses⟩ | ⟨front, node, back, p, f, heq, hpasses, hfault, hend⟩
  · rw [hpasses.runNodes_eq]
    exact ⟨order, _, horder, hcompute, runsAlong_of_passes hpasses⟩
  · rw [hend]
    exact ⟨order, _, horder, hcompute, runsAlong_of_stops horder hids heq hpasses hfault⟩

/-- The notes are checked, summarized and written; the nodes are declared the other way around. -/
def summaryGraph : ActionGraph :=
  { nodes := [.transform "write" [("summary", "[$ask.output]")],
      .prompt "ask" ⟨"Summarize {{notes}}", ["notes"], ⟨.mock, "m", none⟩, []⟩,
      .validate "check" ["notes"]]
    edges := [⟨"ask", "write"⟩, ⟨"check", "ask"⟩] }

theorem summaryGraph_acyclic : ∀ v, ¬ summaryGraph.Reaches v v :=
  GraphOrder.isAcyclic_iff.1 (by decide +kernel)

/-- A state whose notes are empty, and the offline provider. -/
def blankNotes : Setting :=
  ⟨"send", [("notes", .str "")], [("mock", Provider.fixed Provider.defaultPayload)]⟩

/-- Without notes no node asks. -/
theorem runEvent_runsAlong_blank :
    (App.ofGraph summaryGraph).findEvent? blankNotes.eventId =
        some ⟨"send", ⟨"button", .onClick⟩, summaryGraph⟩ ∧
      summaryGraph.nodeIds.Nodup ∧ (∀ v, ¬ summaryGraph.Reaches v v) ∧
      ∃ order, summaryGraph.Orders order ∧ order.map Node.id = ["check", "ask", "write"] ∧
        RunsAlong blankNotes summaryGraph [] order []
          (runEvent (App.ofGraph summaryGraph) blankNotes []) := by
  have hids : summaryGraph.nodeIds.Nodup := by decide
  refine ⟨rfl, hids, summaryGraph_acyclic, ?_⟩
  obtain ⟨order, asked, horder, hcompute, hruns⟩ :=
    runEvent_runsAlong (s := blankNotes) (App.findEvent?_ofGraph summaryGraph) hids summaryGraph_acyclic []
  have hnames : order.map Node.id = ["check", "ask", "write"] := by
    rw [hcompute]
    decide +kernel
  obtain ⟨first, rest, rfl, hfirst, _⟩ := List.map_eq_cons_iff.1 hnames
  have hmem := horder.perm.subset (List.mem_cons_self (a := first))
  have hcheck : first = .validate "check" ["notes"] := by
    simp only [summaryGraph, List.mem_cons, List.not_mem_nil, or_false] at hmem
    rcases hmem with rfl | rfl | rfl
    · exact absurd hfirst (by decide)
    · exact absurd hfirst (by decide)
    · rfl
  subst hcheck
  obtain ⟨_, hbefore⟩ := hruns.gates "check" ["notes"] (List.mem_cons_self ..)
    ⟨"notes", List.mem_singleton.2 rfl, .inr (.inr rfl)⟩
  have hnone : asked = [] := List.eq_nil_iff_forall_not_mem.2 fun other hother => by
    cases hbefore [] rest rfl other hother
  rw [hnone] at hruns
  exact ⟨_, horder, hnames, hruns⟩

end FormFlow
