import FormFlow.Proofs.PatchOrigin
import FormFlow.Validation

/-!
# How references are spelled

A reference to a node is written as the node's id between `[$` and `.output]`.  What reads as a reference is
close to that, but not the same: a line end after the closing bracket is passed over, and an id with a line
end in it cannot be referred to at all.  `Expression.Denotes` says which texts read as references to a node;
validation looks a node up exactly for these, a transform fetches an output exactly for these, and it writes
every other text as it stands.

## Principal results

* `Expression.parse_reference_iff_denotes`, `Expression.parse_literal_iff` — the two readings of a text;
* `Expression.evaluate_ok_iff`, `Expression.evaluate_error_iff` — its value, and when it has none;
* `mem_checkTransform_unknownReference` — the texts whose node is looked up by validation;
* `runNode_transform_error_iff`, `runNode_transform_get?` — the texts whose output a run fetches, and what it
  writes for the rest;
* `expression_readings` — the readings of texts, and what validation and runs make of them;
* `references_misread` — a literal that reads as a reference, and a reference that does not.
-/

namespace FormFlow

namespace Expression

/-! ## Two readings -/

/-- The reference to a node, as it is written. -/
def referenceTo (id : String) : String := "[$" ++ id ++ ".output]"

/-- A text reads as a reference to a node: it is written as one, perhaps with a line end behind it, and the
id is neither empty nor broken by a line end. -/
structure Denotes (text id : String) : Prop where
  nonempty : id ≠ ""
  unbroken : '\n' ∉ id.toList
  spelled : text = referenceTo id ∨ text = referenceTo id ++ "\n"

theorem toList_referenceTo (id : String) :
    (referenceTo id).toList = opening ++ id.toList ++ closing := by
  simp [referenceTo, opening, closing]

theorem eq_referenceTo_iff {text id : String} :
    text = referenceTo id ↔ text.toList = opening ++ id.toList ++ closing := by
  rw [← toList_referenceTo, String.toList_inj]

theorem eq_referenceTo_lineEnd_iff {text id : String} :
    text = referenceTo id ++ "\n" ↔ text.toList = opening ++ id.toList ++ closing ++ ['\n'] := by
  rw [← toList_referenceTo, ← String.toList_inj, String.toList_append]
  rfl

/-- **The texts that read as references.** -/
theorem parse_reference_iff_denotes {text id : String} :
    parse text = .reference id ↔ Denotes text id := by
  have hne : id ≠ "" ↔ id.toList ≠ [] := by simp
  rw [parse_reference_iff, referenceId?_spec, ← eq_referenceTo_iff, ← eq_referenceTo_lineEnd_iff, ← hne]
  exact ⟨fun ⟨nonempty, unbroken, spelled⟩ => ⟨nonempty, unbroken, spelled⟩,
    fun ⟨nonempty, unbroken, spelled⟩ => ⟨nonempty, unbroken, spelled⟩⟩

/-- **Every other text is a literal.** -/
theorem parse_literal_iff {text : String} : parse text = .literal text ↔ ∀ id, ¬ Denotes text id := by
  simp only [← parse_reference_iff_denotes]
  constructor
  · intro h id hreference
    cases h.symm.trans hreference
  · intro h
    cases hparse : parse text with
    | reference id => exact absurd hparse (h id)
    | literal value => rw [parse_literal hparse]

/-- A text refers to one node at most. -/
theorem Denotes.unique {text id other : String} (h : Denotes text id) (hother : Denotes text other) :
    id = other := by
  have hsame := (parse_reference_iff_denotes.2 h).symm.trans (parse_reference_iff_denotes.2 hother)
  exact reference.inj hsame

/-- A reference with a line end behind it, or an id with one in it, is where the readings part from the
spelling; a text without line ends reads as it is spelled. -/
theorem denotes_iff_of_no_lineEnd {text id : String} (h : '\n' ∉ text.toList) :
    Denotes text id ↔ id ≠ "" ∧ text = referenceTo id := by
  constructor
  · rintro ⟨nonempty, _, rfl | rfl⟩
    · exact ⟨nonempty, rfl⟩
    · simp at h
  · rintro ⟨nonempty, rfl⟩
    refine ⟨nonempty, fun hbroken => h ?_, .inl rfl⟩
    rw [toList_referenceTo]
    simp [hbroken]

/-- The nodes that can be referred to. -/
theorem exists_denotes_iff {id : String} : (∃ text, Denotes text id) ↔ id ≠ "" ∧ '\n' ∉ id.toList := by
  constructor
  · rintro ⟨text, nonempty, unbroken, _⟩
    exact ⟨nonempty, unbroken⟩
  · rintro ⟨nonempty, unbroken⟩
    exact ⟨referenceTo id, nonempty, unbroken, .inl rfl⟩

/-! ## Values -/

/-- What a text stands for over outputs: the output of the node that it refers to, in a list of one element,
or itself. -/
inductive StandsFor (outputs : Table Json) (text : String) : Json → Prop
  | output {id : String} {v : Json} (denotes : Denotes text id) (found : outputs.get? id = some v) :
      StandsFor outputs text (.arr [v])
  | verbatim (literal : ∀ id, ¬ Denotes text id) : StandsFor outputs text (.str text)

section

variable {outputs : Table Json} {text : String}

theorem evaluate_error_iff {id : String} :
    (parse text).evaluate outputs = .error id ↔ Denotes text id ∧ outputs.get? id = none := by
  rw [← parse_reference_iff_denotes]
  cases parse text with
  | literal value => simp [evaluate]
  | reference other =>
    cases hget : outputs.get? other with
    | none =>
      simp only [evaluate, hget, Except.error.injEq, reference.injEq]
      exact ⟨fun h => ⟨h, h ▸ hget⟩, fun h => h.1⟩
    | some v =>
      simp only [evaluate, hget, reduceCtorEq, reference.injEq, false_iff, not_and]
      rintro rfl
      simp [hget]

theorem evaluate_ok_iff {v : Json} :
    (parse text).evaluate outputs = .ok v ↔ StandsFor outputs text v := by
  cases hparse : parse text with
  | literal value =>
    cases parse_literal hparse
    have hliteral := parse_literal_iff.1 hparse
    rw [evaluate, Except.ok.injEq]
    constructor
    · rintro rfl
      exact .verbatim hliteral
    · rintro (⟨denotes, _⟩ | _)
      · exact absurd denotes (hliteral _)
      · rfl
  | reference id =>
    have hdenotes := parse_reference_iff_denotes.1 hparse
    constructor
    · intro h
      cases hget : outputs.get? id with
      | none =>
        rw [evaluate, hget] at h
        cases h
      | some w =>
        rw [evaluate, hget] at h
        cases h
        exact .output hdenotes hget
    · rintro (⟨denotes, found⟩ | literal)
      · cases hdenotes.unique denotes
        rw [evaluate, found]
      · exact absurd hdenotes (literal id)

end

end Expression

open Expression (Denotes StandsFor referenceTo)

/-! ## Validation -/

/-- **Validation looks up the node of every text that reads as a reference, and of no other.** -/
theorem mem_checkTransform_unknownReference {stateModel : Table StateField} {nodeIds : List String}
    {eventId nodeId target id : String} {targets : Table String} :
    .unknownReference eventId nodeId target id ∈ checkTransform stateModel nodeIds eventId nodeId targets ↔
      ∃ text, (target, text) ∈ targets ∧ Denotes text id ∧ id ∉ nodeIds := by
  simp only [← Expression.parse_reference_iff_denotes]
  rw [checkTransform, List.mem_flatMap]
  constructor
  · rintro ⟨⟨key, text⟩, hentry, hmem⟩
    rcases List.mem_append.1 hmem with hmem | hmem
    · split at hmem
      · cases hmem
      · simp at hmem
    · split at hmem
      · rename_i ref hparse
        split at hmem
        · cases hmem
        · rename_i hunknown
          cases List.mem_singleton.1 hmem
          exact ⟨text, hentry, hparse, by simpa using hunknown⟩
      · cases hmem
  · rintro ⟨text, hentry, hparse, hunknown⟩
    exact ⟨(target, text), hentry, List.mem_append_right _ (by simp [hparse, hunknown])⟩

/-! ## Runs -/

section

variable {s : Setting} {nodeId : String} {targets : Table String} {p : Progress}
  {earlier : List Request}

/-- A transform stops at a node without an output that one of its texts refers to. -/
theorem mapTargets_error {outputs patch : Table Json} {id : String}
    (h : mapTargets outputs targets patch = .error id) :
    ∃ entry ∈ targets, Denotes entry.2 id ∧ outputs.get? id = none := by
  induction targets generalizing patch with
  | nil => cases h
  | cons entry targets ih =>
    obtain ⟨target, text⟩ := entry
    rw [mapTargets] at h
    cases hvalue : (Expression.parse text).evaluate outputs with
    | ok v =>
      rw [hvalue] at h
      obtain ⟨entry, hentry, hmissing⟩ := ih h
      exact ⟨entry, List.mem_cons_of_mem _ hentry, hmissing⟩
    | error missing =>
      rw [hvalue] at h
      cases h
      exact ⟨_, List.mem_cons_self .., Expression.evaluate_error_iff.1 hvalue⟩

theorem mapTargets_error_iff {outputs patch : Table Json} :
    (∃ id, mapTargets outputs targets patch = .error id) ↔
      ∃ entry ∈ targets, ∃ id, Denotes entry.2 id ∧ outputs.get? id = none := by
  constructor
  · rintro ⟨id, h⟩
    obtain ⟨entry, hentry, hmissing⟩ := mapTargets_error h
    exact ⟨entry, hentry, id, hmissing⟩
  · rintro ⟨entry, hentry, id, hmissing⟩
    cases hresult : mapTargets outputs targets patch with
    | error other => exact ⟨other, rfl⟩
    | ok result =>
      obtain ⟨v, hv⟩ := mapTargets_ok_iff.1 ⟨result, hresult⟩ entry hentry
      rw [Expression.evaluate_error_iff.2 hmissing] at hv
      cases hv

/-- **A run fetches the output of every text that reads as a reference, and of no other.** -/
theorem runNode_transform_error_iff :
    (∃ f, (runNode s (.transform nodeId targets) p earlier).result = .error f) ↔
      ∃ entry ∈ targets, ∃ id, Denotes entry.2 id ∧ p.outputs.get? id = none := by
  have hfails : (∃ id, mapTargets p.outputs targets p.patch = .error id) ↔ _ := mapTargets_error_iff
  rw [← hfails, runNode]
  cases mapTargets p.outputs targets p.patch <;> simp

/-- A transform that passes leaves in the patch what its texts stand for. -/
theorem runNode_transform_get? {q : Progress}
    (h : (runNode s (.transform nodeId targets) p earlier).result = .ok q) {key text : String}
    (htext : expressionFor? targets key = some text) :
    ∃ v, q.patch.get? key = some v ∧ StandsFor p.outputs text v := by
  cases runNode_ok_iff.1 h with
  | transform mapped =>
    obtain ⟨v, hv⟩ := mapTargets_ok_iff.1 ⟨_, mapped⟩ _ (mem_of_expressionFor? htext)
    refine ⟨v, ?_, Expression.evaluate_ok_iff.1 hv⟩
    rw [mapTargets_get? mapped nodeId, Node.written?, htext, Option.bind_some, hv]
    rfl

end

/-- **What reads as a reference, and who reads it.**  A text refers to a node exactly when it is spelled so,
with or without a line end behind it, and the id is neither empty nor broken by a line end; all other texts
are literals, and a text without line ends reads as it is spelled.  Validation looks up the nodes of exactly
these texts.  A transform stops for want of the output of exactly these, and leaves in the patch that output
for these and every other text verbatim. -/
theorem expression_readings (text id : String) :
    (Expression.parse text = .reference id ↔ Denotes text id) ∧
      (Expression.parse text = .literal text ↔ ∀ other, ¬ Denotes text other) ∧
      ('\n' ∉ text.toList → (Denotes text id ↔ id ≠ "" ∧ text = referenceTo id)) ∧
      ((∃ spelled, Denotes spelled id) ↔ id ≠ "" ∧ '\n' ∉ id.toList) ∧
      (∀ stateModel nodeIds eventId nodeId targets target,
        .unknownReference eventId nodeId target id ∈
            checkTransform stateModel nodeIds eventId nodeId targets ↔
          ∃ spelled, (target, spelled) ∈ targets ∧ Denotes spelled id ∧ id ∉ nodeIds) ∧
      (∀ s nodeId targets p earlier,
        (∃ f, (runNode s (.transform nodeId targets) p earlier).result = .error f) ↔
          ∃ entry ∈ targets, ∃ other, Denotes entry.2 other ∧ p.outputs.get? other = none) ∧
      ∀ s nodeId targets p earlier q,
        (runNode s (.transform nodeId targets) p earlier).result = .ok q →
          ∀ key, expressionFor? targets key = some text →
            ∃ v, q.patch.get? key = some v ∧ StandsFor p.outputs text v :=
  ⟨Expression.parse_reference_iff_denotes, Expression.parse_literal_iff,
    Expression.denotes_iff_of_no_lineEnd, Expression.exists_denotes_iff,
    fun _ _ _ _ _ _ => mem_checkTransform_unknownReference, fun _ _ _ _ _ => runNode_transform_error_iff,
    fun _ _ _ _ _ _ h _ htext => runNode_transform_get? h htext⟩

/-- A reference, and a text that would be one if an id could be empty. -/
theorem expression_readings_reply :
    '\n' ∉ "[$ask.output]".toList ∧ Denotes "[$ask.output]" "ask" ∧
      ∃ q, (runNode ⟨"send", [], []⟩ (.transform "write" [("reply", "[$ask.output]"), ("note", "[$.output]")])
          { Progress.start with outputs := [("ask", .bool true)] } []).result = .ok q ∧
        StandsFor [("ask", .bool true)] "[$ask.output]" (.arr [.bool true]) ∧
        q.patch.get? "reply" = some (.arr [.bool true]) ∧ q.patch.get? "note" = some (.str "[$.output]") := by
  obtain ⟨_, _, hspelled, _, _, _, hpatch⟩ := expression_readings "[$ask.output]" "ask"
  have hplain : '\n' ∉ "[$ask.output]".toList := by decide
  have hdenotes : Denotes "[$ask.output]" "ask" := (hspelled hplain).2 ⟨by decide, by decide⟩
  obtain ⟨v, hv, hstands⟩ := hpatch ⟨"send", [], []⟩ "write"
    [("reply", "[$ask.output]"), ("note", "[$.output]")]
    { Progress.start with outputs := [("ask", .bool true)] } [] _ rfl "reply" (by decide)
  cases hv
  exact ⟨hplain, hdenotes, _, rfl, hstands, rfl, rfl⟩

/-- Spelling alone does not decide: a reference with a line end behind it is no literal, and a node whose id
holds a line end is beyond reference. -/
theorem references_misread :
    (¬ ∀ text id, id ≠ "" → (Expression.parse text = .reference id ↔ text = referenceTo id)) ∧
      (¬ ∀ text, (∀ id, id ≠ "" → text ≠ referenceTo id) → Expression.parse text = .literal text) ∧
      ¬ ∀ id, id ≠ "" → ∃ text, Expression.parse text = .reference id := by
  have hread : Expression.parse "[$ask.output]\n" = .reference "ask" := by decide
  refine ⟨fun h => ?_, fun h => ?_, fun h => ?_⟩
  · exact absurd ((h _ "ask" (by decide)).1 hread) (by decide)
  · have hlast : ∀ id : String, "[$ask.output]\n" ≠ referenceTo id := by
      intro id heq
      have hlists := Expression.eq_referenceTo_iff.1 heq
      have := congrArg List.getLast? hlists
      simp [Expression.closing] at this
    cases hread.symm.trans (h _ fun id _ => hlast id)
  · obtain ⟨text, htext⟩ := h "a\nb" (by decide)
    exact (Expression.parse_reference_iff_denotes.1 htext).unbroken (by decide)

end FormFlow
