import FormFlow.Json

/-!
# Transform expressions

An expression is either a reference `[$node.output]` to the output of a node or a literal text.  A
reference may be followed by one line end, and its node id holds no line end; everything else is
literal.

## Principal results

* `referenceId?_spec` — the texts that are references, exactly;
* `parse_reference_iff` — when parsing gives a reference.
-/

namespace FormFlow

/-- An expression of a transform. -/
inductive Expression where
  /-- The output of a node, in a list of one element. -/
  | reference (nodeId : String)
  /-- A text, verbatim. -/
  | literal (value : String)
deriving DecidableEq

namespace Expression

/-- How a reference opens. -/
def opening : List Char := ['[', '$']

/-- How a reference closes. -/
def closing : List Char := ['.', 'o', 'u', 't', 'p', 'u', 't', ']']

/-- A text without one line end at its end. -/
def dropLineEnd (cs : List Char) : List Char :=
  if cs.getLast? = some '\n' then cs.dropLast else cs

/-- What a text was before a line end was dropped. -/
theorem dropLineEnd_eq {cs rest : List Char} (h : dropLineEnd cs = rest) :
    cs = rest ∨ cs = rest ++ ['\n'] := by
  unfold dropLineEnd at h
  split at h
  · rename_i hlast
    have hne : cs ≠ [] := by rintro rfl; simp at hlast
    rw [List.getLast?_eq_some_getLast hne, Option.some.injEq] at hlast
    right
    rw [← h, ← hlast, List.dropLast_concat_getLast hne]
  · exact .inl h

/-- The node id of a reference. -/
def referenceId? (cs : List Char) : Option (List Char) :=
  if opening.isPrefixOf cs then
    let body := dropLineEnd (cs.drop opening.length)
    if closing.isSuffixOf body then
      let id := body.take (body.length - closing.length)
      if id ≠ [] ∧ '\n' ∉ id then some id else none
    else none
  else none

/-- A reference is its node id between the opening and the closing, perhaps with a line end. -/
theorem referenceId?_spec {cs id : List Char} :
    referenceId? cs = some id ↔
      id ≠ [] ∧ '\n' ∉ id ∧
        (cs = opening ++ id ++ closing ∨ cs = opening ++ id ++ closing ++ ['\n']) := by
  constructor
  · intro h
    unfold referenceId? at h
    split at h
    · rename_i hopen
      obtain ⟨rest, rfl⟩ := List.isPrefixOf_iff_prefix.1 hopen
      simp only [List.drop_left] at h
      split at h
      · rename_i hclose
        obtain ⟨front, hfront⟩ := List.isSuffixOf_iff_suffix.1 hclose
        rw [← hfront, List.length_append, Nat.add_sub_cancel, List.take_left] at h
        split at h
        · rename_i hid
          injection h with h
          subst h
          exact ⟨hid.1, hid.2, (dropLineEnd_eq hfront.symm).imp (by simp +contextual) (by simp +contextual)⟩
        · cases h
      · cases h
    · cases h
  · rintro ⟨hne, hnl, rfl | rfl⟩
    · have hlast : dropLineEnd (id ++ closing) = id ++ closing := by
        simp [dropLineEnd, closing]
      simp [referenceId?, List.append_assoc, hlast, hne, hnl]
    · have hlast : dropLineEnd (id ++ (closing ++ ['\n'])) = id ++ closing := by
        rw [← List.append_assoc]
        simp [dropLineEnd]
      simp [referenceId?, List.append_assoc, hlast, hne, hnl]

/-- Read an expression. -/
def parse (text : String) : Expression :=
  match referenceId? text.toList with
  | some id => reference (String.ofList id)
  | none => literal text

/-- Parsing gives a reference exactly when the text is one. -/
theorem parse_reference_iff {text : String} {id : String} :
    parse text = reference id ↔ referenceId? text.toList = some id.toList := by
  unfold parse
  cases h : referenceId? text.toList with
  | none => simp
  | some cs =>
    simp only [reference.injEq, Option.some.injEq]
    exact ⟨fun e => by rw [← e]; simp, fun e => by rw [e]; simp⟩

/-- The value of an expression over the outputs so far, or the node id that has none. -/
def evaluate (outputs : Table Json) : Expression → Except String Json
  | reference nodeId =>
    match outputs.get? nodeId with
    | some v => .ok (.arr [v])
    | none => .error nodeId
  | literal value => .ok (.str value)

end Expression

end FormFlow
