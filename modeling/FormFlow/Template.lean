import FormFlow.Json.Printer
import FormFlow.Text.Blank

/-!
# Prompt templates

A template is text with tokens such as `{{ key }}`.  A token opens with two braces, holds at least one
character and no closing brace, and ends with two closing braces; blanks around its key do not count.
The first place from the left where a token fits is a token; every other character stands for itself.

## Principal results

* `scan_source` — the pieces of a template spell the template;
* `rekey_source` — replacing keys changes tokens only;
* `valueText_eq` — the values that can be filled in, and their text.
-/

namespace FormFlow.Template

/-- A piece of a template. -/
inductive Piece where
  /-- A character outside tokens. -/
  | char (c : Char)
  /-- A token, with all the text between its braces. -/
  | token (inner : List Char)
deriving DecidableEq

/-- A token at the front: the text between its braces, and what follows it. -/
def tokenAt? : List Char → Option (List Char × List Char)
  | '{' :: '{' :: cs =>
    match cs.takeWhile (· ≠ '}'), cs.dropWhile (· ≠ '}') with
    | [], _ => none
    | inner, '}' :: '}' :: rest => some (inner, rest)
    | _, _ => none
  | _ => none

theorem not_mem_takeWhile {c : Char} (cs : List Char) : c ∉ cs.takeWhile (· ≠ c) := by
  induction cs with
  | nil => simp
  | cons d cs ih =>
    by_cases h : d = c
    · simp [h]
    · simpa [h, Ne.symm h] using ih

/-- A token at the front is the text between its braces, which is not empty and holds no closing
brace, with the braces around it. -/
theorem tokenAt?_spec {cs inner rest : List Char} (h : tokenAt? cs = some (inner, rest)) :
    cs = '{' :: '{' :: inner ++ '}' :: '}' :: rest ∧ inner ≠ [] ∧ '}' ∉ inner := by
  unfold tokenAt? at h
  split at h
  · rename_i body
    have htake := List.takeWhile_append_dropWhile (p := (· ≠ '}')) (l := body)
    have hnone := not_mem_takeWhile (c := '}') body
    generalize body.takeWhile (· ≠ '}') = front at *
    generalize body.dropWhile (· ≠ '}') = back at *
    split at h
    · cases h
    · simp only [Option.some.injEq, Prod.mk.injEq] at h
      obtain ⟨rfl, rfl⟩ := h
      refine ⟨by simp [← htake], ?_, hnone⟩
      rintro rfl
      simp_all
    · cases h
  · cases h

theorem tokenAt?_length {cs inner rest : List Char} (h : tokenAt? cs = some (inner, rest)) :
    rest.length < cs.length := by
  rw [(tokenAt?_spec h).1]
  simp
  omega

/-- The pieces of a template, from the left. -/
def scan : List Char → List Piece
  | [] => []
  | c :: cs =>
    match _h : tokenAt? (c :: cs) with
    | some (inner, rest) => .token inner :: scan rest
    | none => .char c :: scan cs
termination_by cs => cs.length
decreasing_by
  · exact tokenAt?_length _h
  · simp

/-- The text of a piece. -/
def Piece.source : Piece → List Char
  | char c => [c]
  | token inner => '{' :: '{' :: inner ++ ['}', '}']

/-- Nothing is lost or added by scanning. -/
theorem scan_source (cs : List Char) : (scan cs).flatMap Piece.source = cs := by
  fun_induction scan cs with
  | case1 => rfl
  | case2 c cs inner rest h ih =>
    rw [List.flatMap_cons, ih, (tokenAt?_spec h).1]
    simp [Piece.source]
  | case3 c cs h ih => simp [List.flatMap_cons, ih, Piece.source]

/-- The key of a token: the text between its braces without the blanks around it. -/
def keyOf (inner : List Char) : String := String.ofList (Text.trim inner)

/-- The keys of the tokens, in order; a token that holds only blanks has none. -/
def keys (template : String) : List String :=
  (scan template.toList).filterMap fun
    | .char _ => none
    | .token inner => if keyOf inner = "" then none else some (keyOf inner)

/-- A piece with the key of its token replaced. -/
def Piece.rekey (resolve : String → String) : Piece → List Char
  | char c => [c]
  | token inner => '{' :: '{' :: (resolve (keyOf inner)).toList ++ ['}', '}']

/-- The template with each token's key replaced and the blanks around it gone. -/
def rekey (resolve : String → String) (template : String) : String :=
  String.ofList ((scan template.toList).flatMap (Piece.rekey resolve))

/-- A template without tokens is left alone. -/
theorem rekey_source (resolve : String → String) (template : String)
    (h : ∀ inner, Piece.token inner ∉ scan template.toList) : rekey resolve template = template := by
  unfold rekey
  have : (scan template.toList).flatMap (Piece.rekey resolve) =
      (scan template.toList).flatMap Piece.source := by
    generalize scan template.toList = ps at h
    induction ps with
    | nil => rfl
    | cons p ps ih =>
      have hp : p.rekey resolve = p.source := by
        cases p with
        | char c => rfl
        | token inner => exact absurd (List.mem_cons_self ..) (h inner)
      rw [List.flatMap_cons, List.flatMap_cons, hp,
        ih fun inner hm => h inner (List.mem_cons_of_mem _ hm)]
  rw [this, scan_source]
  simp

/-! ## Filling in -/

/-- A value as prompt text: a string verbatim, anything else as JSON. -/
def promptText : Json → String
  | .str s => s
  | v => Json.render Json.inline v

/-- A value as prompt text, if it is a string or has a text. -/
def valueText : Json → Except ValueError String
  | .str s => .ok s
  | v => Json.render? Json.inline v

/-- Exactly the values that have a text are filled in, and with it. -/
theorem valueText_eq (v : Json) : valueText v = if v.Writable then .ok (promptText v) else .error .longInteger := by
  cases v with
  | str s => exact (if_pos (Json.writable_str s)).symm
  | _ => rfl

/-- Why a template cannot be filled in. -/
inductive Fault where
  /-- A key has no value. -/
  | missing (key : String)
  /-- The value of a key has no text. -/
  | value (error : ValueError)
deriving DecidableEq

/-- The text of a key's value. -/
def textOf (values : Table Json) (key : String) : Except Fault String :=
  match values.get? key with
  | some v => (valueText v).mapError .value
  | none => .error (.missing key)

/-- A piece with the text of its key's value. -/
def Piece.fill (values : Table Json) : Piece → Except Fault (List Char)
  | char c => .ok [c]
  | token inner => (textOf values (keyOf inner)).map String.toList

/-- The text of pieces with values filled in, or the first fault. -/
def fillPieces (values : Table Json) : List Piece → Except Fault (List Char)
  | [] => .ok []
  | p :: ps => do
    let front ← p.fill values
    let back ← fillPieces values ps
    return front ++ back

/-- The template with values filled in, or the first fault.  What is filled in is not scanned again. -/
def interpolate (values : Table Json) (template : String) : Except Fault String :=
  (fillPieces values (scan template.toList)).map String.ofList

end FormFlow.Template
