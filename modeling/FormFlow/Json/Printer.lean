import FormFlow.Decimal.Notation
import FormFlow.Json.Numbers
import FormFlow.Text.Hex
import FormFlow.Text.Order

/-!
# Printing JSON

A printed form is a `Style`: the blanks around members and items, the escape of a character, and the
notation of floats.  `inline` keeps a value on one line with a blank after each comma and colon;
`indented` gives each member and item a line of its own.  Both escape everything outside printable
ASCII.

`write` and `render` are the notation alone, for integers of any length.  What a program writes goes through
`render?`, which refuses integers with too many digits.

## Principal results

* `escapeAscii_ascii` — the escape of any character is printable ASCII throughout.
-/

namespace FormFlow.Json

/-! ## Characters and numbers -/

/-- The short escapes shared by all printed forms. -/
def shortEscape? : Char → Option Char
  | '"' => some '"'
  | '\\' => some '\\'
  | '\n' => some 'n'
  | '\r' => some 'r'
  | '\t' => some 't'
  | '\u000c' => some 'f'
  | '\u0008' => some 'b'
  | _ => none

/-- A 16-bit unit as a numeric escape. -/
def unitEscape (n : Nat) : List Char := '\\' :: 'u' :: Text.hex 4 n

/-- A character that ASCII texts show as it is. -/
def isPlain (c : Char) : Bool := decide (' ' ≤ c) && decide (c ≤ '~')

/-- A character in ASCII: short escapes, printable characters as they are, units for the rest. -/
def escapeAscii (c : Char) : List Char :=
  match shortEscape? c with
  | some e => ['\\', e]
  | none => if isPlain c then [c] else (Text.charUnits c).flatMap unitEscape

/-- Floats are written positionally from `0.0001` up to sixteen digits, a whole one with `.0`, and
otherwise with a signed exponent of at least two digits. -/
def floatNotation : Decimal.Notation where
  plainFrom := -4
  plainBelow := 16
  keepsPoint := true
  exponentWidth := 2
  signsZero := true

/-- A float as text, with names for what is not finite. -/
def floatText (infinity notANumber : String) (x : Float) : List Char :=
  match floatNotation.write? x, Decimal.Parts.ofFloat x with
  | some cs, _ => cs
  | none, .infinite negative => (if negative then ['-'] else []) ++ infinity.toList
  | none, _ => notANumber.toList

/-- An integer in decimal. -/
def intText (n : Int) : List Char :=
  if n < 0 then '-' :: Nat.toDigits 10 n.natAbs else Nat.toDigits 10 n.natAbs

/-! ## Styles -/

/-- The decisions of a printed form. -/
structure Style where
  /-- Blanks between a bracket and what it holds, at a depth. -/
  inside : Nat → List Char
  /-- Blanks after a comma, at a depth. -/
  afterComma : Nat → List Char
  /-- Blanks after a colon. -/
  afterColon : List Char
  /-- A character within a string. -/
  escape : Char → List Char
  /-- A float. -/
  float : Float → List Char

/-- A string between quotes. -/
def Style.string (style : Style) (s : String) : List Char :=
  '"' :: s.toList.flatMap style.escape ++ ['"']

mutual
/-- A value in a style, at a depth. -/
def write (style : Style) (depth : Nat) : Json → List Char
  | null => ['n', 'u', 'l', 'l']
  | bool true => ['t', 'r', 'u', 'e']
  | bool false => ['f', 'a', 'l', 's', 'e']
  | num (.int n) => intText n
  | num (.float x) => style.float x
  | str s => style.string s
  | arr [] => ['[', ']']
  | arr (v :: items) =>
    '[' :: style.inside (depth + 1) ++ write style (depth + 1) v ++
      writeItems style (depth + 1) items ++ style.inside depth ++ [']']
  | obj [] => ['{', '}']
  | obj ((k, v) :: members) =>
    '{' :: style.inside (depth + 1) ++ style.string k ++ ':' :: style.afterColon ++
      write style (depth + 1) v ++ writeMembers style (depth + 1) members ++
      style.inside depth ++ ['}']
/-- The items after the first. -/
def writeItems (style : Style) (depth : Nat) : List Json → List Char
  | [] => []
  | v :: items =>
    ',' :: style.afterComma depth ++ write style depth v ++ writeItems style depth items
/-- The members after the first. -/
def writeMembers (style : Style) (depth : Nat) : List (String × Json) → List Char
  | [] => []
  | (k, v) :: members =>
    ',' :: style.afterComma depth ++ style.string k ++ ':' :: style.afterColon ++
      write style depth v ++ writeMembers style depth members
end

/-- One line, with a blank after each comma and colon. -/
def inline : Style where
  inside _ := []
  afterComma _ := [' ']
  afterColon := [' ']
  escape := escapeAscii
  float := floatText "Infinity" "NaN"

/-- A line of its own for each member and item, indented by two blanks a level. -/
def indented : Style where
  inside depth := '\n' :: List.replicate (2 * depth) ' '
  afterComma depth := '\n' :: List.replicate (2 * depth) ' '
  afterColon := [' ']
  escape := escapeAscii
  float := floatText "Infinity" "NaN"

/-- A value as a string. -/
def render (style : Style) (v : Json) : String := String.ofList (write style 0 v)

/-- A value as a string, unless an integer inside it has too many digits. -/
def render? (style : Style) (v : Json) : Except ValueError String :=
  if v.Writable then .ok (render style v) else .error .longInteger

theorem render?_of_writable {v : Json} (h : v.Writable) (style : Style) :
    render? style v = .ok (render style v) :=
  if_pos h

/-! ## The escapes -/

theorem shortEscape?_isPlain {c e : Char} (h : shortEscape? c = some e) : isPlain e = true := by
  unfold shortEscape? at h
  split at h <;> first | (injection h with h; subst h; decide) | cases h

theorem isPlain_digitChar : ∀ d < 16, isPlain (Nat.digitChar d) = true := by decide

theorem isPlain_hex {width n : Nat} {c : Char} (h : c ∈ Text.hex width n) : isPlain c = true := by
  induction width generalizing n with
  | zero => simp [Text.hex] at h
  | succ width ih =>
    rw [Text.hex, List.mem_append, List.mem_singleton] at h
    rcases h with h | rfl
    · exact ih h
    · exact isPlain_digitChar _ (Nat.mod_lt _ (by decide))

/-- Escapes leave printable ASCII only. -/
theorem escapeAscii_ascii {c d : Char} (h : d ∈ escapeAscii c) : isPlain d = true := by
  unfold escapeAscii at h
  split at h
  · rename_i e he
    simp only [List.mem_cons, List.not_mem_nil, or_false] at h
    rcases h with rfl | rfl
    · decide
    · exact shortEscape?_isPlain he
  · split at h
    · rename_i hc
      simp only [List.mem_singleton] at h
      exact h ▸ hc
    · obtain ⟨n, _, hd⟩ := List.mem_flatMap.1 h
      simp only [unitEscape, List.mem_cons] at hd
      rcases hd with rfl | rfl | hd
      · decide
      · decide
      · exact isPlain_hex hd

end FormFlow.Json
