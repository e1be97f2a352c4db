import FormFlow.Json.Reader
import Mathlib.Data.List.Basic

/-!
# The grammar of JSON texts

A JSON text spells a `Document`: a tree in which numbers are literals, digit for digit, and objects have all the
members that were written, repeated names included.  `Grammar.Value` and the relations beside it are the grammar,
one rule for each production, with no word about how texts are read.  Each relates a text that begins with what
is spelled to what is spelled and the text behind it.

The value of a document has the numbers that the literals write, and of members with one name the last.  Names
are compared by their code points, so that surrogates without a partner stay apart.

## Principal results

* `Document.get?_value` — a repeated name keeps its last value;
* `Grammar.Value.length_lt` — whatever is spelled takes up some of the text;
* `Grammar.decode_unit` — a numeric escape with no surrogate to join stands for itself.
-/

namespace FormFlow.Json

/-! ## Literals -/

/-- Decimal digits, at least one. -/
structure Digits where
  text : List Char
  ne_nil : text ≠ []
  digits : ∀ c ∈ text, c.isDigit = true

/-- The digit zero alone. -/
def Digits.zero : Digits := ⟨['0'], List.cons_ne_nil _ _, List.forall_mem_singleton.2 rfl⟩

/-- The sign of an exponent as it is written. -/
inductive ExponentSign where
  | none | plus | minus

/-- The text of a sign. -/
def ExponentSign.source : ExponentSign → List Char
  | none => []
  | plus => ['+']
  | minus => ['-']

/-- An exponent as it is written. -/
structure Exponent where
  capital : Bool
  sign : ExponentSign
  digits : Digits

namespace Exponent

/-- The text of an exponent. -/
def source (x : Exponent) : List Char :=
  (if x.capital then 'E' else 'e') :: (x.sign.source ++ x.digits.text)

/-- The power of ten that an exponent names. -/
def value (x : Exponent) : Int :=
  let n : Int := Nat.ofDigitChars 10 x.digits.text 0
  match x.sign with
  | .minus => -n
  | _ => n

end Exponent

/-- A number as it is written: a sign, whole digits that do not start with a needless zero, and, if they are
there, digits behind a point and an exponent. -/
structure Literal where
  negative : Bool
  whole : Digits
  part : Option Digits
  exponent : Option Exponent
  noLeadingZero : ∀ ds, whole.text = '0' :: ds → ds = []

namespace Literal

/-- The text of a point and the digits behind it, if they are there. -/
def partSource : Option Digits → List Char
  | some ds => '.' :: ds.text
  | none => []

/-- The text of an exponent, if it is there. -/
def exponentSource : Option Exponent → List Char
  | some x => x.source
  | none => []

/-- The text behind the whole digits. -/
def tail (l : Literal) : List Char := partSource l.part ++ exponentSource l.exponent

/-- The text of a literal. -/
def source (l : Literal) : List Char :=
  (if l.negative then ['-'] else []) ++ (l.whole.text ++ l.tail)

/-- A literal without point and exponent. -/
def IsInteger (l : Literal) : Prop := l.part = none ∧ l.exponent = none

instance (l : Literal) : Decidable l.IsInteger :=
  decidable_of_iff (l.part.isNone = true ∧ l.exponent.isNone = true) (by simp [IsInteger])

/-- The digits behind the point. -/
def partDigits : Option Digits → List Char
  | some ds => ds.text
  | none => []

/-- The power of ten that the exponent names. -/
def exponentValue : Option Exponent → Int
  | some x => x.value
  | none => 0

/-- The magnitude that a literal writes: all its digits, and the power of ten that they count. -/
def figure (l : Literal) : Decimal.Figure where
  digits := Nat.ofDigitChars 10 (l.whole.text ++ partDigits l.part) 0
  exponent := exponentValue l.exponent - (partDigits l.part).length

/-- The number that a literal writes: an integer, or the double nearest to it. -/
def number (l : Literal) : Number :=
  if l.IsInteger then
    let n : Int := Nat.ofDigitChars 10 l.whole.text 0
    .int (if l.negative then -n else n)
  else .float (Decimal.nearest l.negative l.figure.digits l.figure.exponent)

/-- A literal that is no integer of more digits than are read. -/
def Short (l : Literal) : Prop := l.IsInteger → l.whole.text.length ≤ digitLimit

end Literal

/-! ## Documents -/

/-- What a text spells. -/
inductive Document where
  | null
  | bool (value : Bool)
  | num (literal : Literal)
  | str (points : Points)
  | arr (items : List Document)
  | obj (members : List (Points × Document))

namespace Document

mutual
/-- What a document is read as: of members with one name the first position and the last value count. -/
def value : Document → Reading
  | null => .null
  | bool b => .bool b
  | num l => .num l.number
  | str points => .str points
  | arr items => .arr (valueItems items)
  | obj members => .obj (Table.ofPairs (valueMembers members))
/-- The value of each item. -/
def valueItems : List Document → List Reading
  | [] => []
  | d :: items => value d :: valueItems items
/-- The value of each member. -/
def valueMembers : List (Points × Document) → List (Points × Reading)
  | [] => []
  | (name, d) :: members => (name, value d) :: valueMembers members
end

mutual
/-- The literals of a document, in order. -/
def literals : Document → List Literal
  | num l => [l]
  | arr items => literalsOfItems items
  | obj members => literalsOfMembers members
  | _ => []
/-- The literals of the items of an array. -/
def literalsOfItems : List Document → List Literal
  | [] => []
  | d :: items => literals d ++ literalsOfItems items
/-- The literals of the members of an object. -/
def literalsOfMembers : List (Points × Document) → List Literal
  | [] => []
  | (_, d) :: members => literals d ++ literalsOfMembers members
end

/-- No integer literal of a document has more digits than are read. -/
def Short (d : Document) : Prop := ∀ l ∈ d.literals, l.Short

theorem valueItems_eq (items : List Document) : valueItems items = items.map value := by
  induction items with
  | nil => rfl
  | cons d items ih => rw [valueItems, ih, List.map_cons]

theorem valueMembers_eq (members : List (Points × Document)) :
    valueMembers members = members.map fun m => (m.1, m.2.value) := by
  induction members with
  | nil => rfl
  | cons m members ih =>
    obtain ⟨k, d⟩ := m
    rw [valueMembers, ih, List.map_cons]

theorem short_num {l : Literal} : (num l).Short ↔ l.Short := by
  simp [Short, literals]

theorem short_arr {items : List Document} : (arr items).Short ↔ ∀ d ∈ items, d.Short := by
  unfold Short
  rw [literals]
  induction items with
  | nil => simp [literalsOfItems]
  | cons d items ih => rw [literalsOfItems, List.forall_mem_append, ih, List.forall_mem_cons]

theorem short_obj {members : List (Points × Document)} : (obj members).Short ↔ ∀ m ∈ members, m.2.Short := by
  unfold Short
  rw [literals]
  induction members with
  | nil => simp [literalsOfMembers]
  | cons m members ih =>
    obtain ⟨k, d⟩ := m
    rw [literalsOfMembers, List.forall_mem_append, ih, List.forall_mem_cons]

/-- **A repeated name keeps its last value.** -/
theorem get?_value (members : List (Points × Document)) (name : Points) :
    (obj members).value.get? name =
      (members.reverse.find? fun m => m.1 = name).map fun m => m.2.value := by
  rw [value, Reading.get?, Table.get?_ofPairs, valueMembers_eq, ← List.map_reverse, List.find?_map, Option.map_map]
  rfl

end Document

/-! ## Strings -/

namespace Grammar

/-- A letter between quotes: a character, or the 16-bit unit of a numeric escape. -/
inductive Letter where
  | char (c : Char)
  | unit (n : Nat)

/-- Two units are the surrogates of one character. -/
def Joined (n m : Nat) : Prop := (0xD800 ≤ n ∧ n < 0xDC00) ∧ 0xDC00 ≤ m ∧ m < 0xE000

instance (n m : Nat) : Decidable (Joined n m) := inferInstanceAs (Decidable (_ ∧ _))

/-- The code point of two surrogates. -/
def joined (n m : Nat) : Nat := 0x10000 + (n - 0xD800) * 0x400 + (m - 0xDC00)

/-- The code points of letters: surrogates count in pairs, and one without a partner stands for itself. -/
def decode : List Letter → Points
  | [] => []
  | .char c :: ls => c.toNat :: decode ls
  | .unit n :: .unit m :: ls =>
    if Joined n m then joined n m :: decode ls else n :: decode (.unit m :: ls)
  | .unit n :: ls => n :: decode ls

/-- A numeric escape with no surrogate to join stands for itself. -/
theorem decode_unit {n : Nat} {ls : List Letter} (h : ∀ m more, ls = .unit m :: more → ¬ Joined n m) :
    decode (.unit n :: ls) = n :: decode ls := by
  rcases ls with _ | ⟨_ | m, more⟩
  · rfl
  · rfl
  · rw [decode, if_neg (h m more rfl)]

/-- Letters up to the closing quote. -/
inductive Letters : List Char → List Letter → List Char → Prop
  | close {rest : List Char} : Letters ('"' :: rest) [] rest
  | plain {c : Char} {cs rest : List Char} {ls : List Letter} (quote : c ≠ '"') (slash : c ≠ '\\')
      (control : 0x20 ≤ c.toNat) (more : Letters cs ls rest) : Letters (c :: cs) (.char c :: ls) rest
  | short {e c : Char} {cs rest : List Char} {ls : List Letter} (escape : unescape? e = some c)
      (more : Letters cs ls rest) : Letters ('\\' :: e :: cs) (.char c :: ls) rest
  | unit {a b c d : Char} {n : Nat} {cs rest : List Char} {ls : List Letter}
      (digits : Text.ofHex? [a, b, c, d] = some n) (more : Letters cs ls rest) :
      Letters ('\\' :: 'u' :: a :: b :: c :: d :: cs) (.unit n :: ls) rest

theorem Letters.length_lt {cs rest : List Char} {ls : List Letter} (h : Letters cs ls rest) :
    rest.length < cs.length := by
  induction h with
  | close => exact Nat.lt_succ_self _
  | plain _ _ _ _ ih | short _ _ ih | unit _ _ ih =>
    simp only [List.length_cons]
    omega

/-! ## Values -/

/-- White space. -/
def Gap (cs rest : List Char) : Prop := ∃ gap, (∀ c ∈ gap, isGap c = true) ∧ cs = gap ++ rest

theorem Gap.length_le {cs rest : List Char} (h : Gap cs rest) : rest.length ≤ cs.length := by
  obtain ⟨gap, _, rfl⟩ := h
  rw [List.length_append]
  exact Nat.le_add_left ..

mutual
/-- A value. -/
inductive Value : List Char → Document → List Char → Prop
  | nullWord {rest : List Char} : Value ('n' :: 'u' :: 'l' :: 'l' :: rest) .null rest
  | trueWord {rest : List Char} : Value ('t' :: 'r' :: 'u' :: 'e' :: rest) (.bool true) rest
  | falseWord {rest : List Char} : Value ('f' :: 'a' :: 'l' :: 's' :: 'e' :: rest) (.bool false) rest
  | number {rest : List Char} (l : Literal) : Value (l.source ++ rest) (.num l) rest
  | string {cs rest : List Char} {ls : List Letter} (letters : Letters cs ls rest) :
      Value ('"' :: cs) (.str (decode ls)) rest
  | emptyArray {cs rest : List Char} (close : Gap cs (']' :: rest)) : Value ('[' :: cs) (.arr []) rest
  | array {cs mid rest : List Char} {items : List Document} (gap : Gap cs mid) (each : Items mid items rest) :
      Value ('[' :: cs) (.arr items) rest
  | emptyObject {cs rest : List Char} (close : Gap cs ('}' :: rest)) : Value ('{' :: cs) (.obj []) rest
  | object {cs mid rest : List Char} {members : List (Points × Document)} (gap : Gap cs mid)
      (each : Members mid members rest) : Value ('{' :: cs) (.obj members) rest
/-- Items, up to the closing bracket. -/
inductive Items : List Char → List Document → List Char → Prop
  | last {cs mid rest : List Char} {d : Document} (item : Value cs d mid) (close : Gap mid (']' :: rest)) :
      Items cs [d] rest
  | more {cs mid after next rest : List Char} {d : Document} {items : List Document} (item : Value cs d mid)
      (comma : Gap mid (',' :: after)) (gap : Gap after next) (others : Items next items rest) :
      Items cs (d :: items) rest
/-- Members, up to the closing brace. -/
inductive Members : List Char → List (Points × Document) → List Char → Prop
  | last {cs mid rest : List Char} {m : Points × Document} (member : Member cs m mid)
      (close : Gap mid ('}' :: rest)) : Members cs [m] rest
  | more {cs mid after next rest : List Char} {m : Points × Document} {members : List (Points × Document)}
      (member : Member cs m mid) (comma : Gap mid (',' :: after)) (gap : Gap after next)
      (others : Members next members rest) : Members cs (m :: members) rest
/-- A member: its name, a colon and its value. -/
inductive Member : List Char → Points × Document → List Char → Prop
  | mk {cs mid after next rest : List Char} {ls : List Letter} {d : Document} (letters : Letters cs ls mid)
      (colon : Gap mid (':' :: after)) (gap : Gap after next) (value : Value next d rest) :
      Member ('"' :: cs) (decode ls, d) rest
end

/-! ### How much is spelled -/

theorem source_length_pos (l : Literal) : 0 < l.source.length := by
  have hwhole := List.length_pos_iff.2 l.whole.ne_nil
  simp only [Literal.source, List.length_append]
  omega

mutual
/-- **Whatever is spelled takes up some of the text.** -/
theorem Value.length_lt {cs rest : List Char} {d : Document} : Value cs d rest → rest.length < cs.length
  | .nullWord | .trueWord | .falseWord => by
    simp only [List.length_cons]
    omega
  | .number l => by
    have hpos := source_length_pos l
    rw [List.length_append]
    omega
  | .string letters => Nat.lt_succ_of_lt letters.length_lt
  | .emptyArray close | .emptyObject close => by
    have hclose := close.length_le
    rw [List.length_cons] at hclose ⊢
    omega
  | .array gap each => by
    have hgap := gap.length_le
    have heach := each.length_lt
    rw [List.length_cons]
    omega
  | .object gap each => by
    have hgap := gap.length_le
    have heach := each.length_lt
    rw [List.length_cons]
    omega
theorem Items.length_lt {cs rest : List Char} {items : List Document} :
    Items cs items rest → rest.length < cs.length
  | .last item close => by
    have hitem := item.length_lt
    have hclose := close.length_le
    rw [List.length_cons] at hclose
    omega
  | .more item comma gap others => by
    have hitem := item.length_lt
    have hcomma := comma.length_le
    have hgap := gap.length_le
    have hothers := others.length_lt
    rw [List.length_cons] at hcomma
    omega
theorem Members.length_lt {cs rest : List Char} {members : List (Points × Document)} :
    Members cs members rest → rest.length < cs.length
  | .last member close => by
    have hmember := member.length_lt
    have hclose := close.length_le
    rw [List.length_cons] at hclose
    omega
  | .more member comma gap others => by
    have hmember := member.length_lt
    have hcomma := comma.length_le
    have hgap := gap.length_le
    have hothers := others.length_lt
    rw [List.length_cons] at hcomma
    omega
theorem Member.length_lt {cs rest : List Char} {m : Points × Document} :
    Member cs m rest → rest.length < cs.length
  | .mk letters colon gap value => by
    have hletters := letters.length_lt
    have hcolon := colon.length_le
    have hgap := gap.length_le
    have hvalue := value.length_lt
    rw [List.length_cons] at hcolon ⊢
    omega
end

/-- A JSON text: a value with white space around it. -/
def Spells (cs : List Char) (d : Document) : Prop :=
  ∃ start rest, Gap cs start ∧ Value start d rest ∧ Gap rest []

end Grammar

end FormFlow.Json
