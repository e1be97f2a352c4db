import FormFlow.Decimal.Notation
import FormFlow.Schema
import FormFlow.Text.Integer

/-!
# Reading scalars

Strings are read strictly.  Integers, numbers and booleans are read leniently: from one another where
nothing is lost, and from text.

## Principal results

* `readText_ok_iff` — exactly the non-empty strings are read as names.
-/

namespace FormFlow.Schema

/-- A string, without conversion. -/
def readString : Json → Checked String
  | .str s => .ok s
  | _ => .fail .notString

/-- A string that is not empty. -/
def readText (v : Json) : Checked String :=
  (readString v).andThen fun s => if s = "" then .fail (.textTooShort 1) else .ok s

theorem readText_ok_iff {v : Json} {s : String} : readText v = .ok s ↔ v = .str s ∧ s ≠ "" := by
  unfold readText
  cases v <;> simp only [readString, Checked.andThen, Checked.fail, reduceCtorEq, false_and,
    Json.str.injEq]
  split <;> simp_all
  rintro rfl
  assumption

/-! ## Integers -/

/-- The most characters of an integer written as text. -/
def integerTextLimit : Nat := 4300

/-- An integer from text: white space around it, a sign and digits, single underscores between digits,
and no fraction but zeros. -/
def integerOfText (s : String) : Checked Int :=
  let cs := Text.trimWhere Text.isSpace s.toList
  let whole := cs.takeWhile (· ≠ '.')
  let wholeNumber :=
    match cs.dropWhile (· ≠ '.') with
    | [] => true
    | _ :: zeros => !zeros.isEmpty && zeros.all (· = '0')
  match if wholeNumber then Text.readInt? Text.asciiDigit? whole else none with
  | some n => if integerTextLimit < whole.length then .fail .integerTextSize else .ok n
  | none => .fail .integerText

/-- The exact integer that a finite float is, if it is one. -/
def exactInteger? (x : Float) : Option Int :=
  match Decimal.Parts.ofFloat x with
  | .zero _ => some 0
  | .finite negative b =>
    let below := Nat.pow 2 (-b.exponent).toNat
    let n := b.mantissa * Nat.pow 2 b.exponent.toNat / below
    if b.mantissa % below = 0 then some (if negative then -n else n) else none
  | .infinite _ | .notANumber => none

/-- The least magnitude that does not fit sixty-four bits with a sign. -/
def signedLimit : Nat := 0x8000000000000000

/-- An integer from a float without fraction, within sixty-four bits. -/
def integerOfFloat (x : Float) : Checked Int :=
  if Decimal.isFinite x then
    match exactInteger? x with
    | some n => if n.natAbs < signedLimit then .ok n else .fail .integerTextSize
    | none => .fail .fractional
  else .fail .notFinite

/-- An integer. -/
def readInteger : Json → Checked Int
  | .num (.int n) => .ok n
  | .bool b => .ok (if b then 1 else 0)
  | .num (.float x) => integerOfFloat x
  | .str s => integerOfText s
  | _ => .fail .notInteger

/-- An integer that is not negative. -/
def readCount (v : Json) : Checked Nat :=
  (readInteger v).andThen fun n => if n < 0 then .fail (.belowBound 0) else .ok n.toNat

/-- An integer above zero. -/
def readPositive (v : Json) : Checked Nat :=
  (readInteger v).andThen fun n => if n ≤ 0 then .fail (.notAbove 0) else .ok n.toNat

/-! ## Numbers -/

/-- Digits that may be absent altogether. -/
def optionalDigits? : List Char → Option (List Nat)
  | [] => some []
  | cs => Text.ungroup Text.asciiDigit? false cs

/-- A decimal number without sign: digits with an optional point among or beside them, and an
optional exponent. -/
def magnitudeOfText? (negative : Bool) (cs : List Char) : Option Float := do
  let isMark (c : Char) := c = 'e' || c = 'E'
  let mantissa := cs.takeWhile (!isMark ·)
  let exponent ← match cs.dropWhile (!isMark ·) with
    | [] => some 0
    | _ :: digits => Text.readInt? Text.asciiDigit? digits
  let whole ← optionalDigits? (mantissa.takeWhile (· ≠ '.'))
  let part ← optionalDigits? ((mantissa.dropWhile (· ≠ '.')).drop 1)
  let digits := whole ++ part
  if digits.isEmpty then none
  else some (Decimal.nearest negative (Text.ofDigits digits) (exponent - part.length))

/-- Not a number. -/
def notANumber : Float := .ofBits 0x7FF8000000000000

/-- Infinity of a sign. -/
def infinity (negative : Bool) : Float :=
  .ofBits (if negative then 0xFFF0000000000000 else 0x7FF0000000000000)

/-- A number from text with white space around it: a decimal, or one of the names of infinity and of the
undefined result. -/
def numberOfText (s : String) : Checked Float :=
  let (negative, body) := Text.splitSign (Text.trimWhere Text.isSpace s.toList)
  let name := String.ofList (body.map Char.toLower)
  if name = "inf" ∨ name = "infinity" then .ok (infinity negative)
  else if name = "nan" then .ok notANumber
  else
    match magnitudeOfText? negative body with
    | some x => .ok x
    | none => .fail .numberText

/-- A number; an integer too large for a double is none. -/
def readNumber : Json → Checked Float
  | .num (.float x) => .ok x
  | .num (.int n) =>
    let x := Decimal.nearest (n < 0) n.natAbs 0
    if Decimal.isFinite x then .ok x else .fail .notNumber
  | .bool b => .ok (if b then 1 else 0)
  | .str s => numberOfText s
  | _ => .fail .notNumber

/-- A sampling temperature, from 0 to 2. -/
def readTemperature (v : Json) : Checked Float :=
  (readNumber v).andThen fun x =>
    if ¬ x ≤ 2 then .fail (.aboveBound 2) else if ¬ 0 ≤ x then .fail (.belowBound 0) else .ok x

/-! ## Booleans -/

/-- The words for each boolean, in lowercase. -/
def booleanWords : List (String × Bool) :=
  [("0", false), ("off", false), ("f", false), ("false", false), ("n", false), ("no", false),
   ("1", true), ("on", true), ("t", true), ("true", true), ("y", true), ("yes", true)]

/-- A boolean from a word in any ASCII case. -/
def booleanOfText (s : String) : Checked Bool :=
  match Table.get? booleanWords (String.ofList (s.toList.map Char.toLower)) with
  | some b => .ok b
  | none => .fail .booleanText

/-- A boolean from zero or one; any other integer of sixty-four bits is a failed reading, and a larger
one is no boolean at all. -/
def booleanOfInteger (n : Int) : Checked Bool :=
  if n = 0 then .ok false
  else if n = 1 then .ok true
  else if n < signedLimit ∧ -signedLimit ≤ n then .fail .booleanText
  else .fail .notBoolean

/-- A boolean. -/
def readBoolean : Json → Checked Bool
  | .bool b => .ok b
  | .num (.int n) => booleanOfInteger n
  | .num (.float x) =>
    match exactInteger? x with
    | some n => booleanOfInteger n
    | none => .fail .notBoolean
  | .str s => booleanOfText s
  | _ => .fail .notBoolean

end FormFlow.Schema
