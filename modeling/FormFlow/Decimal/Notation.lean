import FormFlow.Decimal.Shortest

/-!
# Writing floats

A notation is the set of decisions that turn the shortest decimal of a double into text: between
which exponents the number is written positionally, whether a whole number keeps a point, how wide
an exponent is and whether zero keeps its sign.

## Principal results

* `Parts.mantissa_pos` — what is not zero has a positive magnitude.
-/

namespace FormFlow.Decimal

/-- The decisions of a written form. -/
structure Notation where
  /-- The least exponent of the leading digit that is written positionally. -/
  plainFrom : Int
  /-- The least exponent above it that is not. -/
  plainBelow : Int
  /-- A whole number ends in `.0`. -/
  keepsPoint : Bool
  /-- The least number of exponent digits. -/
  exponentWidth : Nat
  /-- A negative zero keeps its sign. -/
  signsZero : Bool

/-- Digits with a point after the first `whole` of them, padded with zeros where digits are missing. -/
def place (digits : List Char) (whole : Int) : List Char × List Char :=
  if whole ≤ 0 then (['0'], List.replicate (-whole).toNat '0' ++ digits)
  else (digits.take whole.toNat ++ List.replicate (whole.toNat - digits.length) '0',
    digits.drop whole.toNat)

/-- An exponent: its sign, then its digits padded to a width. -/
def exponentText (width : Nat) (e : Int) : List Char :=
  let ds := Nat.toDigits 10 e.natAbs
  ['e', if e < 0 then '-' else '+'] ++ List.replicate (width - ds.length) '0' ++ ds

/-- A positive decimal in a notation. -/
def Notation.layout (n : Notation) (d : Figure) : List Char :=
  let ds := Nat.toDigits 10 d.digits
  let e := d.exponent + ds.length - 1
  if n.plainFrom ≤ e ∧ e < n.plainBelow then
    let (whole, part) := place ds (e + 1)
    if part.isEmpty then whole ++ (if n.keepsPoint then ['.', '0'] else []) else whole ++ '.' :: part
  else
    let (whole, part) := place ds 1
    whole ++ (if part.isEmpty then [] else '.' :: part) ++ exponentText n.exponentWidth e

/-- A double, together with its sign: positive zero, negative zero, a magnitude, or not finite. -/
inductive Parts where
  | zero (negative : Bool)
  | finite (negative : Bool) (magnitude : Binary)
  | infinite (negative : Bool)
  | notANumber

/-- Take a double apart. -/
def Parts.ofFloat (x : Float) : Parts :=
  let bits := x.toBits
  let negative := bits >>> 63 == 1
  if (bits >>> 52) &&& 0x7FF == 0x7FF then
    if bits &&& 0xFFFFFFFFFFFFF == 0 then .infinite negative else .notANumber
  else if bits <<< 1 == 0 then .zero negative
  else .finite negative (.ofBits bits)

/-- A double that is not zero has a positive magnitude. -/
theorem Parts.mantissa_pos {x : Float} {negative : Bool} {m : Binary} (h : Parts.ofFloat x = .finite negative m) :
    0 < m.mantissa := by
  unfold Parts.ofFloat at h
  dsimp only at h
  split at h
  · split at h <;> cases h
  · split at h
    · cases h
    · rename_i hzero
      cases h
      unfold Binary.ofBits
      dsimp only
      split
      · rename_i hexponent
        dsimp only
        refine Nat.pos_of_ne_zero fun hmantissa => hzero (beq_iff_eq.2 ?_)
        have hlow : x.toBits.toNat % 2 ^ 52 = 0 := by
          rw [← Nat.and_two_pow_sub_one_eq_mod]
          exact hmantissa
        have hhigh : x.toBits.toNat / 2 ^ 52 % 2 ^ 11 = 0 := by
          rw [← Nat.and_two_pow_sub_one_eq_mod, ← Nat.shiftRight_eq_div_pow]
          exact hexponent
        have hlt := x.toBits.toNat_lt
        refine UInt64.toNat_inj.1 ?_
        change x.toBits.toNat <<< 1 % 2 ^ 64 = 0
        rw [Nat.shiftLeft_eq]
        omega
      · exact Nat.add_pos_left (by decide) _

/-- A double that is neither infinite nor the result of an undefined operation. -/
def isFinite (x : Float) : Bool :=
  match Parts.ofFloat x with
  | .zero _ | .finite _ _ => true
  | .infinite _ | .notANumber => false

/-- A finite double in a notation; what is not finite has no decimal form. -/
def Notation.write? (n : Notation) (x : Float) : Option (List Char) :=
  let sign (negative : Bool) : List Char := if negative then ['-'] else []
  match Parts.ofFloat x with
  | .zero negative =>
    some (sign (negative && n.signsZero) ++ (if n.keepsPoint then ['0', '.', '0'] else ['0']))
  | .finite negative x => some (sign negative ++ n.layout x.shortest)
  | .infinite _ | .notANumber => none

/-- Read a decimal: the double nearest to `digits · 10 ^ exponent`, a tie going to the even one. -/
def nearest (negative : Bool) (digits : Nat) (exponent : Int) : Float :=
  let x := Float.ofScientific digits (exponent < 0) exponent.natAbs
  if negative then -x else x

end FormFlow.Decimal
