import FormFlow.Json.Display
import FormFlow.Sorting

/-!
# The canonical form of a value

Two values that differ only in the order of members have one canonical form: members stand in the
order of the 16-bit units of their names, a float that is written without point and exponent becomes
the integer that it is written as, and the text has no blanks and escapes only what JSON demands.
Integers beyond the range in which doubles are exact, and floats that are not finite, have no
canonical form.

## Principal results

* `canonicalNumber_int` — an integer in the exact range is its own canonical form;
* `canonicalNumber_ok_iff_int` — exactly the integers in that range have one;
* `sortMembers_perm` — sorting members loses and adds nothing;
* `sortMembers_sorted` — and it puts their names in order.
-/

namespace FormFlow.Json

/-- Why a value has no canonical form. -/
inductive DomainError where
  | integer (n : Int)
  | float (x : Float)
deriving DecidableEq

/-- The message of a domain error; an integer with too many digits cannot be named. -/
def DomainError.message : DomainError → Except ValueError String
  | integer n => (display? (.num (.int n))).map (· ++ " exceeds safe integer domain for JSON floats")
  | float x => (display? (.num (.float x))).map (· ++ " is not representable in JCS")

/-- The greatest magnitude up to which every integer is a double. -/
def exactLimit : Int := 0x1FFFFFFFFFFFFF

/-- Canonical floats are written positionally from `0.000001` up to twenty-one digits, a whole one
without a point, zero without a sign, and otherwise with the fewest exponent digits. -/
def canonicalNotation : Decimal.Notation where
  plainFrom := -6
  plainBelow := 21
  keepsPoint := false
  exponentWidth := 1
  signsZero := false

/-- The integer that the canonical notation writes a finite float as, if it writes a whole number. -/
def wholeValue? (x : Float) : Option Int :=
  match Decimal.Parts.ofFloat x with
  | .zero _ => some 0
  | .finite negative x =>
    let d := x.shortest
    if 0 ≤ d.exponent ∧ d.exponent + (Nat.toDigits 10 d.digits).length ≤ canonicalNotation.plainBelow
    then
      let n : Int := (d.digits * Nat.pow 10 d.exponent.toNat : Nat)
      some (if negative then -n else n)
    else none
  | .infinite _ | .notANumber => none

/-- The canonical form of a number. -/
def canonicalNumber : Number → Except DomainError Number
  | .int n => if n.natAbs ≤ exactLimit.toNat then .ok (.int n) else .error (.integer n)
  | .float x =>
    if Decimal.isFinite x then
      match wholeValue? x with
      | some n => .ok (.int n)
      | none => .ok (.float x)
    else .error (.float x)

theorem canonicalNumber_int {n : Int} (h : n.natAbs ≤ exactLimit.toNat) :
    canonicalNumber (.int n) = .ok (.int n) := by
  simp [canonicalNumber, h]

theorem canonicalNumber_ok_iff_int {n : Int} :
    (∃ m, canonicalNumber (.int n) = .ok m) ↔ n.natAbs ≤ exactLimit.toNat := by
  by_cases h : n.natAbs ≤ exactLimit.toNat <;> simp [canonicalNumber, h]

/-- Members in the order of the 16-bit units of their names. -/
def sortMembers {α : Type} (members : List (String × α)) : List (String × α) :=
  sortBy (fun a b => Text.unitsLe a.1 b.1) members

theorem sortMembers_eq {α : Type} (members : List (String × α)) :
    sortMembers members = members.mergeSort fun a b => Text.unitsLe a.1 b.1 :=
  sortBy_eq_mergeSort (fun a b => Text.unitsLe_total a.1 b.1) (fun a b c => Text.unitsLe_trans a.1 b.1 c.1) _

theorem sortMembers_perm {α : Type} (members : List (String × α)) :
    (sortMembers members).Perm members := by
  rw [sortMembers_eq]
  exact List.mergeSort_perm _ _

theorem sortMembers_sorted {α : Type} (members : List (String × α)) :
    (Table.keys (sortMembers members)).Pairwise fun a b => Text.unitsLe a b = true := by
  rw [sortMembers_eq]
  exact List.pairwise_map.2 (List.pairwise_mergeSort (fun a b c => Text.unitsLe_trans a.1 b.1 c.1)
    (fun a b => Bool.or_eq_true_iff.2 (Text.unitsLe_total a.1 b.1)) members)

theorem sortMembers_map {α β : Type} (f : α → β) (members : List (String × α)) :
    sortMembers (members.map fun m => (m.1, f m.2)) = (sortMembers members).map fun m => (m.1, f m.2) := by
  rw [sortMembers_eq, sortMembers_eq, List.map_mergeSort]
  exact fun _ _ _ _ => rfl

/-- All results of a list, or the first error in it. -/
def firstError {ε α : Type} : List (Except ε α) → Except ε (List α)
  | [] => .ok []
  | .error e :: _ => .error e
  | .ok a :: rest => (firstError rest).map (a :: ·)

mutual
/-- The canonical form of a value; of several faults the first in canonical order is reported. -/
def canonical? : Json → Except DomainError Json
  | null => .ok null
  | bool b => .ok (bool b)
  | str s => .ok (str s)
  | num n => (canonicalNumber n).map num
  | arr items => (firstError (canonicalItems items)).map arr
  | obj members =>
    (firstError ((sortMembers (canonicalMembers members)).map fun m => m.2.map (m.1, ·))).map obj
/-- The canonical form of each item. -/
def canonicalItems : List Json → List (Except DomainError Json)
  | [] => []
  | v :: items => canonical? v :: canonicalItems items
/-- The canonical form of each member, still in the order given. -/
def canonicalMembers : List (String × Json) → List (String × Except DomainError Json)
  | [] => []
  | (k, v) :: members => (k, canonical? v) :: canonicalMembers members
end

/-- A character in canonical text: short escapes, units for other control characters, everything
else as it is. -/
def escapeCanonical (c : Char) : List Char :=
  match shortEscape? c with
  | some e => ['\\', e]
  | none => if c.toNat < 0x20 then unitEscape c.toNat else [c]

/-- No blanks, the fewest escapes. -/
def compact : Style where
  inside _ := []
  afterComma _ := []
  afterColon := []
  escape := escapeCanonical
  float x := (canonicalNotation.write? x).getD []

/-- The canonical text of a value. -/
def canonicalText (v : Json) : Except DomainError String := (canonical? v).map (render compact)

/-- The canonical form on indented lines, with a line end after the last. -/
def prettyText (v : Json) : Except DomainError String :=
  (canonical? v).map fun v => render indented v ++ "\n"

end FormFlow.Json
