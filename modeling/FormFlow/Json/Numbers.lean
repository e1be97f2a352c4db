import FormFlow.Json
import FormFlow.Text.Integer

/-!
# The numbers inside a value

Only numbers stand in the way of writing a value.  An integer has a text if it has no more digits than a text
may have; every other number has one.  A value is `Writable` if all numbers inside it have a text.

An operation on texts that refuses a value does so with a `ValueError`.

## Principal results

* `mem_numbers_arr`, `mem_numbers_obj` — the numbers inside arrays and objects;
* `writable_arr`, `writable_obj` — which arrays and objects are writable.
-/

namespace FormFlow

/-- Why an operation on texts refuses a value. -/
inductive ValueError where
  /-- An integer has more digits than a text may have. -/
  | longInteger
  /-- The name of a type holds a null character. -/
  | nullName
deriving DecidableEq

/-- The wording of a refusal. -/
def ValueError.message : ValueError → String
  | longInteger =>
    s!"Exceeds the limit ({digitLimit} digits) for integer string conversion; " ++
      "use sys.set_int_max_str_digits() to increase the limit"
  | nullName => "type name must not contain null characters"

/-- A number that has a text. -/
def Number.isWritable : Number → Bool
  | .int n => decide ((Nat.toDigits 10 n.natAbs).length ≤ digitLimit)
  | .float _ => true

namespace Json

mutual
/-- The numbers inside a value, in order. -/
def numbers : Json → List Number
  | num n => [n]
  | arr items => numbersOfItems items
  | obj members => numbersOfMembers members
  | _ => []
/-- The numbers inside the items of an array. -/
def numbersOfItems : List Json → List Number
  | [] => []
  | v :: items => numbers v ++ numbersOfItems items
/-- The numbers inside the members of an object. -/
def numbersOfMembers : List (String × Json) → List Number
  | [] => []
  | (_, v) :: members => numbers v ++ numbersOfMembers members
end

@[simp] theorem mem_numbers_arr {items : List Json} {n : Number} :
    n ∈ (arr items).numbers ↔ ∃ v ∈ items, n ∈ v.numbers := by
  rw [numbers]
  induction items with
  | nil => simp [numbersOfItems]
  | cons v items ih => simp [numbersOfItems, ih]

@[simp] theorem mem_numbers_obj {members : List (String × Json)} {n : Number} :
    n ∈ (obj members).numbers ↔ ∃ m ∈ members, n ∈ m.2.numbers := by
  rw [numbers]
  induction members with
  | nil => simp [numbersOfMembers]
  | cons m members ih =>
    obtain ⟨k, v⟩ := m
    rw [numbersOfMembers, List.mem_append, ih]
    simp

theorem forall_numbers_arr {P : Number → Prop} {items : List Json} :
    (∀ n ∈ (arr items).numbers, P n) ↔ ∀ v ∈ items, ∀ n ∈ v.numbers, P n := by
  simp only [mem_numbers_arr]
  exact ⟨fun h v hv n hn => h n ⟨v, hv, hn⟩, fun h n ⟨v, hv, hn⟩ => h v hv n hn⟩

theorem forall_numbers_obj {P : Number → Prop} {members : List (String × Json)} :
    (∀ n ∈ (obj members).numbers, P n) ↔ ∀ m ∈ members, ∀ n ∈ m.2.numbers, P n := by
  simp only [mem_numbers_obj]
  exact ⟨fun h m hm n hn => h n ⟨m, hm, hn⟩, fun h n ⟨m, hm, hn⟩ => h m hm n hn⟩

@[simp] theorem numbers_null : null.numbers = [] := rfl

@[simp] theorem numbers_bool (b : Bool) : (bool b).numbers = [] := rfl

@[simp] theorem numbers_str (s : String) : (str s).numbers = [] := rfl

@[simp] theorem numbers_num (n : Number) : (num n).numbers = [n] := rfl

/-! ## Values that have a text -/

/-- Every number inside a value has a text. -/
def Writable (v : Json) : Prop := ∀ n ∈ v.numbers, n.isWritable = true

instance (v : Json) : Decidable v.Writable :=
  inferInstanceAs (Decidable (∀ n ∈ v.numbers, n.isWritable = true))

@[simp] theorem writable_str (s : String) : (str s).Writable := by simp [Writable]

theorem writable_arr {items : List Json} : (arr items).Writable ↔ ∀ v ∈ items, v.Writable := forall_numbers_arr

theorem writable_obj {members : List (String × Json)} :
    (obj members).Writable ↔ ∀ m ∈ members, m.2.Writable :=
  forall_numbers_obj

end Json

end FormFlow
