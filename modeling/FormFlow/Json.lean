import FormFlow.Table

/-!
# JSON values

A JSON number is an unbounded integer or a double-precision float, and the two are never equal, not
even `1` and `1.0`.  An object keeps its members in order; the functions of this library build
objects with distinct keys only.

## Principal results

* decidable equality of values, members in order;
* `Json.size_pos`, `Json.size_lt_of_mem` — the size that bounds recursion over a value is positive, and
  a member has less of it;
* `Json.valueInduction` — induction through the items of arrays and the members of objects;
* `Json.Distinct.of_mem`, `Json.Distinct.of_mem_items` — distinct keys throughout a value are distinct
  keys throughout its members and items.
-/

namespace FormFlow

/-- A number: an unbounded integer or a double-precision float. -/
inductive Number where
  | int (value : Int)
  | float (value : Float)
deriving DecidableEq, Inhabited

/-- A JSON value. -/
inductive Json where
  | null
  | bool (value : Bool)
  | num (value : Number)
  | str (value : String)
  | arr (items : List Json)
  | obj (members : List (String × Json))
deriving Inhabited

namespace Json

/-- The value of a member, if the value is an object that has it. -/
def get? : Json → String → Option Json
  | obj members, key => Table.get? members key
  | _, _ => none

/-- An integer as a value. -/
def ofInt (n : Int) : Json := num (.int n)

/-- A natural number as a value. -/
def ofNat (n : Nat) : Json := num (.int n)

/-- A float as a value. -/
def ofFloat (x : Float) : Json := num (.float x)

/-- Strings as an array. -/
def ofStrings (ss : List String) : Json := arr (ss.map str)

/-! ## Size -/

mutual
/-- The number of values inside a value, itself included. -/
def size : Json → Nat
  | arr items => 1 + sizeItems items
  | obj members => 1 + sizeMembers members
  | _ => 1
/-- The size of the items of an array. -/
def sizeItems : List Json → Nat
  | [] => 0
  | v :: items => size v + sizeItems items
/-- The size of the members of an object. -/
def sizeMembers : List (String × Json) → Nat
  | [] => 0
  | (_, v) :: members => size v + sizeMembers members
end

theorem size_pos (v : Json) : 0 < v.size := by
  cases v <;> unfold size <;> exact Nat.lt_of_lt_of_le Nat.one_pos (by simp)

theorem size_lt_of_mem {members : List (String × Json)} {k : String} {v : Json}
    (h : (k, v) ∈ members) : v.size < (obj members).size := by
  rw [size]
  induction members with
  | nil => cases h
  | cons m members ih =>
    obtain ⟨l, w⟩ := m
    rw [sizeMembers]
    rcases List.mem_cons.1 h with heq | h
    · cases heq
      omega
    · have := ih h
      omega

theorem size_lt_of_mem_items {items : List Json} {v : Json} (h : v ∈ items) :
    v.size < (arr items).size := by
  rw [size]
  induction items with
  | nil => cases h
  | cons w items ih =>
    rw [sizeItems]
    rcases List.mem_cons.1 h with rfl | h
    · omega
    · have := ih h
      omega

/-- Induction over a value, through the items of its arrays and the members of its objects. -/
@[elab_as_elim]
theorem valueInduction {P : Json → Prop} (null : P null) (bool : ∀ b, P (bool b))
    (num : ∀ n, P (num n)) (str : ∀ s, P (str s))
    (arr : ∀ items, (∀ v ∈ items, P v) → P (arr items))
    (obj : ∀ members, (∀ m ∈ members, P m.2) → P (obj members)) (v : Json) : P v :=
  match v with
  | .null => null
  | .bool b => bool b
  | .num n => num n
  | .str s => str s
  | .arr items => arr items fun v _ => valueInduction null bool num str arr obj v
  | .obj members => obj members fun m _ => valueInduction null bool num str arr obj m.2
termination_by v.size
decreasing_by
  · exact size_lt_of_mem_items ‹_›
  · exact size_lt_of_mem (k := m.1) ‹_›

/-! ## Distinct keys -/

mutual
/-- No object inside a value repeats a key. -/
def Distinct : Json → Prop
  | arr items => DistinctItems items
  | obj members => (Table.keys members).Nodup ∧ DistinctMembers members
  | _ => True
/-- No object inside the items of an array repeats a key. -/
def DistinctItems : List Json → Prop
  | [] => True
  | v :: items => Distinct v ∧ DistinctItems items
/-- No object inside the members of an object repeats a key. -/
def DistinctMembers : List (String × Json) → Prop
  | [] => True
  | (_, v) :: members => Distinct v ∧ DistinctMembers members
end

theorem Distinct.of_mem {members : List (String × Json)} {k : String} {v : Json}
    (h : (obj members).Distinct) (hm : (k, v) ∈ members) : v.Distinct := by
  rw [Distinct] at h
  replace h := h.2
  induction members with
  | nil => cases hm
  | cons m members ih =>
    obtain ⟨l, w⟩ := m
    rw [DistinctMembers] at h
    rcases List.mem_cons.1 hm with heq | hm
    · cases heq
      exact h.1
    · exact ih hm h.2

theorem Distinct.of_mem_items {items : List Json} {v : Json} (h : (arr items).Distinct)
    (hv : v ∈ items) : v.Distinct := by
  rw [Distinct] at h
  induction items with
  | nil => cases hv
  | cons w items ih =>
    rw [DistinctItems] at h
    rcases List.mem_cons.1 hv with rfl | hv
    · exact h.1
    · exact ih h.2 hv

mutual
/-- Decide whether keys are distinct throughout a value. -/
def decDistinct : (v : Json) → Decidable v.Distinct
  | arr items =>
    have := decDistinctItems items
    decidable_of_iff (DistinctItems items) (by rw [Distinct])
  | obj members =>
    have := decDistinctMembers members
    decidable_of_iff ((Table.keys members).Nodup ∧ DistinctMembers members) (by rw [Distinct])
  | null | bool _ | num _ | str _ => isTrue trivial
/-- Decide whether keys are distinct throughout the items of an array. -/
def decDistinctItems : (items : List Json) → Decidable (DistinctItems items)
  | [] => isTrue trivial
  | v :: items =>
    have := decDistinct v
    have := decDistinctItems items
    decidable_of_iff (Distinct v ∧ DistinctItems items) (by rw [DistinctItems])
/-- Decide whether keys are distinct throughout the members of an object. -/
def decDistinctMembers : (members : List (String × Json)) → Decidable (DistinctMembers members)
  | [] => isTrue trivial
  | (_, v) :: members =>
    have := decDistinct v
    have := decDistinctMembers members
    decidable_of_iff (Distinct v ∧ DistinctMembers members) (by rw [DistinctMembers])
end

instance (v : Json) : Decidable v.Distinct := decDistinct v

/-! ## Equality -/

mutual
/-- Decide whether two values are equal. -/
def decEq : (v w : Json) → Decidable (v = w)
  | null, null => isTrue rfl
  | bool a, bool b => decidable_of_iff (a = b) (by simp)
  | num a, num b => decidable_of_iff (a = b) (by simp)
  | str a, str b => decidable_of_iff (a = b) (by simp)
  | arr a, arr b =>
    have := decEqItems a b
    decidable_of_iff (a = b) (by simp)
  | obj a, obj b =>
    have := decEqMembers a b
    decidable_of_iff (a = b) (by simp)
  | null, bool _ | null, num _ | null, str _ | null, arr _ | null, obj _ => isFalse (by simp)
  | bool _, null | bool _, num _ | bool _, str _ | bool _, arr _ | bool _, obj _ => isFalse (by simp)
  | num _, null | num _, bool _ | num _, str _ | num _, arr _ | num _, obj _ => isFalse (by simp)
  | str _, null | str _, bool _ | str _, num _ | str _, arr _ | str _, obj _ => isFalse (by simp)
  | arr _, null | arr _, bool _ | arr _, num _ | arr _, str _ | arr _, obj _ => isFalse (by simp)
  | obj _, null | obj _, bool _ | obj _, num _ | obj _, str _ | obj _, arr _ => isFalse (by simp)
/-- Decide whether two arrays have equal items. -/
def decEqItems : (vs ws : List Json) → Decidable (vs = ws)
  | [], [] => isTrue rfl
  | [], _ :: _ | _ :: _, [] => isFalse (by simp)
  | v :: vs, w :: ws =>
    have := decEq v w
    have := decEqItems vs ws
    decidable_of_iff (v = w ∧ vs = ws) (by simp)
/-- Decide whether two objects have equal members in the same order. -/
def decEqMembers : (ms ns : List (String × Json)) → Decidable (ms = ns)
  | [], [] => isTrue rfl
  | [], _ :: _ | _ :: _, [] => isFalse (by simp)
  | (k, v) :: ms, (l, w) :: ns =>
    have := decEq v w
    have := decEqMembers ms ns
    decidable_of_iff (k = l ∧ v = w ∧ ms = ns) (by simp [and_assoc])
end

instance : DecidableEq Json := decEq

end Json

end FormFlow
