import FormFlow.Proofs.Overflow
import FormFlow.Proofs.Rereading

/-!
# Which answers hold finite numbers

The names of the infinities are refused in an answer.  A literal of a number too large for a double is not, and is
read as an infinity.  Of a name that an object repeats only the last member counts, so that such a literal may be
read and yet be left out of the value.

## Principal results

* `Literal.isFinite_number_iff` — a literal writes a finite number exactly if it is not too large;
* `Document.mem_numbers_value` — the numbers of a document's value are those of the literals that count;
* `Document.writable_value` — what is read has a text.
-/

namespace FormFlow.Json

/-! ## Literals -/

namespace Literal

variable {l : Literal}

/-- A literal is read as a double, and too large for one. -/
def Overflows (l : Literal) : Prop := ¬ l.IsInteger ∧ l.figure.Overflows

instance (l : Literal) : Decidable l.Overflows := inferInstanceAs (Decidable (_ ∧ _))

/-- A literal that is too large is read as an infinity with its sign. -/
theorem number_of_overflows (h : l.Overflows) :
    ∃ x, l.number = .float x ∧ Decimal.Parts.ofFloat x = .infinite l.negative := by
  rw [number, if_neg h.1]
  exact ⟨_, rfl, Decimal.nearest_of_overflows h.2 l.negative⟩

/-- **A literal writes a finite number exactly if it is not too large.** -/
theorem isFinite_number_iff : l.number.isFinite = true ↔ ¬ l.Overflows := by
  unfold number Overflows
  split
  · rename_i hinteger
    exact iff_of_true rfl fun h => h.1 hinteger
  · rename_i hinteger
    exact Decimal.isFinite_nearest_iff.trans ⟨fun h hover => h hover.2, fun h hover => h ⟨hinteger, hover⟩⟩

end Literal

/-- Digits write a number with no more digits. -/
theorem ofDigitChars_lt {cs : List Char} (h : ∀ c ∈ cs, c.isDigit = true) :
    Nat.ofDigitChars 10 cs 0 < 10 ^ cs.length := by
  induction cs with
  | nil => decide
  | cons c cs ih =>
    obtain ⟨hc, hcs⟩ := List.forall_mem_cons.1 h
    have hdigit : c.toNat - '0'.toNat ≤ 9 := by
      simp only [Char.isDigit, Bool.and_eq_true, decide_eq_true_eq] at hc
      have hle : c.toNat ≤ 57 := hc.2
      have hzero : '0'.toNat = 48 := rfl
      omega
    rw [Nat.ofDigitChars_cons, Nat.mul_zero, Nat.zero_add, Nat.ofDigitChars_eq_ofDigitChars_zero, List.length_cons,
      Nat.pow_succ]
    have hrest := ih hcs
    have hfirst := Nat.mul_le_mul_left (10 ^ cs.length) hdigit
    omega

/-- The number of a short literal has a text. -/
theorem Literal.isWritable_number {l : Literal} (h : l.Short) : l.number.isWritable = true := by
  unfold number
  split
  · rename_i hinteger
    refine decide_eq_true ?_
    have hpos := List.length_pos_iff.2 l.whole.ne_nil
    have habs : (if l.negative = true then -(Nat.ofDigitChars 10 l.whole.text 0 : Int)
        else Nat.ofDigitChars 10 l.whole.text 0).natAbs = Nat.ofDigitChars 10 l.whole.text 0 := by
      split <;> simp
    rw [habs]
    exact Nat.le_trans ((Nat.length_toDigits_le_iff (by decide) hpos).2 (ofDigitChars_lt l.whole.digits)) (h hinteger)
  · rfl

/-! ## The numbers that are read -/

namespace Reading

mutual
/-- The numbers inside what was read, in order. -/
def numbers : Reading → List Number
  | num n => [n]
  | arr items => numbersOfItems items
  | obj members => numbersOfMembers members
  | _ => []
/-- The numbers inside the items of an array. -/
def numbersOfItems : List Reading → List Number
  | [] => []
  | r :: items => numbers r ++ numbersOfItems items
/-- The numbers inside the members of an object. -/
def numbersOfMembers : List (Points × Reading) → List Number
  | [] => []
  | (_, r) :: members => numbers r ++ numbersOfMembers members
end

theorem mem_numbers_arr {items : List Reading} {n : Number} :
    n ∈ (arr items).numbers ↔ ∃ r ∈ items, n ∈ r.numbers := by
  rw [numbers]
  induction items with
  | nil => simp [numbersOfItems]
  | cons r items ih => simp [numbersOfItems, ih]

theorem mem_numbers_obj {members : List (Points × Reading)} {n : Number} :
    n ∈ (obj members).numbers ↔ ∃ m ∈ members, n ∈ m.2.numbers := by
  rw [numbers]
  induction members with
  | nil => simp [numbersOfMembers]
  | cons m members ih =>
    obtain ⟨name, r⟩ := m
    rw [numbersOfMembers, List.mem_append, ih]
    simp

mutual
/-- The value that is made of what was read has the same numbers. -/
theorem numbers_toJson : (r : Reading) → r.toJson.numbers = r.numbers
  | null | bool _ | num _ | str _ => rfl
  | arr items => numbers_itemsToJson items
  | obj members => numbers_membersToJson members
theorem numbers_itemsToJson : (items : List Reading) →
    Json.numbersOfItems (itemsToJson items) = numbersOfItems items
  | [] => rfl
  | r :: items => by
    rw [itemsToJson, Json.numbersOfItems, numbersOfItems, numbers_toJson r, numbers_itemsToJson items]
theorem numbers_membersToJson : (members : List (Points × Reading)) →
    Json.numbersOfMembers (membersToJson members) = numbersOfMembers members
  | [] => rfl
  | (_, r) :: members => by
    rw [membersToJson, Json.numbersOfMembers, numbersOfMembers, numbers_toJson r,
      numbers_membersToJson members]
end

end Reading

/-! ## Documents -/

namespace Document

mutual
/-- The literals that count in the value of a document: not those of a member whose name comes once more. -/
def kept : Document → List Literal
  | num l => [l]
  | arr items => keptOfItems items
  | obj members => keptOfMembers members
  | _ => []
/-- The literals that count in the items of an array. -/
def keptOfItems : List Document → List Literal
  | [] => []
  | d :: items => kept d ++ keptOfItems items
/-- The literals that count in the members of an object. -/
def keptOfMembers : List (Points × Document) → List Literal
  | [] => []
  | (name, d) :: members => (if name ∈ members.map Prod.fst then [] else kept d) ++ keptOfMembers members
end

mutual
/-- **The numbers of a document's value are those of the literals that count.** -/
theorem mem_numbers_value (n : Number) : (d : Document) → n ∈ d.value.numbers ↔ ∃ l ∈ d.kept, l.number = n
  | null | bool _ | str _ => by simp [value, kept, Reading.numbers]
  | num l => by simp [value, kept, Reading.numbers, eq_comm]
  | arr items => by
    rw [value, kept, Reading.mem_numbers_arr]
    exact mem_numbers_valueItems n items
  | obj members => by
    rw [value, kept, Reading.mem_numbers_obj]
    exact mem_numbers_valueMembers n members
theorem mem_numbers_valueItems (n : Number) : (items : List Document) →
    (∃ v ∈ valueItems items, n ∈ v.numbers) ↔ ∃ l ∈ keptOfItems items, l.number = n
  | [] => by simp [valueItems, keptOfItems]
  | d :: items => by
    rw [valueItems, keptOfItems, List.exists_mem_cons_iff, mem_numbers_value n d, mem_numbers_valueItems n items]
    simp only [List.mem_append, or_and_right, exists_or]
theorem mem_numbers_valueMembers (n : Number) : (members : List (Points × Document)) →
    (∃ m ∈ Table.ofPairs (valueMembers members), n ∈ m.2.numbers) ↔
      ∃ l ∈ keptOfMembers members, l.number = n
  | [] => by simp [valueMembers, keptOfMembers, Table.ofPairs, Table.merge]
  | (k, d) :: members => by
    have hd := mem_numbers_value n d
    have hmembers := mem_numbers_valueMembers n members
    have hkeys : (valueMembers members).map Prod.fst = members.map Prod.fst := by
      rw [valueMembers_eq, List.map_map]
      rfl
    simp only [valueMembers, keptOfMembers, Table.mem_ofPairs_cons, hkeys, List.mem_append, or_and_right,
      exists_or]
    rw [hmembers]
    by_cases hk : k ∈ members.map Prod.fst
    · simp [hk]
    · simp [hk, hd]
end

mutual
theorem mem_literals_of_mem_kept {l : Literal} : (d : Document) → l ∈ d.kept → l ∈ d.literals
  | null, h | bool _, h | str _, h => nomatch h
  | num _, h => h
  | arr items, h => mem_literals_of_mem_keptOfItems items h
  | obj members, h => mem_literals_of_mem_keptOfMembers members h
theorem mem_literals_of_mem_keptOfItems {l : Literal} : (items : List Document) → l ∈ keptOfItems items →
    l ∈ literalsOfItems items
  | [], h => h
  | d :: items, h => List.mem_append.2 <| (List.mem_append.1 h).imp (mem_literals_of_mem_kept d)
      (mem_literals_of_mem_keptOfItems items)
theorem mem_literals_of_mem_keptOfMembers {l : Literal} : (members : List (Points × Document)) →
    l ∈ keptOfMembers members → l ∈ literalsOfMembers members
  | [], h => h
  | (k, d) :: members, h => by
    refine List.mem_append.2 ((List.mem_append.1 h).imp (fun h => ?_) (mem_literals_of_mem_keptOfMembers members))
    split at h
    · cases h
    · exact mem_literals_of_mem_kept d h
end

/-- What is read has a text. -/
theorem writable_value {d : Document} (h : d.Short) : d.value.toJson.Writable := by
  intro n hn
  obtain ⟨l, hl, rfl⟩ := (mem_numbers_value n d).1 (d.value.numbers_toJson ▸ hn)
  exact Literal.isWritable_number (h l (mem_literals_of_mem_kept d hl))

end Document

end FormFlow.Json
