import FormFlow.App.Writing
import FormFlow.Json.Canonical
import FormFlow.Json.Numbers

/-!
# Finite and canonical numbers

A value has a canonical form exactly when each number inside it has one, and writing keeps a value as it is when
every number inside it is finite.

## Principal results

* `finite_finitePart`, `finitePart_of_finite` — what is written has finite numbers, and keeps a value that
  has;
* `canonical?_error`, `canonical?_ok_iff` — what a value without a canonical form holds, and which values
  have one;
* `finite_of_le` — the floats from 0 to 2 are finite.
-/

namespace FormFlow

/-- A number that is no infinity, and not undefined. -/
def Number.isFinite : Number → Bool
  | .int _ => true
  | .float x => Decimal.isFinite x

namespace Json

theorem not_mem_numbers_ofStrings {ss : List String} {n : Number} : n ∉ (ofStrings ss).numbers := by
  simp [ofStrings]

theorem not_mem_numbers_ofStringTable {t : Table String} {n : Number} : n ∉ (ofStringTable t).numbers := by
  rw [ofStringTable, mem_numbers_obj]
  rintro ⟨m, hm, hn⟩
  obtain ⟨e, _, rfl⟩ := List.mem_map.1 hm
  cases hn

/-! ## Finite values -/

/-- Every number inside a value is finite. -/
def Finite (v : Json) : Prop := ∀ n ∈ v.numbers, n.isFinite = true

instance (v : Json) : Decidable v.Finite :=
  inferInstanceAs (Decidable (∀ n ∈ v.numbers, n.isFinite = true))

theorem finite_arr {items : List Json} : (arr items).Finite ↔ ∀ v ∈ items, v.Finite := forall_numbers_arr

theorem finite_obj {members : List (String × Json)} : (obj members).Finite ↔ ∀ m ∈ members, m.2.Finite :=
  forall_numbers_obj

theorem Finite.of_mem_items {items : List Json} {v : Json} (h : (arr items).Finite) (hv : v ∈ items) :
    v.Finite :=
  finite_arr.1 h v hv

theorem Finite.of_mem {members : List (String × Json)} {m : String × Json} (h : (obj members).Finite)
    (hm : m ∈ members) : m.2.Finite :=
  finite_obj.1 h m hm

@[simp] theorem finite_bool (b : Bool) : (bool b).Finite := by simp [Finite]

@[simp] theorem finite_str (s : String) : (str s).Finite := by simp [Finite]

@[simp] theorem finite_ofNat (n : Nat) : (ofNat n).Finite := by simp [Finite, ofNat, Number.isFinite]

@[simp] theorem finite_ofStrings (ss : List String) : (ofStrings ss).Finite :=
  fun _ hn => absurd hn not_mem_numbers_ofStrings

@[simp] theorem finite_ofStringTable (t : Table String) : (ofStringTable t).Finite :=
  fun _ hn => absurd hn not_mem_numbers_ofStringTable

@[simp] theorem finite_nil : (obj []).Finite := by simp [Finite]

@[simp] theorem finite_cons {m : String × Json} {members : List (String × Json)} :
    (obj (m :: members)).Finite ↔ m.2.Finite ∧ (obj members).Finite := by
  rw [finite_obj, finite_obj, List.forall_mem_cons]

@[simp] theorem finite_append {members more : List (String × Json)} :
    (obj (members ++ more)).Finite ↔ (obj members).Finite ∧ (obj more).Finite := by
  rw [finite_obj, finite_obj, finite_obj, List.forall_mem_append]

@[simp] theorem finite_optionalMember {α : Type} {name : String} {found : Option α} {write : α → Json} :
    (obj (optionalMember name (found.map write))).Finite ↔ ∀ a ∈ found, (write a).Finite := by
  cases found <;> simp [optionalMember]

theorem finiteItems_eq (items : List Json) : finiteItems items = items.map finitePart := by
  induction items with
  | nil => rfl
  | cons v items ih => rw [finiteItems, ih, List.map_cons]

theorem finiteMembers_eq (members : List (String × Json)) :
    finiteMembers members = members.map fun m => (m.1, finitePart m.2) := by
  induction members with
  | nil => rfl
  | cons m members ih => rw [finiteMembers, ih, List.map_cons]

/-- The written part of a value has finite numbers. -/
theorem finite_finitePart (v : Json) : (finitePart v).Finite := by
  induction v using valueInduction with
  | null | bool b | str s =>
    intro n hn
    cases hn
  | num n =>
    cases n with
    | int n => simp [finitePart, Finite, Number.isFinite]
    | float x =>
      rw [finitePart]
      split
      · rename_i hx
        simp [Finite, Number.isFinite, hx]
      · simp [Finite]
  | arr items ih =>
    rw [finitePart, finiteItems_eq, finite_arr, List.forall_mem_map]
    exact ih
  | obj members ih =>
    rw [finitePart, finiteMembers_eq, finite_obj, List.forall_mem_map]
    exact ih

/-- **Writing keeps values with finite numbers.** -/
theorem finitePart_of_finite {v : Json} (h : v.Finite) : finitePart v = v := by
  induction v using valueInduction with
  | null | bool b | str s => rfl
  | num n =>
    cases n with
    | int n => rfl
    | float x =>
      have hx : Decimal.isFinite x = true := h (.float x) (List.mem_singleton.2 rfl)
      rw [finitePart, if_pos hx]
  | arr items ih =>
    have hitems : ∀ v ∈ items, finitePart v = v := fun v hv => ih v hv (h.of_mem_items hv)
    rw [finitePart, finiteItems_eq, List.map_congr_left hitems, List.map_id']
  | obj members ih =>
    have hmembers : ∀ m ∈ members, (m.1, finitePart m.2) = m := by
      intro m hm
      rw [ih m hm (h.of_mem hm)]
    rw [finitePart, finiteMembers_eq, List.map_congr_left hmembers, List.map_id']

theorem finiteMembers_of_finite {members : List (String × Json)} (h : (obj members).Finite) :
    finiteMembers members = members := by
  have hobj := finitePart_of_finite h
  rw [finitePart] at hobj
  exact Json.obj.inj hobj

/-! ## Values with a canonical form -/

/-- All results are there exactly when none of them is an error. -/
theorem firstError_ok_iff {ε α : Type} {rs : List (Except ε α)} {as : List α} :
    firstError rs = .ok as ↔ rs = as.map .ok := by
  induction rs generalizing as with
  | nil => simp [firstError, eq_comm]
  | cons r rs ih =>
    cases r with
    | error e => cases as <;> simp [firstError]
    | ok a =>
      rw [firstError]
      cases hrest : firstError rs with
      | error e =>
        constructor
        · intro h
          cases h
        · intro h
          cases as with
          | nil => cases h
          | cons b as =>
            rw [ih.2 (List.cons.inj h).2] at hrest
            cases hrest
      | ok bs =>
        rw [ih.1 hrest]
        cases as with
        | nil => simp [Except.map]
        | cons b as => simp [Except.map, List.map_inj_right]

theorem error_mem_of_firstError {ε α : Type} {rs : List (Except ε α)} {e : ε}
    (h : firstError rs = .error e) : .error e ∈ rs := by
  induction rs with
  | nil => cases h
  | cons r rs ih =>
    cases r with
    | error f =>
      cases h
      exact List.mem_cons_self ..
    | ok a =>
      rw [firstError] at h
      cases hrest : firstError rs with
      | error f =>
        rw [hrest] at h
        cases h
        exact List.mem_cons_of_mem _ (ih hrest)
      | ok bs =>
        rw [hrest] at h
        cases h

theorem canonicalItems_eq (items : List Json) : canonicalItems items = items.map canonical? := by
  induction items with
  | nil => rfl
  | cons v items ih => rw [canonicalItems, ih, List.map_cons]

theorem canonicalMembers_eq (members : List (String × Json)) :
    canonicalMembers members = members.map fun m => (m.1, canonical? m.2) := by
  induction members with
  | nil => rfl
  | cons m members ih => rw [canonicalMembers, ih, List.map_cons]

theorem error_of_map {ε α β : Type} {f : α → β} {r : Except ε α} {e : ε} (h : r.map f = .error e) :
    r = .error e := by
  cases r <;> cases h
  rfl

theorem ok_of_map {ε α β : Type} {f : α → β} {r : Except ε α} {b : β} (h : r.map f = .ok b) :
    ∃ a, r = .ok a ∧ f a = b := by
  cases r <;> cases h
  exact ⟨_, rfl, rfl⟩

/-- **A value without a canonical form holds a number without one**, and that is the fault. -/
theorem canonical?_error {v : Json} {e : DomainError} (h : canonical? v = .error e) :
    ∃ n ∈ v.numbers, canonicalNumber n = .error e := by
  induction v using valueInduction generalizing e with
  | null | bool b | str s => cases h
  | num n => exact ⟨n, List.mem_singleton.2 rfl, error_of_map h⟩
  | arr items ih =>
    rw [canonical?, canonicalItems_eq] at h
    obtain ⟨v, hv, he⟩ := List.mem_map.1 (error_mem_of_firstError (error_of_map h))
    obtain ⟨n, hn, hfault⟩ := ih v hv he
    exact ⟨n, mem_numbers_arr.2 ⟨v, hv, hn⟩, hfault⟩
  | obj members ih =>
    rw [canonical?, canonicalMembers_eq] at h
    obtain ⟨sorted, hsorted, he⟩ := List.mem_map.1 (error_mem_of_firstError (error_of_map h))
    obtain ⟨m, hm, rfl⟩ := List.mem_map.1 ((sortMembers_perm _).mem_iff.1 hsorted)
    obtain ⟨n, hn, hfault⟩ := ih m hm (error_of_map he)
    exact ⟨n, mem_numbers_obj.2 ⟨m, hm, hn⟩, hfault⟩

theorem canonicalNumber_of_canonical? {v w : Json} (h : canonical? v = .ok w) :
    ∀ n ∈ v.numbers, ∃ m, canonicalNumber n = .ok m := by
  induction v using valueInduction generalizing w with
  | null | bool b | str s =>
    intro n hn
    cases hn
  | num n =>
    intro m hm
    obtain ⟨found, hfound, _⟩ := ok_of_map h
    rw [List.mem_singleton.1 hm]
    exact ⟨found, hfound⟩
  | arr items ih =>
    intro n hn
    obtain ⟨v, hv, hn⟩ := mem_numbers_arr.1 hn
    obtain ⟨results, hresults, _⟩ := ok_of_map (by rwa [canonical?, canonicalItems_eq] at h)
    have hmem : canonical? v ∈ results.map .ok :=
      firstError_ok_iff.1 hresults ▸ List.mem_map_of_mem hv
    obtain ⟨result, _, hresult⟩ := List.mem_map.1 hmem
    exact ih v hv hresult.symm n hn
  | obj members ih =>
    intro n hn
    obtain ⟨m, hm, hn⟩ := mem_numbers_obj.1 hn
    obtain ⟨results, hresults, _⟩ := ok_of_map (by rwa [canonical?, canonicalMembers_eq] at h)
    have hsorted := (sortMembers_perm _).mem_iff.2 (List.mem_map_of_mem (f := fun m =>
      (m.1, canonical? m.2)) hm)
    have hmem : (canonical? m.2).map (m.1, ·) ∈ results.map .ok :=
      firstError_ok_iff.1 hresults ▸ List.mem_map_of_mem (f := fun m : String × Except _ Json =>
        m.2.map (m.1, ·)) hsorted
    obtain ⟨result, _, hresult⟩ := List.mem_map.1 hmem
    obtain ⟨found, hfound, _⟩ := ok_of_map hresult.symm
    exact ih m hm hfound n hn

/-- **Which values have a canonical form**: those whose numbers all have one. -/
theorem canonical?_ok_iff {v : Json} :
    (∃ w, canonical? v = .ok w) ↔ ∀ n ∈ v.numbers, ∃ m, canonicalNumber n = .ok m := by
  constructor
  · rintro ⟨w, hw⟩
    exact canonicalNumber_of_canonical? hw
  · intro h
    cases hv : canonical? v with
    | ok w => exact ⟨w, rfl⟩
    | error e =>
      obtain ⟨n, hn, he⟩ := canonical?_error hv
      obtain ⟨m, hm⟩ := h n hn
      rw [he] at hm
      cases hm

end Json

/-! ## Floats in a range -/

namespace Decimal

open Float.Model

/-- The eleven bits of the exponent are all set in a float that is not finite. -/
theorem exponent_of_not_finite {x : Float} (h : isFinite x = false) :
    (x.toBits >>> 52) &&& 0x7FF = 0x7FF := by
  unfold isFinite Parts.ofFloat at h
  cases hones : ((x.toBits >>> 52) &&& 0x7FF == 0x7FF) with
  | true => exact beq_iff_eq.1 hones
  | false =>
    -- Any other exponent makes the float zero or a magnitude.
    simp only [hones, Bool.false_eq_true, if_false] at h
    cases hzero : x.toBits <<< 1 == 0 <;> simp only [hzero, Bool.false_eq_true, if_true, if_false] at h <;>
      cases h

theorem unpack_of_not_finite {x : Float} (h : isFinite x = false) :
    x.toModel.unpack.isFinite = false := by
  have hones : @UnpackedFloat.unpackExponent Format.binary64 x.toModel.toBits.toBitVec =
      -1#_ := by
    have hbits := congrArg UInt64.toNat (exponent_of_not_finite h)
    have hmask : UInt64.toNat 0x7FF = 2 ^ 11 - 1 := rfl
    rw [UInt64.toNat_and, UInt64.toNat_shiftRight, hmask, Nat.and_two_pow_sub_one_eq_mod] at hbits
    apply BitVec.eq_of_toNat_eq
    unfold UnpackedFloat.unpackExponent
    rw [BitVec.toNat_cast, BitVec.extractLsb_toNat]
    exact hbits
  unfold Float.Model.unpack UnpackedFloat.unpack
  rw [if_pos hones]
  split <;> rfl

/-- **The floats from 0 to 2 are finite**: neither infinity lies in between, and what is not a number
lies nowhere. -/
theorem finite_of_le {x : Float} (hzero : 0 ≤ x) (htwo : x ≤ 2) : isFinite x = true := by
  refine Bool.not_eq_false _ |>.mp fun h => ?_
  have hnot := unpack_of_not_finite h
  have habove : (UnpackedFloat.zero .positive).le x.toModel.unpack = true := of_decide_eq_true hzero
  have hbelow : x.toModel.unpack.le (.finite .positive (2 ^ 52) (-51) (by decide)) = true :=
    of_decide_eq_true htwo
  cases hx : x.toModel.unpack with
  | infinity sign =>
    rw [hx] at habove hbelow
    cases sign with
    | negative => exact absurd habove (by decide)
    | positive => exact absurd hbelow (by decide)
  | notANumber =>
    rw [hx] at hbelow
    cases hbelow
  | zero sign =>
    rw [hx] at hnot
    cases hnot
  | finite sign mantissa exponent positive =>
    rw [hx] at hnot
    cases hnot

end Decimal

end FormFlow
