import FormFlow.Proofs.NumbersInside
import Mathlib.Algebra.Group.Nat.Defs

/-!
# Decimals that no double reaches

Reading a decimal gives the double nearest to it.  Beyond the greatest double by half a unit of its last place, at
`(2 ^ 54 - 1) * 2 ^ 970`, that is an infinity, and below it is a finite double.

## Principal results

* `fits_round_iff` — which binary magnitudes are rounded to finite doubles;
* `nearest_of_overflows` — a decimal that is too large is read as an infinity;
* `isFinite_nearest_iff` — any other decimal is read as a finite double.
-/

namespace FormFlow.Decimal

open Float.Model Float.Model.UnpackedFloat

/-! ## Shifting and rounding a mantissa -/

theorem mantissa_shiftRight (em : ExtendedMantissa) (k : Nat) : (em >>> k).mantissa = em.mantissa / 2 ^ k := by
  induction k with
  | zero => exact (Nat.div_one _).symm
  | succ k ih =>
    change (em >>> k).mantissa / 2 = _
    rw [ih, Nat.div_div_eq_div_mul, Nat.pow_succ]

/-- The bit behind a shifted mantissa is the last one that was shifted out. -/
theorem roundBit_shiftRight (em : ExtendedMantissa) (k : Nat) :
    (em >>> (k + 1)).roundBit = (em.mantissa / 2 ^ k % 2 != 0) := by
  change ((em >>> k).mantissa % 2 != 0) = _
  rw [mantissa_shiftRight]

@[simp] theorem mantissa_ofMantissaAndAccuracy (m : Nat) (a : Accuracy) :
    (ExtendedMantissa.ofMantissaAndAccuracy m a).mantissa = m := by
  rcases a with _ | _ | _ | _ <;> rfl

theorem roundedMantissa_bounds (em : ExtendedMantissa) :
    em.mantissa ≤ em.roundedMantissa ∧ em.roundedMantissa ≤ em.mantissa + 1 := by
  obtain ⟨m, r, s⟩ := em
  cases r <;> cases s <;>
    simp only [ExtendedMantissa.roundedMantissa, ExtendedMantissa.accuracy, Accuracy.roundToNearestEven] <;> omega

/-- An odd mantissa is rounded up exactly if the bit behind it is set. -/
theorem roundedMantissa_of_odd {em : ExtendedMantissa} (h : em.mantissa % 2 = 1) :
    em.roundedMantissa = em.mantissa + em.roundBit.toNat := by
  obtain ⟨m, r, s⟩ := em
  cases r <;> cases s <;>
    simp_all [ExtendedMantissa.roundedMantissa, ExtendedMantissa.accuracy, Accuracy.roundToNearestEven]

/-! ## Rounding to a double -/

/-- A number that is rounded fits the doubles: it is zero, or its exponent is one that a double can have. -/
def Fits : UnpackedFloat → Prop
  | .zero _ => True
  | .finite _ _ e _ => e ≤ 971
  | .infinity _ | .notANumber => False

/-- How many digits of a mantissa a double has no room for. -/
def surplus (m : Nat) (e : Int) : Nat := max (m.log2 - 52) (-1074 - e).toNat

theorem targetExponent_sub (m : Nat) (e : Int) :
    (Format.binary64.targetExponent (totalExponent m e) - e).toNat = surplus m e := by
  have hleast : Format.binary64.minExponent = -1074 := rfl
  have hbits : Format.binary64.mantissaBits = 53 := rfl
  rw [Format.targetExponent, totalExponent, hleast, hbits, surplus]
  omega

/-- The mantissa of a magnitude after the first of the two shifts of rounding. -/
def rounded (m : Nat) (e : Int) (a : Accuracy) : Nat :=
  (ExtendedMantissa.ofMantissaAndAccuracy m a >>> surplus m e).roundedMantissa

theorem div_surplus_lt (m : Nat) (e : Int) : m / 2 ^ surplus m e < 2 ^ 53 := by
  rw [Nat.div_lt_iff_lt_mul (Nat.two_pow_pos _), ← Nat.pow_add]
  exact Nat.lt_of_lt_of_le Nat.lt_log2_self (Nat.pow_le_pow_right (by decide) (by unfold surplus; omega))

theorem rounded_bounds (m : Nat) (e : Int) (a : Accuracy) :
    m / 2 ^ surplus m e ≤ rounded m e a ∧ rounded m e a ≤ m / 2 ^ surplus m e + 1 := by
  have hbounds := roundedMantissa_bounds (ExtendedMantissa.ofMantissaAndAccuracy m a >>> surplus m e)
  rwa [mantissa_shiftRight, mantissa_ofMantissaAndAccuracy] at hbounds

theorem rounded_le (m : Nat) (e : Int) (a : Accuracy) : rounded m e a ≤ 2 ^ 53 := by
  have hbounds := rounded_bounds m e a
  have hlt := div_surplus_lt m e
  omega

theorem log2_le_of_lt {m k : Nat} (h : m < 2 ^ (k + 1)) : m.log2 ≤ k := by
  rcases Nat.eq_zero_or_pos m with rfl | hpos
  · exact Nat.zero_le _
  · exact Nat.le_of_lt_succ ((Nat.log2_lt (Nat.ne_of_gt hpos)).2 h)

/-- No number but zero loses all of its digits when less of them are shifted out than it has. -/
theorem eq_zero_of_lt_two_pow {m k : Nat} (h : m < 2 ^ (m.log2 - k)) : m = 0 := by
  refine Decidable.byContradiction fun hne => ?_
  have hle := Nat.log2_self_le hne
  have hpow : 2 ^ (m.log2 - k) ≤ 2 ^ m.log2 := Nat.pow_le_pow_right (by decide) (Nat.sub_le ..)
  omega

/-- A magnitude that is rounded to zero is so small that its digits do not count. -/
theorem surplus_of_rounded_zero {m : Nat} {e : Int} {a : Accuracy} (h : rounded m e a = 0) :
    surplus m e = (-1074 - e).toNat := by
  have hdiv : m / 2 ^ surplus m e = 0 := Nat.le_zero.1 (h ▸ (rounded_bounds m e a).1)
  have hlt : m < 2 ^ surplus m e := Nat.lt_of_div_eq_zero (Nat.two_pow_pos _) hdiv
  unfold surplus at hlt ⊢
  rcases Nat.le_total (m.log2 - 52) (-1074 - e).toNat with hle | hle
  · exact Nat.max_eq_right hle
  · rw [Nat.max_eq_left hle] at hlt
    rw [eq_zero_of_lt_two_pow hlt]
    exact Nat.max_eq_right (Nat.zero_le _)

/-- The exponent of a magnitude after rounding. -/
def roundedExponent (m : Nat) (e : Int) (a : Accuracy) : Int :=
  e + surplus m e + ((rounded m e a).log2 - 52 : Nat)

/-- A mantissa that was shifted is zero, or makes a finite number. -/
theorem zero_or_finite {s : Sign} {m : Nat} {e : Int} {u : UnpackedFloat}
    (h : u = if hzero : m = 0 then .zero s else .finite s m e (Nat.pos_of_ne_zero hzero)) :
    (m = 0 ∧ u = .zero s) ∨ ∃ hm, u = .finite s m e hm := by
  by_cases hzero : m = 0
  · rw [dif_pos hzero] at h
    exact .inl ⟨hzero, h⟩
  · rw [dif_neg hzero] at h
    exact .inr ⟨_, h⟩

/-- What a magnitude is rounded to. -/
theorem round_cases (s : Sign) (m : Nat) (e : Int) (a : Accuracy) :
    (rounded m e a = 0 ∧ roundWithAccuracy .binary64 s m e a = .zero s) ∨
      ∃ k hk, roundWithAccuracy .binary64 s m e a = .finite s k (roundedExponent m e a) hk := by
  have hsurplus : surplus (rounded m e a) (e + surplus m e) = (rounded m e a).log2 - 52 := by
    unfold surplus
    omega
  have hcases := zero_or_finite (u := roundWithAccuracy .binary64 s m e a) rfl
  rw [targetExponent_sub m e, targetExponent_sub, mantissa_shiftRight, mantissa_ofMantissaAndAccuracy, ← rounded,
    hsurplus] at hcases
  rcases hcases with ⟨hzero, hround⟩ | ⟨hm, hround⟩
  · exact .inl ⟨eq_zero_of_lt_two_pow (Nat.lt_of_div_eq_zero (Nat.two_pow_pos _) hzero), hround⟩
  · exact .inr ⟨_, hm, hround⟩

/-- Of a magnitude that is rounded, the exponent decides. -/
theorem fits_round (s : Sign) (m : Nat) {e : Int} (h : e ≤ 970) (a : Accuracy) :
    Fits (roundWithAccuracy .binary64 s m e a) ↔ roundedExponent m e a ≤ 971 := by
  rcases round_cases s m e a with ⟨hzero, hround⟩ | ⟨k, hk, hround⟩ <;> rw [hround]
  · -- Nothing is left of the mantissa, as the exponent is far below.
    refine iff_of_true trivial ?_
    rw [roundedExponent, hzero, surplus_of_rounded_zero hzero, show Nat.log2 0 = 0 from rfl]
    omega
  · rfl

/-- A mantissa of which all digits but one are shifted out is carried over exactly if all its leading digits are
set, the one that decides the rounding included. -/
theorem rounded_lt_iff {m n : Nat} {e : Int} (h : surplus m e = n + 1) (a : Accuracy) :
    rounded m e a < 2 ^ 53 ↔ m / 2 ^ n < 2 ^ 54 - 1 := by
  have hhalf : m / 2 ^ (n + 1) = m / 2 ^ n / 2 := by rw [Nat.pow_succ, Nat.div_div_eq_div_mul]
  have hlt := div_surplus_lt m e
  have hbounds := rounded_bounds m e a
  rw [h, hhalf] at hlt hbounds
  by_cases hodd : m / 2 ^ n / 2 = 2 ^ 53 - 1
  · -- Only here a carry is possible, and the digit that decides is the last one of `m / 2 ^ n`.
    have hrounded : rounded m e a = 2 ^ 53 - 1 + (m / 2 ^ n % 2 != 0).toNat := by
      have hmantissa : (ExtendedMantissa.ofMantissaAndAccuracy m a >>> (n + 1)).mantissa = 2 ^ 53 - 1 := by
        rw [mantissa_shiftRight, mantissa_ofMantissaAndAccuracy, hhalf, hodd]
      have hbit := roundBit_shiftRight (ExtendedMantissa.ofMantissaAndAccuracy m a) n
      rw [mantissa_ofMantissaAndAccuracy] at hbit
      rw [rounded, h, roundedMantissa_of_odd (by omega), hmantissa, hbit]
    rcases Nat.mod_two_eq_zero_or_one (m / 2 ^ n) with hbit | hbit
    · rw [hrounded, hbit]
      refine iff_of_true (by decide) ?_
      omega
    · rw [hrounded, hbit]
      refine iff_of_false (by decide) ?_
      omega
  · omega

/-- **Which magnitudes fit the doubles when they are rounded**: those below the greatest double and half a unit of
its last place. -/
theorem fits_round_iff (s : Sign) (m : Nat) (n : Nat) {e : Int} (h : e + n = 970) (a : Accuracy) :
    Fits (roundWithAccuracy .binary64 s m e a) ↔ m < (2 ^ 54 - 1) * 2 ^ n := by
  rw [fits_round s m (by omega) a]
  have hle := rounded_le m e a
  have hbounds := rounded_bounds m e a
  have hpos := Nat.two_pow_pos n
  have hstep : 2 ^ (54 + n) = 2 ^ 54 * 2 ^ n := Nat.pow_add ..
  rcases Nat.lt_trichotomy m.log2 (53 + n) with hlog | hlog | hlog
  · -- The last place of the result is below that of the greatest double, also with a carry.
    have hlog2 : (rounded m e a).log2 ≤ 53 := log2_le_of_lt (Nat.lt_of_le_of_lt hle (by decide))
    have hlt : m < 2 ^ (53 + n) := Nat.lt_of_lt_of_le Nat.lt_log2_self (Nat.pow_le_pow_right (by decide) hlog)
    rw [Nat.pow_add] at hlt
    refine iff_of_true ?_ (by omega)
    unfold roundedExponent surplus
    omega
  · -- The result has the last place of the greatest double, unless there is a carry.
    have hsurplus : surplus m e = n + 1 := by
      unfold surplus
      omega
    have hexponent : roundedExponent m e a ≤ 971 ↔ rounded m e a < 2 ^ 53 := by
      have hlog2 : (rounded m e a).log2 ≤ 52 ↔ rounded m e a < 2 ^ 53 := by
        refine ⟨fun h => ?_, log2_le_of_lt⟩
        exact Nat.lt_of_lt_of_le Nat.lt_log2_self (Nat.pow_le_pow_right (by decide) (Nat.succ_le_succ h))
      rw [← hlog2, roundedExponent, hsurplus]
      omega
    rw [hexponent, rounded_lt_iff hsurplus, Nat.div_lt_iff_lt_mul hpos]
  · have hne : m ≠ 0 := by
      rintro rfl
      cases hlog
    have hle : 2 ^ (54 + n) ≤ m :=
      Nat.le_trans (Nat.pow_le_pow_right (by decide) (by omega)) (Nat.log2_self_le hne)
    refine iff_of_false ?_ (by omega)
    unfold roundedExponent surplus
    omega

/-! ## Packing -/

theorem exists_eq_finite {P : Nat → Int → Prop} {s : Sign} {m : Nat} {e : Int} (hm : 0 < m) (h : P m e) :
    ∃ t k f hk, UnpackedFloat.finite s m e hm = .finite t k f hk ∧ P k f :=
  ⟨s, m, e, hm, rfl, h⟩

/-- What the bits of a double stand for: not a finite number, or zero, or a number of which they tell the mantissa
and the exponent. -/
theorem unpack_cases (b : BitVec Format.binary64.numBits) :
    (unpackExponent b = -1#11 ∧ (UnpackedFloat.unpack .binary64 b).isFinite = false) ∨
    (unpackExponent b = 0#11 ∧ ∃ s, UnpackedFloat.unpack .binary64 b = .zero s) ∨
    unpackExponent b ≠ -1#11 ∧ ∃ s m e hm, UnpackedFloat.unpack .binary64 b = .finite s m e hm ∧
      m < 2 ^ 53 ∧ e = (max (unpackExponent b).toNat 1 : Nat) - 1075 := by
  unfold UnpackedFloat.unpack
  dsimp only
  by_cases hones : unpackExponent b = -1#11
  · refine .inl ⟨hones, ?_⟩
    rw [if_pos hones]
    by_cases hmantissa : unpackMantissa b = 0#52
    · rw [if_pos hmantissa]
      rfl
    · rw [if_neg hmantissa]
      rfl
  · rw [if_neg hones]
    by_cases hzero : unpackExponent b = 0#11
    · rw [if_pos hzero]
      by_cases hmantissa : unpackMantissa b = 0#52
      · rw [dif_pos hmantissa]
        exact .inr (.inl ⟨hzero, _, rfl⟩)
      · rw [dif_neg hmantissa, hzero]
        exact .inr (.inr ⟨by decide, exists_eq_finite _ ⟨Nat.lt_trans (BitVec.isLt _) (by decide), by decide⟩⟩)
    · rw [if_neg hzero]
      have hpos : (unpackExponent b).toNat ≠ 0 := fun heq => hzero (BitVec.eq_of_toNat_eq heq)
      have hbias : ((Format.exponentBias .binary64 : Nat) : Int) + (52 : Nat) = 1075 := rfl
      refine .inr (.inr ⟨hones, exists_eq_finite _ ⟨BitVec.isLt _, ?_⟩⟩)
      rw [hbias]
      omega

theorem unpack_isFinite_iff {b : BitVec Format.binary64.numBits} :
    (UnpackedFloat.unpack .binary64 b).isFinite = true ↔ unpackExponent b ≠ -1#11 := by
  rcases unpack_cases b with ⟨hones, hfinite⟩ | ⟨hzero, s, hu⟩ | ⟨hones, s, m, e, hm, hu, _⟩
  · exact iff_of_false (by rw [hfinite]; decide) (absurd hones)
  · exact iff_of_true (by rw [hu]; rfl) (by rw [hzero]; decide)
  · exact iff_of_true (by rw [hu]; rfl) hones

/-- The mantissa of a double and its exponent, which is read off the exponent bits. -/
theorem unpack_eq_finite {b : BitVec Format.binary64.numBits} {s : Sign} {m : Nat} {e : Int} {hm : 0 < m}
    (h : UnpackedFloat.unpack .binary64 b = .finite s m e hm) :
    m < 2 ^ 53 ∧ e = (max (unpackExponent b).toNat 1 : Nat) - 1075 := by
  rcases unpack_cases b with ⟨_, hfinite⟩ | ⟨_, t, hu⟩ | ⟨_, t, k, f, hk, hu, hmantissa, hexponent⟩
  · rw [h] at hfinite
    cases hfinite
  · rw [h] at hu
    cases hu
  · rw [h] at hu
    cases hu
    exact ⟨hmantissa, hexponent⟩

/-- A double that is finite fits the doubles. -/
theorem fits_unpack {b : BitVec Format.binary64.numBits}
    (h : (UnpackedFloat.unpack .binary64 b).isFinite = true) : Fits (UnpackedFloat.unpack .binary64 b) := by
  have hones := unpack_isFinite_iff.1 h
  have hne : (unpackExponent b).toNat ≠ 2047 := fun heq => hones (BitVec.eq_of_toNat_eq heq)
  have hlt : (unpackExponent b).toNat < 2048 := (unpackExponent b).isLt
  cases hu : UnpackedFloat.unpack .binary64 b with
  | zero s => trivial
  | finite s m e hm =>
    obtain ⟨_, he⟩ := unpack_eq_finite hu
    change e ≤ 971
    omega
  | infinity s | notANumber =>
    rw [hu] at h
    cases h

/-- How a magnitude with a sign is packed, of whatever size it is. -/
theorem pack_finite (s : Sign) (m : Nat) (e : Int) (hm : 0 < m) :
    UnpackedFloat.pack .binary64 (.finite s m e hm) =
      if 971 < e then packedInfinity .binary64 s
      else if m.log2 + 1 = 53 then
        packComponents .binary64 s (BitVec.ofNat 11 (e + 1075).toNat) (BitVec.ofNat 52 m)
      else packComponents .binary64 s 0#11 (BitVec.ofNat 52 m) := by
  have hbiased : e + 1023 + 52 = e + 1075 := by omega
  have hlarge : 2048 ≤ (e + 1075).toNat + 1 ↔ 971 < e := by omega
  rw [← hbiased] at hlarge ⊢
  exact ite_congr (propext hlarge) (fun _ => rfl) fun _ => rfl

/-- What fits the doubles is finite when it is packed. -/
theorem isFinite_unpack_pack {u : UnpackedFloat} (h : Fits u) :
    (Float.Model.pack u).unpack.isFinite = true := by
  refine unpack_isFinite_iff.2 ?_
  change unpackExponent (UnpackedFloat.pack .binary64 u) ≠ -1#11
  cases u with
  | zero sign => cases sign <;> decide
  | finite sign m e hm =>
    have he : e ≤ 971 := h
    rw [pack_finite, if_neg (Int.not_lt.2 he)]
    split
    · rw [unpackExponent_packComponents]
      intro heq
      have hnat := congrArg BitVec.toNat heq
      rw [BitVec.toNat_ofNat] at hnat
      change (e + 1075).toNat % 2048 = 2047 at hnat
      omega
    · rw [unpackExponent_packComponents]
      decide
  | infinity sign => cases h
  | notANumber => cases h

theorem fits_unpack_pack {u : UnpackedFloat} (h : Fits u) : Fits (Float.Model.pack u).unpack :=
  fits_unpack (isFinite_unpack_pack h)

theorem isFinite_of_fits {x : Float} (h : Fits x.toModel.unpack) : isFinite x = true := by
  refine (Bool.not_eq_false _).mp fun hx => ?_
  have hnot := unpack_of_not_finite hx
  cases hu : x.toModel.unpack with
  | zero sign | finite sign m e hm =>
    rw [hu] at hnot
    cases hnot
  | infinity sign | notANumber =>
    rw [hu] at h
    cases h

theorem fits_neg {x : Float} (h : Fits x.toModel.unpack) : Fits (-x).toModel.unpack := by
  change Fits (Float.Model.pack x.toModel.unpack.neg).unpack
  refine fits_unpack_pack ?_
  cases hu : x.toModel.unpack with
  | zero sign => trivial
  | finite sign m e hm =>
    rw [hu] at h
    exact h
  | infinity sign | notANumber =>
    rw [hu] at h
    cases h

/-- What a magnitude is rounded to, and does not fit the doubles, is packed as an infinity. -/
theorem pack_round_of_not_fits {s : Sign} {m : Nat} {e : Int} {a : Accuracy}
    (h : ¬ Fits (roundWithAccuracy .binary64 s m e a)) :
    UnpackedFloat.pack .binary64 (roundWithAccuracy .binary64 s m e a) = packedInfinity .binary64 s := by
  rcases round_cases s m e a with ⟨_, hround⟩ | ⟨k, hk, hround⟩ <;> rw [hround] at h ⊢
  · exact absurd trivial h
  · rw [pack_finite]
    exact if_pos (Int.not_le.1 h)

/-! ## Decimals -/

/-- The least number that is rounded to an infinity: half a unit of the last place above the greatest double. -/
def firstAbove : Nat := (2 ^ 54 - 1) * 2 ^ 970

/-- A decimal is too large for a double. -/
def Figure.Overflows (d : Figure) : Prop :=
  firstAbove * 10 ^ (-d.exponent).toNat ≤ d.digits * 10 ^ d.exponent.toNat

instance (d : Figure) : Decidable d.Overflows := inferInstanceAs (Decidable (_ ≤ _))

theorem firstAbove_pos : 0 < firstAbove := by decide +kernel

theorem firstAbove_le : firstAbove ≤ 2 ^ 1024 := by decide +kernel

theorem fits_round_iff_of_add (s : Sign) (m n : Nat) {e : Int} (h : e + n = 0) (a : Accuracy) :
    Fits (roundWithAccuracy .binary64 s m e a) ↔ m < firstAbove * 2 ^ n := by
  have hbound (k : Nat) : (2 ^ 54 - 1) * 2 ^ (k + n) = (2 ^ 54 - 1) * 2 ^ k * 2 ^ n := by
    rw [Nat.pow_add, Nat.mul_assoc]
  rw [fits_round_iff s m (970 + n) (by omega) a, hbound, firstAbove]

theorem two_pow_le_ten_pow {k n : Nat} (h : k ≤ n) : 2 ^ k ≤ 10 ^ n :=
  Nat.le_trans (Nat.pow_le_pow_right (by decide) h) (Nat.pow_le_pow_left (by decide) n)

/-- What is too large is packed as positive infinity, and the rest fits the doubles. -/
structure OverflowsIff (tooLarge : Prop) (u : UnpackedFloat) : Prop where
  fits : ¬ tooLarge → Fits u
  infinite : tooLarge → UnpackedFloat.pack .binary64 u = packedInfinity .binary64 .positive

theorem OverflowsIff.dite {tooLarge c : Prop} [Decidable c] {u : c → UnpackedFloat} {v : ¬ c → UnpackedFloat}
    (hu : ∀ h, OverflowsIff tooLarge (u h)) (hv : ∀ h, OverflowsIff tooLarge (v h)) :
    OverflowsIff tooLarge (if h : c then u h else v h) := by
  by_cases h : c
  · rw [dif_pos h]
    exact hu h
  · rw [dif_neg h]
    exact hv h

theorem OverflowsIff.ite {tooLarge c : Prop} [Decidable c] {u v : UnpackedFloat} (hu : c → OverflowsIff tooLarge u)
    (hv : ¬ c → OverflowsIff tooLarge v) : OverflowsIff tooLarge (if c then u else v) :=
  OverflowsIff.dite hu hv

theorem overflowsIff_round {tooLarge : Prop} {m : Nat} {e : Int} {a : Accuracy}
    (h : Fits (roundWithAccuracy .binary64 .positive m e a) ↔ ¬ tooLarge) :
    OverflowsIff tooLarge (roundWithAccuracy .binary64 .positive m e a) :=
  ⟨h.2, fun htooLarge => pack_round_of_not_fits fun hfits => h.1 hfits htooLarge⟩

/-- A product, as it is rounded. -/
theorem overflowsIff_mul {m k : Nat} (hm : 0 < m <<< 53) (hk : 0 < k) :
    OverflowsIff (firstAbove ≤ m * k)
      (UnpackedFloat.mul .binary64 (.finite .positive (m <<< 53) (-53) hm) (.finite .positive k 0 hk)) := by
  refine overflowsIff_round (m := m <<< 53 * k) (e := -53 + 0) (a := .exact) ?_
  rw [fits_round_iff_of_add .positive (m <<< 53 * k) 53 (by decide) .exact, Nat.shiftLeft_eq, Nat.mul_right_comm,
    Nat.not_le]
  omega

/-- A quotient, as it is rounded. -/
theorem overflowsIff_div {m k : Nat} (hm : 0 < m) (hk : 0 < k) :
    OverflowsIff (firstAbove * k ≤ m)
      (UnpackedFloat.div .binary64 (.finite .positive m 0 hm) (.finite .positive k 0 hk)) := by
  refine overflowsIff_round (m := (divCore .binary64 m 0 k 0).1) (e := (divCore .binary64 m 0 k 0).2.1)
    (a := (divCore .binary64 m 0 k 0).2.2) ?_
  unfold divCore
  dsimp only
  generalize htarget :
    min (0 - 0 : Int) (Format.binary64.targetExponent (totalExponent m 0 - totalExponent k 0)) = t
  rw [fits_round_iff_of_add _ _ (0 - 0 - t).toNat (by omega), Nat.div_lt_iff_lt_mul hk, Nat.shiftLeft_eq,
    Nat.mul_right_comm, Nat.not_le]
  exact Nat.mul_lt_mul_right (Nat.two_pow_pos _)

/-- **Which decimals are read as finite doubles**, by the way that is exact for all of them. -/
theorem overflowsIff_ofScientific (m : Nat) (e : Int) :
    OverflowsIff (Figure.mk m e).Overflows (UnpackedFloat.ofScientific .binary64 m e) := by
  unfold UnpackedFloat.ofScientific Figure.Overflows
  dsimp only
  refine .dite (fun hzero => ?_) fun hne => .ite (fun hlarge => ?_) fun _ => .ite (fun hsmall => ?_) fun _ =>
    .ite (fun hnonneg => ?_) fun hneg => ?_
  · have hpos := Nat.mul_pos firstAbove_pos (Nat.pow_pos (n := (-e).toNat) (show 0 < 10 by decide))
    rw [hzero, Nat.zero_mul]
    exact ⟨fun _ => trivial, fun h => absurd hpos (Nat.not_lt.2 h)⟩
  · have hexponent : 2048 < e := hlarge
    rw [show (-e).toNat = 0 by omega, Nat.pow_zero, Nat.mul_one]
    refine ⟨fun h => absurd ?_ h, fun _ => rfl⟩
    calc firstAbove ≤ 2 ^ 1024 := firstAbove_le
      _ ≤ 10 ^ e.toNat := two_pow_le_ten_pow (k := 1024) (by omega)
      _ ≤ m * 10 ^ e.toNat := Nat.le_mul_of_pos_left _ (Nat.pos_of_ne_zero hne)
  · have hexponent : e < -(2048 + m.log2) := hsmall
    rw [show e.toNat = 0 by omega, Nat.pow_zero, Nat.mul_one]
    refine ⟨fun _ => trivial, fun h => absurd h (Nat.not_le.2 ?_)⟩
    calc m < 2 ^ (m.log2 + 1) := Nat.lt_log2_self
      _ ≤ 10 ^ (-e).toNat := two_pow_le_ten_pow (by omega)
      _ ≤ firstAbove * 10 ^ (-e).toNat := Nat.le_mul_of_pos_left _ firstAbove_pos
  · rw [show (-e).toNat = 0 by omega, Nat.pow_zero, Nat.mul_one]
    exact overflowsIff_mul _ _
  · rw [show e.toNat = 0 by omega, Nat.pow_zero, Nat.mul_one]
    exact overflowsIff_div _ _

/-! ## The short way

A decimal of few digits and a small exponent is a whole number times or over a power of ten, both of which are
doubles themselves. -/

theorem exists_finite {b : BitVec Format.binary64.numBits} (hpos : 0 < (unpackExponent b).toNat)
    (hlt : (unpackExponent b).toNat < 2047) :
    ∃ s m e hm, UnpackedFloat.unpack .binary64 b = .finite s m e hm := by
  rcases unpack_cases b with ⟨hones, _⟩ | ⟨hzero, _⟩ | ⟨_, s, m, e, hm, hu, _⟩
  · rw [hones] at hlt
    exact absurd hlt (by decide)
  · rw [hzero] at hpos
    exact absurd hpos (by decide)
  · exact ⟨s, m, e, hm, hu⟩

/-- The exponent bits of the powers of ten, from `2 ^ 0` to `2 ^ 73`. -/
theorem exponent_powers : ∀ i : Fin 23,
    1023 ≤ (unpackExponent Float.exactlyRepresentablePowersOfTen[i].toModel.toBits.toBitVec
      : BitVec Format.binary64.exponentBits).toNat ∧
    (unpackExponent Float.exactlyRepresentablePowersOfTen[i].toModel.toBits.toBitVec
      : BitVec Format.binary64.exponentBits).toNat ≤ 1096 := by
  decide +kernel

theorem exists_power {i : Nat} (h : i < Float.exactlyRepresentablePowersOfTen.size) :
    ∃ s m e hm, Float.exactlyRepresentablePowersOfTen[i].toModel.unpack = .finite s m e hm ∧ m < 2 ^ 53 ∧
      -52 ≤ e ∧ e ≤ 21 := by
  obtain ⟨hleast, hmost⟩ := exponent_powers ⟨i, h⟩
  obtain ⟨s, m, e, hm, hu⟩ := exists_finite (Nat.lt_of_lt_of_le (by decide) hleast)
    (Nat.lt_of_le_of_lt hmost (by decide))
  obtain ⟨hlt, he⟩ := unpack_eq_finite hu
  exact ⟨s, m, e, hm, hu, hlt, by rw [he]; omega, by omega⟩

/-- A number of the size of a whole number that is a double. -/
def Small : UnpackedFloat → Prop
  | .zero _ => True
  | .finite _ _ e _ => e ≤ 1
  | .infinity _ | .notANumber => False

/-- A number that is rounded, and whose mantissa a double can have, keeps its exponent but for a carry. -/
theorem roundedExponent_le {m : Nat} {e : Int} (hm : m < 2 ^ 53) (he : -1074 ≤ e) (a : Accuracy) :
    roundedExponent m e a ≤ e + 1 := by
  have hlog : m.log2 ≤ 52 := log2_le_of_lt hm
  have hlog2 : (rounded m e a).log2 ≤ 53 := log2_le_of_lt (Nat.lt_of_le_of_lt (rounded_le m e a) (by decide))
  unfold roundedExponent surplus
  omega

theorem small_ofNat {m : Nat} (h : m < 2 ^ 53) : Small (UnpackedFloat.ofNat .binary64 m) := by
  rcases Nat.eq_zero_or_pos m with rfl | hpos
  · trivial
  · have hround : UnpackedFloat.ofNat .binary64 m = UnpackedFloat.round .binary64 .positive m 0 := by
      have hcompare : compare (m : Int) 0 = .gt := Int.compare_eq_gt.2 (Int.natCast_pos.2 hpos)
      unfold UnpackedFloat.ofNat UnpackedFloat.ofInt UnpackedFloat.normalize
      rw [hcompare]
      rfl
    have hlog : m.log2 ≤ 52 := log2_le_of_lt h
    have hshift : (0 - Format.binary64.targetExponent (totalExponent m 0)).toNat = 52 - m.log2 := by
      have hleast : Format.binary64.minExponent = -1074 := rfl
      have hbits : Format.binary64.mantissaBits = 53 := rfl
      rw [Format.targetExponent, totalExponent, hleast, hbits]
      omega
    have hlt : m <<< (52 - m.log2) < 2 ^ 53 := by
      rw [Nat.shiftLeft_eq, show 53 = m.log2 + 1 + (52 - m.log2) by omega, Nat.pow_add]
      exact Nat.mul_lt_mul_of_pos_right Nat.lt_log2_self (Nat.two_pow_pos _)
    have hle := roundedExponent_le hlt (e := 0 - (52 - m.log2 : Nat)) (by omega) .exact
    rw [hround, UnpackedFloat.round, decreaseExponent, hshift]
    dsimp only
    rcases round_cases .positive (m <<< (52 - m.log2)) (0 - (52 - m.log2 : Nat)) .exact with
      ⟨_, heq⟩ | ⟨k, hk, heq⟩ <;> rw [heq]
    · trivial
    · change roundedExponent _ _ _ ≤ 1
      omega

/-- Packing does not make a small number large. -/
theorem small_unpack_pack {u : UnpackedFloat} (h : Small u) : Small (Float.Model.pack u).unpack := by
  cases u with
  | zero s => cases s <;> exact trivial
  | finite s m e hm =>
    have he : e ≤ 1 := h
    have hfits : Fits (Float.Model.pack (.finite s m e hm)).unpack :=
      fits_unpack_pack (Int.le_trans he (by decide))
    have hfield : (unpackExponent (UnpackedFloat.pack .binary64 (.finite s m e hm))).toNat ≤ (e + 1075).toNat := by
      rw [pack_finite, if_neg (by omega)]
      split
      · rw [unpackExponent_packComponents, BitVec.toNat_ofNat]
        exact Nat.mod_le _ _
      · rw [unpackExponent_packComponents]
        exact Nat.zero_le _
    cases hu : (Float.Model.pack (.finite s m e hm)).unpack with
    | zero t => trivial
    | finite t k f hk =>
      obtain ⟨_, hf⟩ := unpack_eq_finite hu
      change f =
        (max (unpackExponent (UnpackedFloat.pack .binary64 (.finite s m e hm))).toNat 1 : Nat) - 1075 at hf
      change f ≤ 1
      omega
    | infinity t | notANumber =>
      rw [hu] at hfits
      cases hfits
  | infinity s | notANumber => cases h

theorem small_toFloat {m : Nat} (h : m < 2 ^ 53) : Small m.toUInt64.toFloat.toModel.unpack := by
  have hm : m.toUInt64.toNat = m := Nat.mod_eq_of_lt (Nat.lt_trans h (by decide))
  refine small_unpack_pack (?_ : Small (UnpackedFloat.ofNat .binary64 m.toUInt64.toNat))
  rw [hm]
  exact small_ofNat h

theorem fits_round_of_lt {s : Sign} {m k : Nat} {e : Int} {a : Accuracy} (hm : m < 2 ^ k) (he : e + k ≤ 1023)
    (hle : e ≤ 970) : Fits (roundWithAccuracy .binary64 s m e a) := by
  rw [fits_round_iff s m (970 - e).toNat (by omega) a]
  calc m < 2 ^ k := hm
    _ ≤ 2 ^ (53 + (970 - e).toNat) := Nat.pow_le_pow_right (by decide) (by omega)
    _ = 2 ^ 53 * 2 ^ (970 - e).toNat := Nat.pow_add ..
    _ ≤ (2 ^ 54 - 1) * 2 ^ (970 - e).toNat := Nat.mul_le_mul_right _ (by decide)

/-- A small number times or over a power of ten fits the doubles. -/
theorem fits_of_power {x y : Float.Model} (hx : Small x.unpack)
    (hy : ∃ s m e hm, y.unpack = .finite s m e hm ∧ m < 2 ^ 53 ∧ -52 ≤ e ∧ e ≤ 21) :
    Fits (UnpackedFloat.mul .binary64 x.unpack y.unpack) ∧
      Fits (UnpackedFloat.div .binary64 x.unpack y.unpack) := by
  obtain ⟨t, k, f, hk, hy, hklt, hleast, hmost⟩ := hy
  rw [hy]
  cases hu : x.unpack with
  | zero s => exact ⟨trivial, trivial⟩
  | finite s m e hm =>
    have he : e ≤ 1 := by
      rw [hu] at hx
      exact hx
    obtain ⟨hmlt, _⟩ := unpack_eq_finite hu
    constructor
    · have hlt : m * k < 2 ^ 53 * 2 ^ 53 := Nat.mul_lt_mul'' hmlt hklt
      rw [← Nat.pow_add] at hlt
      exact fits_round_of_lt hlt (by omega) (by omega)
    · change Fits (roundWithAccuracy .binary64 (s / t) (divCore .binary64 m e k f).1
        (divCore .binary64 m e k f).2.1 (divCore .binary64 m e k f).2.2)
      unfold divCore
      dsimp only
      generalize htarget : min (e - f) (Format.binary64.targetExponent (totalExponent m e - totalExponent k f)) = r
      refine fits_round_of_lt (k := 53 + (e - f - r).toNat) ?_ (by omega) (by omega)
      rw [Nat.shiftLeft_eq, Nat.pow_add]
      exact Nat.lt_of_le_of_lt (Nat.div_le_self _ _) (Nat.mul_lt_mul_of_pos_right hmlt (Nat.two_pow_pos _))
  | infinity s | notANumber =>
    rw [hu] at hx
    cases hx

/-! ## The nearest double -/

theorem pack_congr {u v : UnpackedFloat} (h : UnpackedFloat.pack .binary64 u = UnpackedFloat.pack .binary64 v) :
    Float.Model.pack u = Float.Model.pack v := by
  have hbits : UInt64.ofBitVec (UnpackedFloat.pack .binary64 u) = .ofBitVec (UnpackedFloat.pack .binary64 v) :=
    congrArg UInt64.ofBitVec h
  exact (Float.Model.mk.injEq ..).mpr hbits

/-- A decimal that is read the short way is not too large. -/
theorem not_overflows_of_short {m : Nat} {e : Int} (h : m < 2 ^ 53 ∧ e.natAbs ≤ 22) :
    ¬ (Figure.mk m e).Overflows := by
  refine Nat.not_le.2 ?_
  calc m * 10 ^ e.toNat ≤ 2 ^ 53 * 10 ^ 22 :=
        Nat.mul_le_mul (Nat.le_of_lt h.1) (Nat.pow_le_pow_right (by decide) (by omega))
    _ < firstAbove := by decide +kernel
    _ ≤ firstAbove * 10 ^ (-e).toNat := Nat.le_mul_of_pos_right _ (Nat.pow_pos (by decide))

/-- A decimal that is not read the short way. -/
theorem ofScientific_of_long {m : Nat} {e : Int} (h : ¬ (m < 2 ^ 53 ∧ e.natAbs ≤ 22)) :
    Float.ofScientific m (e < 0) e.natAbs =
      ⟨Float.Model.pack (UnpackedFloat.ofScientific .binary64 m e)⟩ := by
  have he : (if decide (e < 0) = true then Int.negOfNat e.natAbs else Int.ofNat e.natAbs) = e := by
    split
    · rename_i hneg
      have hneg := of_decide_eq_true hneg
      rw [Int.negOfNat_eq, Int.ofNat_eq_natCast]
      omega
    · rename_i hneg
      have hneg := of_decide_eq_false (Bool.eq_false_iff.2 hneg)
      rw [Int.ofNat_eq_natCast]
      omega
  unfold Float.ofScientific
  rw [dif_neg h]
  dsimp only
  rw [he]
  rfl

/-- A decimal that is too large is read as positive infinity, before its sign counts. -/
theorem ofScientific_of_overflows {m : Nat} {e : Int} (h : (Figure.mk m e).Overflows) :
    Float.ofScientific m (e < 0) e.natAbs = ⟨Float.Model.pack (.infinity .positive)⟩ := by
  have hlong : ¬ (m < 2 ^ 53 ∧ e.natAbs ≤ 22) := fun hshort => not_overflows_of_short hshort h
  rw [ofScientific_of_long hlong, pack_congr (v := .infinity .positive) ((overflowsIff_ofScientific m e).infinite h)]

theorem fits_ofScientific {m : Nat} {e : Int} (h : ¬ (Figure.mk m e).Overflows) :
    Fits (Float.ofScientific m (e < 0) e.natAbs).toModel.unpack := by
  by_cases hshort : m < 2 ^ 53 ∧ e.natAbs ≤ 22
  · have hpower := fits_of_power (small_toFloat hshort.1)
      (exists_power (i := e.natAbs) (Nat.lt_succ_of_le hshort.2))
    unfold Float.ofScientific
    rw [dif_pos hshort]
    dsimp only
    split
    · exact fits_unpack_pack hpower.2
    · exact fits_unpack_pack hpower.1
  · rw [ofScientific_of_long hshort]
    exact fits_unpack_pack ((overflowsIff_ofScientific m e).fits h)

/-- **A decimal that is too large is read as an infinity**, with the sign of the decimal. -/
theorem nearest_of_overflows {d : Figure} (h : d.Overflows) (negative : Bool) :
    Parts.ofFloat (nearest negative d.digits d.exponent) = .infinite negative := by
  unfold nearest
  rw [ofScientific_of_overflows h]
  cases negative <;> rfl

/-- **A decimal is read as a finite double exactly if it is not too large.** -/
theorem isFinite_nearest_iff {d : Figure} {negative : Bool} :
    isFinite (nearest negative d.digits d.exponent) = true ↔ ¬ d.Overflows := by
  constructor
  · intro h hoverflows
    unfold isFinite at h
    rw [nearest_of_overflows hoverflows] at h
    cases h
  · intro h
    have hfits := fits_ofScientific h
    unfold nearest
    cases negative
    · exact isFinite_of_fits hfits
    · exact isFinite_of_fits (fits_neg hfits)

end FormFlow.Decimal
