import FormFlow.Proofs.NumbersInside
import FormFlow.Proofs.StrictTokens

/-!
# Numbers are written as literals

An integer is written as the literal of its digits, and a finite float as one with a point or an exponent.  An
infinity, and what is not a number, is written by a name.

## Principal results

* `number_intLiteral` — the literal of an integer writes that integer;
* `exists_literal_layout` — a positive decimal is written as a literal;
* `exists_literal_float` — so is every finite float.
-/

namespace FormFlow

namespace Json

/-! ## Integers -/

/-- Decimal digits begin with a zero for the number zero alone. -/
theorem toDigits_eq_cons_zero {n : Nat} {ds : List Char} (h : Nat.toDigits 10 n = '0' :: ds) : ds = [] := by
  induction n using Nat.strongRecOn generalizing ds with
  | ind n ih =>
    rcases Nat.lt_or_ge n 10 with hlt | hge
    · rw [Nat.toDigits_of_lt_base hlt] at h
      exact (List.cons.inj h).2.symm
    · rw [Nat.toDigits_of_base_le (by decide) hge] at h
      cases hhead : Nat.toDigits 10 (n / 10) with
      | nil => exact absurd hhead Nat.toDigits_ne_nil
      | cons c cs =>
        rw [hhead, List.cons_append] at h
        obtain ⟨rfl, -⟩ := List.cons.inj h
        have hcs := ih (n / 10) (by omega) hhead
        -- A single zero is the number zero, which has no further digits.
        have hvalue := Nat.ofDigitChars_ten_toDigits (n := n / 10)
        rw [hhead, hcs] at hvalue
        have hzero : n / 10 = 0 := hvalue.symm
        omega

theorem isDigit_of_mem_toDigits {n : Nat} {c : Char} (h : c ∈ Nat.toDigits 10 n) : c.isDigit = true :=
  Nat.isDigit_of_mem_toDigits (by decide) (by decide) h

theorem exists_toDigits_eq (n : Nat) : ∃ d ds, Nat.toDigits 10 n = d :: ds ∧ d.isDigit = true := by
  obtain ⟨d, ds, hds⟩ := List.exists_cons_of_ne_nil (Nat.toDigits_ne_nil (n := n) (b := 10))
  exact ⟨d, ds, hds, isDigit_of_mem_toDigits (hds ▸ List.mem_cons_self ..)⟩

/-- The literal that an integer is written as. -/
def intLiteral (n : Int) : Literal where
  negative := decide (n < 0)
  whole := ⟨Nat.toDigits 10 n.natAbs, Nat.toDigits_ne_nil, fun _ hc => isDigit_of_mem_toDigits hc⟩
  part := none
  exponent := none
  noLeadingZero _ h := toDigits_eq_cons_zero h

theorem source_intLiteral (n : Int) : (intLiteral n).source = intText n := by
  unfold intText
  by_cases hneg : n < 0 <;> simp [Literal.source, Literal.tail, Literal.partSource, Literal.exponentSource,
    intLiteral, hneg]

/-- **The literal of an integer writes that integer.** -/
theorem number_intLiteral (n : Int) : (intLiteral n).number = .int n := by
  have hvalue : (Nat.ofDigitChars 10 (Nat.toDigits 10 n.natAbs) 0 : Int) = n.natAbs :=
    congrArg Nat.cast Nat.ofDigitChars_ten_toDigits
  have hsign : (if (intLiteral n).negative then -(n.natAbs : Int) else n.natAbs) = n := by
    by_cases hneg : n < 0
    · rw [if_pos (show (intLiteral n).negative = true from decide_eq_true hneg)]
      omega
    · rw [if_neg (show ¬ (intLiteral n).negative = true by simpa [intLiteral] using hneg)]
      omega
  rw [Literal.number, if_pos ⟨rfl, rfl⟩]
  dsimp only
  rw [show (intLiteral n).whole.text = Nat.toDigits 10 n.natAbs from rfl, hvalue, hsign]

theorem short_intLiteral {n : Int} :
    (intLiteral n).Short ↔ (Nat.toDigits 10 n.natAbs).length ≤ digitLimit :=
  ⟨fun h => h ⟨rfl, rfl⟩, fun h _ => h⟩

/-! ## Decimals -/

theorem exists_digits_or_nil {cs : List Char} (h : ∀ c ∈ cs, c.isDigit = true) :
    cs = [] ∨ ∃ ds : Digits, ds.text = cs := by
  cases cs with
  | nil => exact .inl rfl
  | cons c cs => exact .inr ⟨⟨c :: cs, List.cons_ne_nil _ _, h⟩, rfl⟩

theorem isDigit_of_mem_zeros {n : Nat} {c : Char} (h : c ∈ List.replicate n '0') : c.isDigit = true := by
  rw [List.eq_of_mem_replicate h]
  rfl

/-- The digits of a positive number do not begin with a zero. -/
theorem toDigits_ne_cons_zero {n : Nat} (h : 0 < n) (ds : List Char) : Nat.toDigits 10 n ≠ '0' :: ds := by
  intro heq
  have hvalue := Nat.ofDigitChars_ten_toDigits (n := n)
  rw [heq, toDigits_eq_cons_zero heq] at hvalue
  exact absurd hvalue.symm (Nat.ne_of_gt h)

/-- Placed digits are digits, before the point without a needless zero in front. -/
theorem place_spec {n : Nat} (h : 0 < n) (point : Int) :
    (∃ whole : Digits, (Decimal.place (Nat.toDigits 10 n) point).1 = whole.text ∧
        ∀ ds, whole.text = '0' :: ds → ds = []) ∧
      ∀ c ∈ (Decimal.place (Nat.toDigits 10 n) point).2, c.isDigit = true := by
  unfold Decimal.place
  split
  · refine ⟨⟨.zero, rfl, fun ds hds => (List.cons.inj hds).2.symm⟩, ?_⟩
    exact fun c hc => (List.mem_append.1 hc).elim isDigit_of_mem_zeros isDigit_of_mem_toDigits
  · rename_i hpoint
    obtain ⟨d, ds, hds, hd⟩ := exists_toDigits_eq n
    obtain ⟨k, hk⟩ : ∃ k, point.toNat = k + 1 := ⟨point.toNat - 1, by omega⟩
    have hdigits : ∀ c ∈ (Nat.toDigits 10 n).take point.toNat ++
        List.replicate (point.toNat - (Nat.toDigits 10 n).length) '0', c.isDigit = true := fun c hc =>
      (List.mem_append.1 hc).elim (fun hc => isDigit_of_mem_toDigits (List.mem_of_mem_take hc))
        isDigit_of_mem_zeros
    have hhead : ∃ more, (Nat.toDigits 10 n).take point.toNat ++
        List.replicate (point.toNat - (Nat.toDigits 10 n).length) '0' = d :: more := by
      rw [hds, hk, List.take_succ_cons, List.cons_append]
      exact ⟨_, rfl⟩
    obtain ⟨more, hmore⟩ := hhead
    refine ⟨⟨⟨_, hmore ▸ List.cons_ne_nil _ _, hdigits⟩, rfl, fun ds' hzero => ?_⟩, fun c hc => ?_⟩
    · obtain ⟨rfl, -⟩ := List.cons.inj (hmore.symm.trans hzero)
      exact absurd hds (toDigits_ne_cons_zero h ds)
    · exact isDigit_of_mem_toDigits (List.mem_of_mem_drop hc)

theorem exists_exponent_source (width : Nat) (e : Int) :
    ∃ x : Exponent, x.source = Decimal.exponentText width e := by
  have hdigits : ∀ c ∈ List.replicate (width - (Nat.toDigits 10 e.natAbs).length) '0' ++ Nat.toDigits 10 e.natAbs,
      c.isDigit = true :=
    fun c hc => (List.mem_append.1 hc).elim isDigit_of_mem_zeros isDigit_of_mem_toDigits
  refine ⟨⟨false, if e < 0 then .minus else .plus, ⟨_, by simp, hdigits⟩⟩, ?_⟩
  unfold Exponent.source Decimal.exponentText
  by_cases hneg : e < 0 <;> simp [hneg, ExponentSign.source]

/-- A literal with a fraction or an exponent is not read as an integer. -/
theorem Literal.not_isInteger {l : Literal} (h : l.part.isSome = true ∨ l.exponent.isSome = true) :
    ¬ l.IsInteger := by
  intro hinteger
  rcases h with h | h
  · rw [hinteger.1] at h
    cases h
  · rw [hinteger.2] at h
    cases h

/-- **A positive decimal is written as a literal**, and not as an integer in a notation that keeps the point. -/
theorem exists_literal_layout {n : Decimal.Notation} (hpoint : n.keepsPoint = true) {d : Decimal.Figure}
    (hd : 0 < d.digits) (negative : Bool) :
    ∃ l : Literal, l.source = (if negative then ['-'] else []) ++ n.layout d ∧ ¬ l.IsInteger := by
  unfold Decimal.Notation.layout
  dsimp only
  generalize d.exponent + (Nat.toDigits 10 d.digits).length - 1 = e
  by_cases hplain : n.plainFrom ≤ e ∧ e < n.plainBelow
  · obtain ⟨⟨whole, hwhole, hzero⟩, hpart⟩ := place_spec hd (e + 1)
    rw [if_pos hplain, hwhole, if_pos hpoint]
    rcases exists_digits_or_nil hpart with hnil | ⟨part, hpart⟩
    · refine ⟨⟨negative, whole, some .zero, none, hzero⟩, ?_, Literal.not_isInteger (.inl rfl)⟩
      rw [hnil]
      rfl
    · refine ⟨⟨negative, whole, some part, none, hzero⟩, ?_, Literal.not_isInteger (.inl rfl)⟩
      rw [← hpart]
      simp [Literal.source, Literal.tail, Literal.partSource, Literal.exponentSource, part.ne_nil]
  · obtain ⟨⟨whole, hwhole, hzero⟩, hpart⟩ := place_spec hd 1
    obtain ⟨x, hx⟩ := exists_exponent_source n.exponentWidth e
    rw [if_neg hplain, hwhole, ← hx]
    rcases exists_digits_or_nil hpart with hnil | ⟨part, hpart⟩
    · refine ⟨⟨negative, whole, none, some x, hzero⟩, ?_, Literal.not_isInteger (.inr rfl)⟩
      rw [hnil]
      simp [Literal.source, Literal.tail, Literal.partSource, Literal.exponentSource]
    · refine ⟨⟨negative, whole, some part, some x, hzero⟩, ?_, Literal.not_isInteger (.inr rfl)⟩
      rw [← hpart]
      simp [Literal.source, Literal.tail, Literal.partSource, Literal.exponentSource, part.ne_nil]

/-- **A finite float is written as a literal**, whatever the names of the others are. -/
theorem exists_literal_float (infinity notANumber : String) {x : Float} (h : Decimal.isFinite x = true) :
    ∃ l : Literal, l.source = floatText infinity notANumber x ∧ ¬ l.IsInteger := by
  unfold Decimal.isFinite at h
  unfold floatText Decimal.Notation.write?
  cases hparts : Decimal.Parts.ofFloat x with
  | zero negative =>
    refine ⟨⟨negative, .zero, some .zero, none, fun ds hds => (List.cons.inj hds).2.symm⟩, ?_,
      Literal.not_isInteger (.inl rfl)⟩
    cases negative <;> rfl
  | finite negative magnitude =>
    exact exists_literal_layout rfl (magnitude.shortest_pos (Decimal.Parts.mantissa_pos hparts)) negative
  | infinite negative | notANumber =>
    rw [hparts] at h
    cases h

/-- The literal of a number, where the literals of floats are given. -/
def literalOf (literal : Float → Literal) : Number → Literal
  | .int i => intLiteral i
  | .float x => literal x

/-- Literals for all numbers that are written as one. -/
theorem exists_literals (infinity notANumber : String) :
    ∃ literal : Number → Literal, (∀ i, literal (.int i) = intLiteral i) ∧
      ∀ x, Decimal.isFinite x = true →
        (literal (.float x)).source = floatText infinity notANumber x ∧ ¬ (literal (.float x)).IsInteger := by
  have hfloat : ∀ x : Float, ∃ l : Literal, Decimal.isFinite x = true →
      l.source = floatText infinity notANumber x ∧ ¬ l.IsInteger := by
    intro x
    by_cases hfinite : Decimal.isFinite x = true
    · obtain ⟨l, hl⟩ := exists_literal_float infinity notANumber hfinite
      exact ⟨l, fun _ => hl⟩
    · exact ⟨intLiteral 0, fun h => absurd h hfinite⟩
  obtain ⟨literal, hliteral⟩ := Classical.skolem.1 hfloat
  exact ⟨literalOf literal, fun _ => rfl, hliteral⟩

/-! ## Names -/

/-- What is not finite is written by a name, and not as a literal. -/
theorem exists_name_eq {x : Float} (h : Decimal.isFinite x = false) :
    ∃ c t, (c = 'I' ∨ c = 'N') ∧
      (floatText "Infinity" "NaN" x = c :: t ∨ floatText "Infinity" "NaN" x = '-' :: c :: t) := by
  unfold Decimal.isFinite at h
  unfold floatText Decimal.Notation.write?
  cases hparts : Decimal.Parts.ofFloat x with
  | zero negative | finite negative magnitude =>
    rw [hparts] at h
    cases h
  | infinite negative =>
    refine ⟨'I', "nfinity".toList, .inl rfl, ?_⟩
    cases negative
    · exact .inl (by decide)
    · exact .inr (by decide)
  | notANumber => exact ⟨'N', "aN".toList, .inr rfl, .inl (by decide)⟩

end Json

end FormFlow
