/-!
# The shortest decimal of a float

A finite double stands for the interval of the reals that round to it.  `shortest` finds a decimal
with the fewest digits inside that interval, and of the decimals of that length the one nearest to
the double, by exact arithmetic on natural numbers: for one digit, two digits and so on up to
seventeen it tries the two neighbours of the double on the grid of that many digits.

## Principal results

* `Binary.shortest_spec` — the decimal found by the search lies in the interval of the double, or the
  search failed and the exact decimal value is returned;
* `stripZeros_value` — dropping the zeros at the end leaves the value alone;
* `Binary.shortest_pos` — the decimal of a positive double is positive.
-/

namespace FormFlow.Decimal

/-- An exact non-negative number `coefficient · 2 ^ two · 10 ^ ten`. -/
structure Scaled where
  coefficient : Nat
  two : Int
  ten : Int

namespace Scaled

/-- The numerator over `denominator`. -/
def numerator (x : Scaled) : Nat := x.coefficient * Nat.pow 2 x.two.toNat * Nat.pow 10 x.ten.toNat

/-- The denominator, a power of two times a power of ten. -/
def denominator (x : Scaled) : Nat := Nat.pow 2 (-x.two).toNat * Nat.pow 10 (-x.ten).toNat

/-- Compare two exact numbers by cross multiplication. -/
def cmp (x y : Scaled) : Ordering :=
  compare (x.numerator * y.denominator) (y.numerator * x.denominator)

end Scaled

/-- A figure: the decimal number `digits · 10 ^ exponent`. -/
structure Figure where
  digits : Nat
  exponent : Int
deriving DecidableEq, Repr

/-- A figure as an exact number. -/
def Figure.scaled (d : Figure) : Scaled := ⟨d.digits, 0, d.exponent⟩

/-- The magnitude of a finite double: `mantissa · 2 ^ exponent`.  At a power of two the gap to the
double below is half the gap to the double above. -/
structure Binary where
  mantissa : Nat
  exponent : Int
  halfGap : Bool

namespace Binary

/-- Read the magnitude off the bits of a finite double. -/
def ofBits (bits : UInt64) : Binary :=
  let e := ((bits >>> 52) &&& 0x7FF).toNat
  let f := (bits &&& 0xFFFFFFFFFFFFF).toNat
  if e = 0 then ⟨f, -1074, false⟩ else ⟨0x10000000000000 + f, (e : Int) - 1075, f = 0 ∧ 1 < e⟩

/-- The magnitude as an exact number. -/
def scaled (x : Binary) : Scaled := ⟨x.mantissa, x.exponent, 0⟩

/-- The lower end of the interval that rounds to the double. -/
def lowerEnd (x : Binary) : Scaled :=
  ⟨if x.halfGap then 4 * x.mantissa - 1 else 4 * x.mantissa - 2, x.exponent - 2, 0⟩

/-- The upper end of the interval that rounds to the double. -/
def upperEnd (x : Binary) : Scaled := ⟨4 * x.mantissa + 2, x.exponent - 2, 0⟩

/-- A decimal lies in the interval; the ends belong to it if the mantissa is even. -/
def admits (x : Binary) (d : Figure) : Bool :=
  let fromBelow := x.lowerEnd.cmp d.scaled
  let toAbove := d.scaled.cmp x.upperEnd
  if x.mantissa % 2 = 0 then fromBelow.isLE && toAbove.isLE else fromBelow.isLT && toAbove.isLT

/-- The least `k` with the number below `10 ^ k`, searched near the estimate that the binary
logarithm gives. -/
def magnitude (x : Binary) : Int :=
  let estimate := ((x.mantissa.log2 : Int) + x.exponent) * 30103 / 100000
  let fits (k : Int) := (x.scaled.cmp ⟨1, 0, k⟩).isLT
  ([estimate - 1, estimate, estimate + 1, estimate + 2].find? fits).getD (estimate + 3)

/-- The neighbours of the number on the grid `10 ^ ten`, the nearer one if both are admitted; an
exact tie goes to the even one. -/
def onGrid (x : Binary) (ten : Int) : Option Figure :=
  let y : Scaled := ⟨x.mantissa, x.exponent, -ten⟩
  let below := y.numerator / y.denominator
  let lo : Figure := ⟨below, ten⟩
  let hi : Figure := ⟨below + 1, ten⟩
  match x.admits lo && below ≠ 0, x.admits hi with
  | true, true =>
    match compare (2 * y.numerator) ((2 * below + 1) * y.denominator) with
    | .lt => some lo
    | .gt => some hi
    | .eq => some (if below % 2 = 0 then lo else hi)
  | true, false => some lo
  | false, true => some hi
  | false, false => none

/-- The exact decimal value. -/
def exact (x : Binary) : Figure :=
  if 0 ≤ x.exponent then ⟨x.mantissa * Nat.pow 2 x.exponent.toNat, 0⟩
  else ⟨x.mantissa * Nat.pow 5 (-x.exponent).toNat, x.exponent⟩

/-- The first grid with an admitted neighbour, from one digit to seventeen. -/
def search (x : Binary) : Option Figure :=
  (List.range 17).findSome? fun n => x.onGrid (x.magnitude - (n + 1 : Nat))

end Binary

/-- Drop zeros at the end of the digits, at most `fuel` of them. -/
def stripZeros : Nat → Figure → Figure
  | 0, d => d
  | fuel + 1, d =>
    if d.digits ≠ 0 ∧ d.digits % 10 = 0 then stripZeros fuel ⟨d.digits / 10, d.exponent + 1⟩ else d

/-- The shortest decimal that rounds to a positive double. -/
def Binary.shortest (x : Binary) : Figure :=
  let d := x.search.getD x.exact
  stripZeros d.digits.log2 d

theorem Binary.onGrid_admits {x : Binary} {ten : Int} {d : Figure} (h : x.onGrid ten = some d) :
    x.admits d = true := by
  unfold onGrid at h
  simp only at h
  split at h
  · rename_i h1 h2
    simp only [Bool.and_eq_true] at h1
    split at h
    · injection h with h; rw [← h]; exact h1.1
    · injection h with h; rw [← h]; exact h2
    · injection h with h
      rw [← h]
      split
      · exact h1.1
      · exact h2
  · rename_i h1 _
    simp only [Bool.and_eq_true] at h1
    injection h with h; rw [← h]; exact h1.1
  · rename_i h2
    injection h with h; rw [← h]; exact h2
  · cases h

/-- What the search finds lies in the interval of the double. -/
theorem Binary.search_admits {x : Binary} {d : Figure} (h : x.search = some d) :
    x.admits d = true := by
  obtain ⟨n, _, hn⟩ := List.exists_of_findSome?_eq_some h
  exact onGrid_admits hn

/-- The decimal before its zeros are dropped is in the interval, or exact. -/
theorem Binary.shortest_spec (x : Binary) :
    ∃ d, x.shortest = stripZeros d.digits.log2 d ∧ (x.admits d = true ∨ d = x.exact) := by
  refine ⟨x.search.getD x.exact, rfl, ?_⟩
  cases h : x.search with
  | none => exact .inr rfl
  | some d => exact .inl (search_admits h)

/-- Dropping zeros at the end only moves powers of ten into the exponent. -/
theorem stripZeros_value (fuel : Nat) (d : Figure) :
    ∃ k : Nat, d.digits = (stripZeros fuel d).digits * Nat.pow 10 k ∧
      (stripZeros fuel d).exponent = d.exponent + k := by
  induction fuel generalizing d with
  | zero => exact ⟨0, by simp [stripZeros]⟩
  | succ fuel ih =>
    unfold stripZeros
    split
    · rename_i h
      obtain ⟨k, h1, h2⟩ := ih ⟨d.digits / 10, d.exponent + 1⟩
      refine ⟨k + 1, ?_, by rw [h2]; simp; omega⟩
      simp only at h1
      rw [show Nat.pow 10 (k + 1) = Nat.pow 10 k * 10 from rfl, ← Nat.mul_assoc, ← h1]
      omega
    · exact ⟨0, by simp⟩

/-- What is positive stays so when zeros at its end are dropped. -/
theorem stripZeros_pos {fuel : Nat} {d : Figure} (h : 0 < d.digits) : 0 < (stripZeros fuel d).digits := by
  obtain ⟨k, hdigits, _⟩ := stripZeros_value fuel d
  refine Nat.pos_of_ne_zero fun hzero => ?_
  rw [hzero, Nat.zero_mul] at hdigits
  omega

theorem Binary.onGrid_pos {x : Binary} {ten : Int} {d : Figure} (h : x.onGrid ten = some d) : 0 < d.digits := by
  unfold onGrid at h
  dsimp only at h
  generalize hbelow : Scaled.numerator _ / Scaled.denominator _ = below at h
  have hlo : (x.admits ⟨below, ten⟩ && decide (below ≠ 0)) = true → 0 < below := by
    intro hadmits
    rw [Bool.and_eq_true, decide_eq_true_eq] at hadmits
    exact Nat.pos_of_ne_zero hadmits.2
  split at h
  · rename_i hadmits _
    split at h
    · cases h
      exact hlo hadmits
    · cases h
      exact Nat.succ_pos _
    · cases h
      split
      · exact hlo hadmits
      · exact Nat.succ_pos _
  · rename_i hadmits _
    cases h
    exact hlo hadmits
  · cases h
    exact Nat.succ_pos _
  · cases h

theorem Binary.exact_pos {x : Binary} (h : 0 < x.mantissa) : 0 < x.exact.digits := by
  unfold exact
  split
  · exact Nat.mul_pos h (Nat.pow_pos (by decide))
  · exact Nat.mul_pos h (Nat.pow_pos (by decide))

/-- The shortest decimal of a positive double is positive. -/
theorem Binary.shortest_pos {x : Binary} (h : 0 < x.mantissa) : 0 < x.shortest.digits := by
  refine stripZeros_pos ?_
  cases hsearch : x.search with
  | none => exact exact_pos h
  | some d =>
    obtain ⟨n, _, hn⟩ := List.exists_of_findSome?_eq_some hsearch
    exact onGrid_pos hn

end FormFlow.Decimal
