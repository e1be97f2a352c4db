/-!
# Hexadecimal digits

Numbers of a fixed width in base sixteen, written in lowercase and read in either case.

## Principal results

* `length_hex` — a number takes exactly the width asked for;
* `ofHex?_hex` — reading back what was written gives the number modulo `16 ^ width`.
-/

namespace FormFlow.Text

/-- The last `width` hexadecimal digits of a number. -/
def hex : Nat → Nat → List Char
  | 0, _ => []
  | width + 1, n => hex width (n / 16) ++ [Nat.digitChar (n % 16)]

/-- The value of one hexadecimal digit. -/
def hexValue? (c : Char) : Option Nat :=
  if '0' ≤ c ∧ c ≤ '9' then some (c.toNat - 48)
  else if 'a' ≤ c ∧ c ≤ 'f' then some (c.toNat - 87)
  else if 'A' ≤ c ∧ c ≤ 'F' then some (c.toNat - 55)
  else none

/-- The number that hexadecimal digits write. -/
def ofHex? (cs : List Char) : Option Nat :=
  cs.foldlM (fun n c => (hexValue? c).map fun d => 16 * n + d) 0

@[simp] theorem length_hex (width n : Nat) : (hex width n).length = width := by
  induction width generalizing n with
  | zero => rfl
  | succ width ih => simp [hex, ih]

theorem hexValue?_digitChar : ∀ d < 16, hexValue? (Nat.digitChar d) = some d := by decide

/-- What `hex` writes is read back, up to the digits that the width cuts off. -/
theorem ofHex?_hex (width n : Nat) : ofHex? (hex width n) = some (n % Nat.pow 16 width) := by
  unfold ofHex?
  induction width generalizing n with
  | zero => simp [hex, Nat.mod_one]
  | succ width ih =>
    have h := hexValue?_digitChar (n % 16) (Nat.mod_lt _ (by decide))
    simp only [hex, List.foldlM_append, ih, List.foldlM_cons, List.foldlM_nil, h, Option.map_some,
      Option.bind_eq_bind, Option.bind_some, Option.pure_def]
    congr 1
    rw [show Nat.pow 16 (width + 1) = 16 * Nat.pow 16 width from Nat.mul_comm _ _, Nat.mod_mul]
    omega

end FormFlow.Text
