import FormFlow.Text.DecimalDigit

/-!
# Integers in text

An integer is an optional sign and digits, between which single underscores may stand.  Which
characters are digits is a parameter: those of ASCII, or those of every script.

## Principal results

* `ungroup_digits` — digits alone are read one by one;
* `readInt?_toDigits` — a number in decimal is read back.
-/

namespace FormFlow

/-- The most digits of an integer in a text. -/
def digitLimit : Nat := 4300

namespace Text

/-- The value of an ASCII digit. -/
def asciiDigit? (c : Char) : Option Nat := if c.isDigit then some (c.toNat - 48) else none

/-- The values of digits with single underscores between them; `afterDigit` tells whether a digit
stands just before. -/
def ungroup (digit? : Char → Option Nat) : Bool → List Char → Option (List Nat)
  | afterDigit, [] => if afterDigit then some [] else none
  | afterDigit, c :: cs =>
    if c = '_' then if afterDigit then ungroup digit? false cs else none
    else
      match digit? c with
      | some d => (ungroup digit? true cs).map (d :: ·)
      | none => none

/-- The number that decimal digits write. -/
def ofDigits (ds : List Nat) : Nat := ds.foldl (fun n d => 10 * n + d) 0

/-- Take a sign off the front: whether it was a minus, and the rest. -/
def splitSign : List Char → Bool × List Char
  | '-' :: cs => (true, cs)
  | '+' :: cs => (false, cs)
  | cs => (false, cs)

/-- Read an integer. -/
def readInt? (digit? : Char → Option Nat) (cs : List Char) : Option Int :=
  let (negative, body) := splitSign cs
  (ungroup digit? false body).map fun ds =>
    let n : Int := ofDigits ds
    if negative then -n else n

theorem ungroup_digits {digit? : Char → Option Nat} {cs : List Char} (h0 : digit? '_' = none)
    (h : ∀ c ∈ cs, (digit? c).isSome = true) :
    ungroup digit? true cs = some (cs.filterMap digit?) := by
  induction cs with
  | nil => rfl
  | cons c cs ih =>
    have hc := h c (by simp)
    have hne : c ≠ '_' := fun e => by simp [e, h0] at hc
    obtain ⟨d, hd⟩ := Option.isSome_iff_exists.1 hc
    simp [ungroup, hne, hd, ih fun x hx => h x (by simp [hx])]

theorem foldl_asciiDigit? {cs : List Char} (h : ∀ c ∈ cs, c.isDigit = true) (n : Nat) :
    (cs.filterMap asciiDigit?).foldl (fun n d => 10 * n + d) n = Nat.ofDigitChars 10 cs n := by
  induction cs generalizing n with
  | nil => rfl
  | cons c cs ih =>
    have hc := h c (by simp)
    simp only [List.filterMap_cons, asciiDigit?, hc, if_true, List.foldl_cons]
    exact ih (fun d hd => h d (by simp [hd])) _

/-- A number in decimal is read back. -/
theorem readInt?_toDigits (n : Nat) : readInt? asciiDigit? (Nat.toDigits 10 n) = some (n : Int) := by
  have hdigit : ∀ c ∈ Nat.toDigits 10 n, c.isDigit = true :=
    fun c hc => Nat.isDigit_of_mem_toDigits (by decide) (by decide) hc
  have hval := foldl_asciiDigit? hdigit 0
  rw [Nat.ofDigitChars_toDigits (by decide) (by decide)] at hval
  cases hcs : Nat.toDigits 10 n with
  | nil => exact absurd hcs Nat.toDigits_ne_nil
  | cons c cs =>
    rw [hcs] at hdigit hval
    have hc := hdigit c (by simp)
    have hsign : splitSign (c :: cs) = (false, c :: cs) := by
      unfold splitSign
      split <;> simp_all
    have hne : c ≠ '_' := by rintro rfl; simp at hc
    have hrest := @ungroup_digits asciiDigit? cs (by decide)
      fun d hd => by simp [asciiDigit?, hdigit d (by simp [hd])]
    have hread : ungroup asciiDigit? false (c :: cs) = some ((c :: cs).filterMap asciiDigit?) := by
      simp [ungroup, hne, asciiDigit?, hc, hrest]
    simp [readInt?, hsign, hread, ofDigits, hval]

end Text

end FormFlow
