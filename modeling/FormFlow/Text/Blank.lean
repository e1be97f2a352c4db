/-!
# Blank characters and trimming

`isBlank` is the class of characters that separate words: the white space of Unicode together with
the four information separators.  Texts are lists of characters here, so that trimming is dropping
from the two ends.

## Principal results

* `filter_trimWhere_not`, `filter_trim` — trimming drops nothing but what it is told to;
* `trimWhere_nil_iff` — a text trims to nothing exactly when all of it is dropped;
* `trimWhere_head`, `trimWhere_getLast` — a trimmed text neither starts nor ends with a dropped
  character;
* `trim_padded`, `trim_eq_self` — a text without blanks at its ends comes out of the blanks around it, and
  is left alone where there are none.
-/

namespace FormFlow.Text

/-- Membership of a code point in a list of closed ranges. -/
def inRanges (ranges : List (Nat × Nat)) (n : Nat) : Bool :=
  ranges.any fun r => r.1 ≤ n && n ≤ r.2

/-- The closed ranges of blank characters, ascending and apart. -/
def blankRanges : List (Nat × Nat) :=
  [(0x09, 0x0D), (0x1C, 0x20), (0x85, 0x85), (0xA0, 0xA0), (0x1680, 0x1680), (0x2000, 0x200A),
   (0x2028, 0x2029), (0x202F, 0x202F), (0x205F, 0x205F), (0x3000, 0x3000)]

/-- A character that separates words. -/
def isBlank (c : Char) : Bool := inRanges blankRanges c.toNat

/-- White space proper: the blanks other than the four information separators. -/
def isSpace (c : Char) : Bool := isBlank c && !inRanges [(0x1C, 0x1F)] c.toNat

/-- What holds of the first 128 code points holds of every ASCII character. -/
@[elab_as_elim]
theorem of_ascii {motive : Char → Prop} {c : Char} (hc : c.toNat < 128)
    (h : ∀ n < 128, motive (Char.ofNat n)) : motive c := by
  have hp := h c.toNat hc
  rwa [Char.ofNat_toNat] at hp

/-! ## Trimming -/

/-- Drop the characters of a class from the right end. -/
def dropRight (p : Char → Bool) (cs : List Char) : List Char := (cs.reverse.dropWhile p).reverse

/-- Drop the characters of a class from both ends. -/
def trimWhere (p : Char → Bool) (cs : List Char) : List Char := dropRight p (cs.dropWhile p)

/-- Drop blanks from both ends. -/
def trim (cs : List Char) : List Char := trimWhere isBlank cs

/-- Drop blanks from both ends of a string. -/
def trimString (s : String) : String := String.ofList (trim s.toList)

section

variable {p : Char → Bool} {cs : List Char}

theorem dropWhile_eq_nil_iff : cs.dropWhile p = [] ↔ ∀ c ∈ cs, p c = true := by
  induction cs with
  | nil => simp
  | cons c cs ih => by_cases h : p c = true <;> simp [h, ih]

theorem dropWhile_head {c : Char} {rest : List Char} (h : cs.dropWhile p = c :: rest) :
    p c = false := by
  induction cs with
  | nil => simp at h
  | cons d cs ih =>
    by_cases hd : p d = true
    · exact ih (by simpa [hd] using h)
    · simp [hd] at h
      simpa [h.1] using hd

/-- Dropping a class of characters keeps all others, in order. -/
theorem filter_dropWhile_not (p : Char → Bool) (cs : List Char) :
    (cs.dropWhile fun d => !p d).filter p = cs.filter p := by
  induction cs with
  | nil => rfl
  | cons c cs ih =>
    by_cases h : p c = true
    · simp [h]
    · simp [h, ih]

/-- Trimming keeps all characters of other classes, in order. -/
theorem filter_trimWhere_not (p : Char → Bool) (cs : List Char) :
    (trimWhere (fun d => !p d) cs).filter p = cs.filter p := by
  unfold trimWhere dropRight
  rw [List.filter_reverse, filter_dropWhile_not, ← List.filter_reverse, List.reverse_reverse,
    filter_dropWhile_not]

theorem dropRight_nil_iff : dropRight p cs = [] ↔ ∀ c ∈ cs, p c = true := by
  rw [dropRight, List.reverse_eq_nil_iff, dropWhile_eq_nil_iff]
  exact ⟨fun h c hc => h c (List.mem_reverse.2 hc), fun h c hc => h c (List.mem_reverse.1 hc)⟩

/-- A text trims to nothing exactly when all of it is dropped. -/
theorem trimWhere_nil_iff : trimWhere p cs = [] ↔ ∀ c ∈ cs, p c = true := by
  unfold trimWhere
  rw [dropRight_nil_iff]
  constructor
  · intro h
    by_cases hd : cs.dropWhile p = []
    · exact dropWhile_eq_nil_iff.1 hd
    · obtain ⟨c, rest, hc⟩ := List.exists_cons_of_ne_nil hd
      have h1 := dropWhile_head hc
      have h2 := h c (by simp [hc])
      simp [h1] at h2
  · intro h c hc
    exact h c ((List.dropWhile_sublist p).subset hc)

/-- What remains does not start with a dropped character. -/
theorem trimWhere_head {c : Char} {rest : List Char} (h : trimWhere p cs = c :: rest) :
    p c = false := by
  unfold trimWhere dropRight at h
  cases hd : cs.dropWhile p with
  | nil => rw [hd] at h; simp at h
  | cons d ds =>
    have hkept := dropWhile_head hd
    rw [hd, List.reverse_cons, List.dropWhile_append] at h
    split at h
    · simp [hkept] at h
      simpa [← h.1] using hkept
    · simp at h
      simpa [← h.1] using hkept

/-- What remains does not end with a dropped character. -/
theorem trimWhere_getLast {c : Char} {front : List Char} (h : trimWhere p cs = front ++ [c]) :
    p c = false := by
  unfold trimWhere dropRight at h
  rw [List.reverse_eq_iff] at h
  simp only [List.reverse_append, List.reverse_cons, List.reverse_nil, List.nil_append,
    List.singleton_append] at h
  exact dropWhile_head h

end

/-- Trimming keeps whatever is no blank. -/
theorem filter_trim (cs : List Char) :
    (trim cs).filter (fun c => !isBlank c) = cs.filter fun c => !isBlank c := by
  have hblank : isBlank = fun c => !(fun d => !isBlank d) c := by
    funext c
    simp
  unfold trim
  rw [hblank]
  simpa using filter_trimWhere_not (fun c => !isBlank c) cs

theorem trim_subset (cs : List Char) : trim cs ⊆ cs := by
  intro c hc
  unfold trim trimWhere dropRight at hc
  have hc := (List.dropWhile_sublist _).subset (List.mem_reverse.1 hc)
  exact (List.dropWhile_sublist _).subset (List.mem_reverse.1 hc)

/-- Blanks around a text without blanks at its ends are trimmed. -/
theorem trim_padded {before cs after : List Char} (hbefore : ∀ c ∈ before, isBlank c = true)
    (hafter : ∀ c ∈ after, isBlank c = true) (hhead : ∀ c ∈ cs.head?, isBlank c = false)
    (hlast : ∀ c ∈ cs.getLast?, isBlank c = false) : trim (before ++ cs ++ after) = cs := by
  have hdrop : ∀ {blanks kept : List Char}, (∀ c ∈ blanks, isBlank c = true) →
      (∀ c ∈ kept.head?, isBlank c = false) → (blanks ++ kept).dropWhile isBlank = kept := by
    intro blanks kept hblanks hkept
    rw [List.dropWhile_append_of_pos hblanks]
    cases kept with
    | nil => rfl
    | cons d ds => exact List.dropWhile_cons_of_neg (by simp [hkept d rfl])
  cases cs with
  | nil =>
    refine trimWhere_nil_iff.2 fun c hc => ?_
    rw [List.append_nil, List.mem_append] at hc
    exact hc.elim (hbefore c) (hafter c)
  | cons c cs =>
    have hfront : (before ++ (c :: cs ++ after)).dropWhile isBlank = c :: cs ++ after :=
      hdrop hbefore hhead
    have hback : (after.reverse ++ (c :: cs).reverse).dropWhile isBlank = (c :: cs).reverse := by
      refine hdrop (fun d hd => hafter d (List.mem_reverse.1 hd)) ?_
      rwa [List.head?_reverse]
    unfold trim trimWhere dropRight
    rw [List.append_assoc, hfront, List.reverse_append, hback, List.reverse_reverse]

theorem trim_eq_self {cs : List Char} (hhead : ∀ c ∈ cs.head?, isBlank c = false)
    (hlast : ∀ c ∈ cs.getLast?, isBlank c = false) : trim cs = cs := by
  have h : trim ([] ++ cs ++ []) = cs := trim_padded (by simp) (by simp) hhead hlast
  simpa using h

end FormFlow.Text
