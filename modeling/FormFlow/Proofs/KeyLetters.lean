import FormFlow.Alias

/-!
# What a normalized spelling keeps of a name

Normalizing trims a name, lowercases it, blanks what parts its words, trims again and drops the blanks.
In effect it looks at each character alone: an ASCII letter or digit leaves its lowercase form, the dotted
capital `İ` leaves an `i`, the Kelvin sign a `k`, and every other character of Unicode leaves nothing.
So it does not matter where the name is cut, what stands between its words, or which of its two
lowercase forms a capital sigma takes.

## Principal results

* `keyLetters_eq` — what each character of Unicode leaves;
* `normalizeChars_flatMap` — a name leaves what its characters leave, one after the other;
* `Interleaved.normalizeKey_eq_iff` — which characters can be put into a name without a trace;
* `normalizeKey_exact` — normalizing is lowercasing and filtering, with what follows from it.
-/

namespace FormFlow

/-! ## One character -/

/-- The key characters that one character of a name leaves in the normalized spelling. -/
def keyLetters (c : Char) : List Char := (Text.lowerChar c).filter isKeyChar

/-- A character whose lowercase form holds no key character. -/
def Mute (c : Char) : Prop := ∀ d ∈ Text.lowerChar c, isKeyChar d = false

theorem keyLetters_eq_nil_iff {c : Char} : keyLetters c = [] ↔ Mute c := by
  simp only [keyLetters, List.filter_eq_nil_iff, Bool.not_eq_true, Mute]

instance (c : Char) : Decidable (Mute c) := decidable_of_iff (keyLetters c = []) keyLetters_eq_nil_iff

/-- On ASCII, letters and digits leave their lowercase form. -/
theorem keyLetters_ascii {c : Char} (h : c.toNat < 128) :
    keyLetters c = if c.isAlphanum then [c.toLower] else [] := by
  have hlower : Text.lowerChar c = [c.toLower] := Text.of_ascii h Text.lower_ascii
  have hkey : isKeyChar c.toLower = c.isAlphanum := Text.of_ascii h (by decide +kernel)
  rw [keyLetters, hlower, List.filter_cons, hkey, List.filter_nil]

/-- A character outside ASCII that is neither the dotted `İ` nor the Kelvin sign is mute. -/
theorem mute_of_not_ascii {c : Char} (h : 128 ≤ c.toNat) (hdotted : c ≠ '\u0130')
    (hkelvin : c ≠ '\u212a') : Mute c := by
  intro d hd
  rw [Text.lowerChar, if_neg hdotted, List.mem_singleton] at hd
  rw [← Bool.not_eq_true, hd]
  intro hkey
  have hsmall := toNat_lt_of_isKeyChar hkey
  by_cases hvalid : (Text.lowerCode c.toNat).isValidChar
  · have hcode : (Char.ofNat (Text.lowerCode c.toNat)).toNat = Text.lowerCode c.toNat := by
      rw [Char.ofNat, dif_pos hvalid]
      rfl
    rw [hcode] at hsmall
    rcases Text.lowerCode_lt hsmall with hascii | hsign
    · omega
    · exact hkelvin (Char.toNat_inj.1 hsign)
  · -- A number that is no code point stands for the null character.
    rw [Char.ofNat, dif_neg hvalid] at hkey
    revert hkey
    decide

theorem isAlphanum_lt {c : Char} (h : c.isAlphanum = true) : c.toNat < 128 := by
  delta Char.isAlphanum Char.isAlpha Char.isUpper Char.isLower Char.isDigit at h
  simp only [Bool.or_eq_true, Bool.and_eq_true, decide_eq_true_eq, ge_iff_le,
    UInt32.le_iff_toNat_le] at h
  have hZ : 'Z'.val.toNat = 90 := rfl
  have hz : 'z'.val.toNat = 122 := rfl
  have hnine : '9'.val.toNat = 57 := rfl
  show c.val.toNat < 128
  omega

/-- **What each character of Unicode leaves in a normalized spelling.** -/
theorem keyLetters_eq (c : Char) :
    keyLetters c =
      if c.isAlphanum then [c.toLower]
      else if c = '\u0130' then ['i'] else if c = '\u212a' then ['k'] else [] := by
  by_cases hdotted : c = '\u0130'
  · subst hdotted
    decide +kernel
  by_cases hkelvin : c = '\u212a'
  · subst hkelvin
    decide +kernel
  rw [if_neg hdotted, if_neg hkelvin]
  by_cases hascii : c.toNat < 128
  · exact keyLetters_ascii hascii
  · have halphanum : ¬ c.isAlphanum = true := fun h => hascii (isAlphanum_lt h)
    rw [if_neg halphanum, keyLetters_eq_nil_iff]
    exact mute_of_not_ascii (by omega) hdotted hkelvin

theorem mute_iff {c : Char} :
    Mute c ↔ c.isAlphanum = false ∧ c ≠ '\u0130' ∧ c ≠ '\u212a' := by
  rw [← keyLetters_eq_nil_iff, keyLetters_eq]
  split
  · simp [*]
  · split
    · simp [*]
    · split <;> simp [*]

/-- A blank leaves nothing. -/
theorem mute_of_isBlank {c : Char} (h : Text.isBlank c = true) : Mute c := by
  refine mute_iff.2 ⟨?_, ?_, ?_⟩
  · rw [← Bool.not_eq_true]
    intro halphanum
    have hletter : c.isAlphanum = true → Text.isBlank c = false :=
      Text.of_ascii (isAlphanum_lt halphanum) (by decide +kernel)
    rw [hletter halphanum] at h
    cases h
  · rintro rfl
    revert h
    decide
  · rintro rfl
    revert h
    decide

/-! ## Whole names -/

/-- A name leaves what its characters leave, one after the other. -/
theorem normalizeChars_flatMap (cs : List Char) : normalizeChars cs = cs.flatMap keyLetters := by
  -- Blanks are mute, so a text without its blanks leaves the same.
  have hblanks (ds : List Char) :
      (ds.filter fun c => !Text.isBlank c).flatMap keyLetters = ds.flatMap keyLetters := by
    induction ds with
    | nil => rfl
    | cons d ds ih =>
      cases hd : Text.isBlank d with
      | false => simp [hd, ih]
      | true => simp [hd, ih, keyLetters_eq_nil_iff.2 (mute_of_isBlank hd)]
  calc normalizeChars cs
      = (Text.trim cs).flatMap keyLetters := by
        rw [normalizeChars_eq, Text.lower, List.filter_flatMap]
        rfl
    _ = ((Text.trim cs).filter fun c => !Text.isBlank c).flatMap keyLetters := (hblanks _).symm
    _ = (cs.filter fun c => !Text.isBlank c).flatMap keyLetters := by rw [Text.filter_trim]
    _ = cs.flatMap keyLetters := hblanks cs

/-- A name keeps the key characters of its lowercase form, whichever forms its sigmas take. -/
theorem normalizeChars_lower (casing : Text.Casing) (cs : List Char) :
    normalizeChars cs = (casing.lower cs).filter isKeyChar := by
  rw [normalizeChars_flatMap, casing.filter_lower (by decide) (by decide), Text.lower,
    List.filter_flatMap]
  rfl

/-- The five steps of normalizing give the same name whichever forms its sigmas take. -/
theorem normalizeChars_steps (casing : Text.Casing) (cs : List Char) :
    normalizeChars cs =
      (Text.trim (spaced (casing.lower (Text.trim cs)))).filter fun c => !Text.isBlank c := by
  rw [joined_filter, casing.filter_lower (by decide) (by decide), normalizeChars_eq]

theorem normalizeKey_append (a b : String) : normalizeKey (a ++ b) = normalizeKey a ++ normalizeKey b := by
  unfold normalizeKey
  rw [String.toList_append, normalizeChars_flatMap, List.flatMap_append, String.ofList_append,
    normalizeChars_flatMap, normalizeChars_flatMap]

/-! ## Characters put in -/

/-- A text put together from the characters of another text and from characters added to it, at any places,
each in their order. -/
inductive Interleaved : List Char → List Char → List Char → Prop
  | nil : Interleaved [] [] []
  | keep {c : Char} {kept added whole : List Char} :
      Interleaved kept added whole → Interleaved (c :: kept) added (c :: whole)
  | add {c : Char} {kept added whole : List Char} :
      Interleaved kept added whole → Interleaved kept (c :: added) (c :: whole)

namespace Interleaved

variable {kept added whole : List Char}

/-- The whole leaves as many characters as its two parts together. -/
theorem length_normalizeChars (h : Interleaved kept added whole) :
    (normalizeChars whole).length = (normalizeChars kept).length + (normalizeChars added).length := by
  simp only [normalizeChars_flatMap]
  induction h with
  | nil => rfl
  | keep _ ih =>
    simp only [List.flatMap_cons, List.length_append]
    omega
  | add _ ih =>
    simp only [List.flatMap_cons, List.length_append]
    omega

/-- What is added and mute leaves no trace. -/
theorem normalizeChars_of_mute (h : Interleaved kept added whole) (hmute : ∀ c ∈ added, Mute c) :
    normalizeChars whole = normalizeChars kept := by
  simp only [normalizeChars_flatMap]
  induction h with
  | nil => rfl
  | keep _ ih => rw [List.flatMap_cons, List.flatMap_cons, ih hmute]
  | add _ ih =>
    rw [List.forall_mem_cons] at hmute
    rw [List.flatMap_cons, keyLetters_eq_nil_iff.2 hmute.1, List.nil_append, ih hmute.2]

/-- Characters can be put into a name without a trace exactly when they are mute. -/
theorem normalizeKey_eq_iff {name padded : String}
    (h : Interleaved name.toList added padded.toList) :
    normalizeKey padded = normalizeKey name ↔ ∀ c ∈ added, Mute c := by
  constructor
  · intro hsame
    have hchars := String.ofList_inj.1 hsame
    have hlength := h.length_normalizeChars
    rw [hchars] at hlength
    have hnone : normalizeChars added = [] := List.length_eq_zero_iff.1 (by omega)
    rw [normalizeChars_flatMap, List.flatMap_eq_nil_iff] at hnone
    exact fun c hc => keyLetters_eq_nil_iff.1 (hnone c hc)
  · intro hmute
    rw [normalizeKey, h.normalizeChars_of_mute hmute, normalizeKey]

end Interleaved

/-! ## Normalizing as a filter -/

/-- **Normalizing is lowercasing and filtering.**  Whichever characters decide where a word ends, and so which
form a capital sigma takes: trimming, lowercasing, blanking what parts the words, trimming and dropping the
blanks gives the normalized name, and so does dropping all but key characters from the lowercase form of the
whole name.  Hence names are normalized piece by piece, a second time changes nothing, and characters put in
at any places change nothing exactly when the lowercase form of none of them holds a key character. -/
theorem normalizeKey_exact (casing : Text.Casing) :
    (∀ name : String,
      normalizeKey name = String.ofList
          ((Text.trim (spaced (casing.lower (Text.trim name.toList)))).filter fun c => !Text.isBlank c) ∧
        normalizeKey name = String.ofList ((casing.lower name.toList).filter isKeyChar)) ∧
      (∀ a b : String, normalizeKey (a ++ b) = normalizeKey a ++ normalizeKey b) ∧
      (∀ name : String, normalizeKey (normalizeKey name) = normalizeKey name) ∧
      ∀ (name padded : String) (added : List Char),
        Interleaved name.toList added padded.toList →
          (normalizeKey padded = normalizeKey name ↔
            ∀ c ∈ added, ∀ d ∈ Text.lowerChar c, isKeyChar d = false) := by
  refine ⟨?_, normalizeKey_append, normalizeKey_idem, ?_⟩
  · intro name
    constructor
    · rw [normalizeKey, normalizeChars_steps casing]
    · rw [normalizeKey, normalizeChars_lower casing]
  · intro name padded added h
    exact h.normalizeKey_eq_iff

/-- A sigma at the end of a word and a hyphen, put into a name with the two capitals outside ASCII that leave
a letter. -/
theorem normalizeKey_exact_signs :
    Interleaved "\u0130D 7\u212a".toList ['Σ', '-'] "\u0130DΣ 7-\u212a".toList ∧
      normalizeKey "\u0130DΣ 7-\u212a" = normalizeKey "\u0130D 7\u212a" := by
  have hput : Interleaved "\u0130D 7\u212a".toList ['Σ', '-'] "\u0130DΣ 7-\u212a".toList :=
    .keep (.keep (.add (.keep (.keep (.add (.keep .nil))))))
  have hmute : ∀ c ∈ ['Σ', '-'], Mute c :=
    List.forall_mem_cons.2 ⟨by decide +kernel, List.forall_mem_singleton.2 (by decide +kernel)⟩
  have hspellings := normalizeKey_exact ⟨fun c => c.isAlpha || decide ('Α' ≤ c), fun c => c == '-'⟩
  exact ⟨hput, (hspellings.2.2.2 _ _ _ hput).2 hmute⟩

example : normalizeKey "\u0130DΣ 7-\u212a" = "id7k" := by
  decide +kernel

end FormFlow
