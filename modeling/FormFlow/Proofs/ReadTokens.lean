import FormFlow.Json.Canonical
import FormFlow.Json.Reader
import Mathlib.Data.List.Basic

/-!
# Reading strings back

Each printed form has its own escapes, but a reader takes the same code point from all of them, surrogates in
pairs.  A style in which gaps are white space and escapes are read as their characters is `Legible`: strings are
read back from it.  Digits are taken together wherever no number goes on behind them.

## Principal results

* `charUnits_read` — a character is read back from the escapes of its 16-bit units;
* `escapeAscii_reads`, `escapeCanonical_reads` — the escapes of every character are read as that character;
* `compact_legible`, `inline_legible`, `indented_legible` — the printed forms are legible;
* `readString_string` — a string is read back from behind its opening quote;
* `wholePart?_append` — digits are taken together.
-/

namespace FormFlow.Json

/-! ## Characters -/

/-- Put a code point in front of what was read of a string. -/
def consPoint (n : Nat) (found : Except ReadError (Points × List Char)) : Except ReadError (Points × List Char) :=
  found.map fun (more, rest) => (n :: more, rest)

/-- A code point is the first that is read from an escape, wherever the string goes on behind it. -/
def ReadsAs (escaped : List Char) (n : Nat) : Prop :=
  ∀ opening fuel rest, rest ≠ [] →
    readString opening (fuel + 1) (escaped ++ rest) = consPoint n (readString opening fuel rest)

/-- A character that is no quote, no backslash and no control character stands for itself. -/
theorem self_reads {c : Char} (hquote : c ≠ '"') (hslash : c ≠ '\\') (hcontrol : ¬ c.toNat < 0x20) :
    ReadsAs [c] c.toNat := by
  intro opening fuel rest _
  rw [List.singleton_append, readString, if_neg hcontrol]
  · rfl
  · exact fun heq => absurd heq hslash
  · exact hquote
  · exact fun _ heq => absurd heq hslash
  · exact fun _ _ heq => absurd heq hslash

theorem escape_reads {c e : Char} (h : unescape? e = some c) : ReadsAs ['\\', e] c.toNat := by
  intro opening fuel rest _
  rw [List.cons_append, List.singleton_append, readString]
  · rw [h]
    rfl
  · rintro rfl
    cases h

theorem unescape?_shortEscape? {c e : Char} (h : shortEscape? c = some e) : unescape? e = some c := by
  unfold shortEscape? at h
  split at h <;> first | (injection h with h; subst h; decide) | cases h

theorem shortEscape_reads {c e : Char} (h : shortEscape? c = some e) : ReadsAs ['\\', e] c.toNat :=
  escape_reads (unescape?_shortEscape? h)

section

variable {a b c d : Char} {n : Nat} {opening fuel : Nat} {rest : List Char}

/-- A unit with no surrogate to join stands for itself. -/
theorem readString_unit (hdigits : Text.ofHex? [a, b, c, d] = some n)
    (halone : 0xD800 ≤ n ∧ n < 0xDC00 → lowSurrogate? rest = none) (hrest : rest ≠ []) :
    readString opening (fuel + 1) ('\\' :: 'u' :: a :: b :: c :: d :: rest) =
      consPoint n (readString opening fuel rest) := by
  obtain ⟨e, after, rfl⟩ := List.exists_cons_of_ne_nil hrest
  rw [readString]
  simp only [hdigits]
  split
  · rename_i hhigh
    rw [halone hhigh]
    rfl
  · rfl

/-- Two units that are surrogates stand for the one code point of the pair. -/
theorem readString_pair (hdigits : Text.ofHex? [a, b, c, d] = some n) (hhigh : 0xD800 ≤ n ∧ n < 0xDC00) {m : Nat}
    {after : List Char} (hlow : lowSurrogate? rest = some (m, after)) :
    readString opening (fuel + 1) ('\\' :: 'u' :: a :: b :: c :: d :: rest) =
      consPoint (0x10000 + (n - 0xD800) * 0x400 + (m - 0xDC00)) (readString opening fuel after) := by
  -- The reader asks for a fifth character, which is the backslash of the second escape.
  obtain ⟨e, rest, rfl⟩ := List.exists_cons_of_ne_nil (show rest ≠ [] by
    rintro rfl
    cases hlow)
  rw [readString]
  simp only [hdigits]
  rw [if_pos hhigh, hlow]
  rfl

end

/-- A numeric escape has four digits, which write its unit. -/
theorem unitEscape_digits {n : Nat} (h : n < 0x10000) :
    ∃ a b c d, unitEscape n = ['\\', 'u', a, b, c, d] ∧ Text.ofHex? [a, b, c, d] = some n := by
  have hread := Text.ofHex?_hex 4 n
  rw [show n % Nat.pow 16 4 = n from Nat.mod_eq_of_lt h] at hread
  exact ⟨_, _, _, _, rfl, hread⟩

theorem unitEscape_reads {n : Nat} (h : n < 0xD800 ∨ 0xE000 ≤ n ∧ n < 0x10000) :
    ReadsAs (unitEscape n) n := by
  intro opening fuel rest hrest
  obtain ⟨a, b, c, d, hdigits, hread⟩ := unitEscape_digits (n := n) (by omega)
  rw [hdigits]
  exact readString_unit hread (fun hhigh => by omega) hrest

theorem lowSurrogate?_unitEscape {n : Nat} {rest : List Char} (h : 0xDC00 ≤ n ∧ n < 0xE000)
    (hrest : rest ≠ []) : lowSurrogate? (unitEscape n ++ rest) = some (n, rest) := by
  obtain ⟨a, b, c, d, hdigits, hread⟩ := unitEscape_digits (n := n) (by omega)
  rw [hdigits]
  simp only [List.cons_append, List.nil_append, lowSurrogate?, hread]
  rw [if_pos ⟨h.1, h.2, hrest⟩]

/-- Two escapes of surrogates are read as the one code point of the pair. -/
theorem surrogates_read {m n : Nat} (hm : 0xD800 ≤ m ∧ m < 0xDC00) (hn : 0xDC00 ≤ n ∧ n < 0xE000) :
    ReadsAs (unitEscape m ++ unitEscape n) (0x10000 + (m - 0xD800) * 0x400 + (n - 0xDC00)) := by
  intro opening fuel rest hrest
  obtain ⟨a, b, c, d, hdigits, hread⟩ := unitEscape_digits (n := m) (by omega)
  rw [List.append_assoc, hdigits]
  exact readString_pair hread hm (lowSurrogate?_unitEscape hn hrest)

/-- A character is read back from the escapes of its units. -/
theorem charUnits_read (c : Char) : ReadsAs ((Text.charUnits c).flatMap unitEscape) c.toNat := by
  have hvalid : c.toNat < 0xD800 ∨ 0xDFFF < c.toNat ∧ c.toNat < 0x110000 := c.valid
  unfold Text.charUnits
  dsimp only
  split
  · simpa using unitEscape_reads (n := c.toNat) (by omega)
  · have hreads := surrogates_read (m := 0xD800 + (c.toNat - 0x10000) / 0x400)
      (n := 0xDC00 + (c.toNat - 0x10000) % 0x400) (by omega) (by omega)
    rw [show 0x10000 + (0xD800 + (c.toNat - 0x10000) / 0x400 - 0xD800) * 0x400 +
      (0xDC00 + (c.toNat - 0x10000) % 0x400 - 0xDC00) = c.toNat by omega] at hreads
    simpa using hreads

theorem escapeAscii_reads (c : Char) : ReadsAs (escapeAscii c) c.toNat := by
  unfold escapeAscii
  split
  · rename_i e he
    exact shortEscape_reads he
  · rename_i hnone
    split
    · rename_i hplain
      have hspace : ' ' ≤ c := by simpa using (Bool.and_eq_true_iff.1 hplain).1
      have hspace : 0x20 ≤ c.toNat := hspace
      exact self_reads (by rintro rfl; cases hnone) (by rintro rfl; cases hnone) (by omega)
    · exact charUnits_read c

theorem escapeCanonical_reads (c : Char) : ReadsAs (escapeCanonical c) c.toNat := by
  unfold escapeCanonical
  split
  · rename_i e he
    exact shortEscape_reads he
  · rename_i hnone
    split
    · exact unitEscape_reads (by omega)
    · rename_i hcontrol
      exact self_reads (by rintro rfl; cases hnone) (by rintro rfl; cases hnone) hcontrol

/-! ## Legible styles -/

/-- A style from which values can be read back. -/
structure Style.Legible (style : Style) : Prop where
  inside : ∀ depth, ∀ c ∈ style.inside depth, isGap c = true
  afterComma : ∀ depth, ∀ c ∈ style.afterComma depth, isGap c = true
  afterColon : ∀ c ∈ style.afterColon, isGap c = true
  escape : ∀ c, ReadsAs (style.escape c) c.toNat

theorem compact_legible : compact.Legible where
  inside _ _ hc := by cases hc
  afterComma _ _ hc := by cases hc
  afterColon _ hc := by cases hc
  escape := escapeCanonical_reads

theorem inline_legible : inline.Legible where
  inside _ _ hc := by cases hc
  afterComma _ _ hc := by simp_all [inline, isGap]
  afterColon _ hc := by simp_all [inline, isGap]
  escape := escapeAscii_reads

theorem indented_legible : indented.Legible where
  inside depth _ hc := by
    rcases List.mem_cons.1 hc with rfl | hc
    · rfl
    · rw [List.eq_of_mem_replicate hc]
      rfl
  afterComma depth _ hc := by
    rcases List.mem_cons.1 hc with rfl | hc
    · rfl
    · rw [List.eq_of_mem_replicate hc]
      rfl
  afterColon _ hc := by simp_all [indented, isGap]
  escape := escapeAscii_reads

/-! ## Strings -/

/-- An escape from which a code point is read is not empty. -/
theorem ReadsAs.length_pos {escaped : List Char} {n : Nat} (h : ReadsAs escaped n) : 0 < escaped.length := by
  refine List.length_pos_iff.2 ?_
  rintro rfl
  have hread := h 0 0 ['"'] (by simp)
  cases hread

theorem length_le_flatMap {escape : Char → List Char} (h : ∀ c, ReadsAs (escape c) c.toNat) (cs : List Char) :
    cs.length ≤ (cs.flatMap escape).length := by
  induction cs with
  | nil => exact Nat.le_refl _
  | cons c cs ih =>
    have hpos := (h c).length_pos
    rw [List.flatMap_cons, List.length_append, List.length_cons]
    omega

theorem readString_escaped {escape : Char → List Char} (h : ∀ c, ReadsAs (escape c) c.toNat) {opening fuel : Nat}
    (cs rest : List Char) (hfuel : cs.length < fuel) :
    readString opening fuel (cs.flatMap escape ++ '"' :: rest) = .ok (cs.map Char.toNat, rest) := by
  induction cs generalizing fuel with
  | nil =>
    cases fuel with
    | zero => cases hfuel
    | succ fuel => rfl
  | cons c cs ih =>
    cases fuel with
    | zero => cases hfuel
    | succ fuel =>
      rw [List.flatMap_cons, List.append_assoc, h c _ _ _ (by simp), ih (Nat.lt_of_succ_lt_succ hfuel)]
      rfl

/-- A string is read back from behind its opening quote. -/
theorem readString_string {style : Style} (h : style.Legible) (s : String) (rest : List Char) :
    ∃ body, style.string s ++ rest = '"' :: body ∧
      readString (body.length + 1) (body.length + 1) body = .ok (.ofString s, rest) := by
  refine ⟨s.toList.flatMap style.escape ++ '"' :: rest, by simp [Style.string], ?_⟩
  refine readString_escaped h.escape _ _ ?_
  have hle := length_le_flatMap h.escape s.toList
  rw [List.length_append]
  omega

/-! ## Digits -/

/-- A text with which no number goes on: it begins with no digit, no point and no exponent. -/
def Ends (rest : List Char) : Prop :=
  ∀ c t, rest = c :: t → c.isDigit = false ∧ c ≠ '.' ∧ c ≠ 'e' ∧ c ≠ 'E'

theorem ends_nil : Ends [] := by
  intro c t h
  cases h

theorem ends_cons {c : Char} {t : List Char} (h : c.isDigit = false ∧ c ≠ '.' ∧ c ≠ 'e' ∧ c ≠ 'E') :
    Ends (c :: t) := by
  intro d u heq
  cases heq
  exact h

theorem isDigit_of_isGap {c : Char} (h : isGap c = true) : c.isDigit = false := by
  simp only [isGap, Bool.or_eq_true, decide_eq_true_eq] at h
  rcases h with ((rfl | rfl) | rfl) | rfl <;> decide

theorem ends_gap {gap rest : List Char} (hgap : ∀ c ∈ gap, isGap c = true) (h : Ends rest) :
    Ends (gap ++ rest) := by
  cases gap with
  | nil => exact h
  | cons c gap =>
    refine ends_cons ?_
    have hc := hgap c (List.mem_cons_self ..)
    simp only [isGap, Bool.or_eq_true, decide_eq_true_eq] at hc
    rcases hc with ((rfl | rfl) | rfl) | rfl <;> decide

theorem Ends.exponent?_eq {rest : List Char} (h : Ends rest) : exponent? rest = none := by
  cases rest with
  | nil => rfl
  | cons c t =>
    obtain ⟨_, _, hlower, hupper⟩ := h c t rfl
    simp [exponent?, hlower, hupper]

/-- Whole digits are taken together, where no digit goes on behind them. -/
theorem wholePart?_append {ds rest : List Char} (hne : ds ≠ []) (hdigits : ∀ c ∈ ds, c.isDigit = true)
    (hzero : ∀ more, ds = '0' :: more → more = []) (h : ∀ c t, rest = c :: t → c.isDigit = false) :
    wholePart? (ds ++ rest) = some (ds, rest) := by
  have hspan := spanDigits_append hdigits h
  obtain ⟨d, more, rfl⟩ := List.exists_cons_of_ne_nil hne
  have hd := hdigits d (List.mem_cons_self ..)
  rw [List.cons_append, wholePart?]
  split
  · rename_i heq
    subst heq
    rw [hzero more rfl, List.nil_append]
  · exact congrArg some hspan

end FormFlow.Json
