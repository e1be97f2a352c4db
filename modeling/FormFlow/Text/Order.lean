/-!
# Two orders of texts

Texts are compared letter by letter, and a text stands before every longer one that it begins.  The
letters are either the code points of the characters or their 16-bit units.  A character below
`U+10000` is one unit, any other is a pair of surrogates, so the units put the characters from
`U+10000` up before those from `U+E000` to `U+FFFF`.

## Principal results

* `numbersLe_total`, `numbersLe_trans`, `numbersLe_antisymm` — the comparison of numbers in a row is a
  linear order;
* `pointsLe_antisymm` — two texts that may each stand before the other are one text;
* `units_injective` — the units of a text are those of no other text;
* `unitsLe_total`, `unitsLe_trans`, `unitsLe_antisymm` — the comparison by units is a linear order.
-/

namespace FormFlow.Text

/-- The first row of numbers may stand before the second: the first place where they differ decides,
and a row stands before every row that it begins. -/
def numbersLe : List Nat → List Nat → Bool
  | [], _ => true
  | _ :: _, [] => false
  | m :: ms, n :: ns => decide (m < n) || (m == n && numbersLe ms ns)

theorem numbersLe_total (ms ns : List Nat) : numbersLe ms ns = true ∨ numbersLe ns ms = true := by
  induction ms generalizing ns with
  | nil => simp [numbersLe]
  | cons m ms ih =>
    cases ns with
    | nil => simp [numbersLe]
    | cons n ns =>
      simp only [numbersLe, Bool.or_eq_true, Bool.and_eq_true, decide_eq_true_eq, beq_iff_eq]
      rcases Nat.lt_trichotomy m n with h | h | h
      · exact .inl (.inl h)
      · exact (ih ns).imp (fun hm => .inr ⟨h, hm⟩) (fun hn => .inr ⟨h.symm, hn⟩)
      · exact .inr (.inl h)

theorem numbersLe_trans (ks ms ns : List Nat) (hkm : numbersLe ks ms = true)
    (hmn : numbersLe ms ns = true) : numbersLe ks ns = true := by
  induction ks generalizing ms ns with
  | nil => simp [numbersLe]
  | cons k ks ih =>
    cases ms with
    | nil => simp [numbersLe] at hkm
    | cons m ms =>
      cases ns with
      | nil => simp [numbersLe] at hmn
      | cons n ns =>
        simp only [numbersLe, Bool.or_eq_true, Bool.and_eq_true, decide_eq_true_eq, beq_iff_eq] at *
        rcases hkm with hkm | ⟨rfl, hkm⟩
        · rcases hmn with hmn | ⟨rfl, _⟩
          · exact .inl (Nat.lt_trans hkm hmn)
          · exact .inl hkm
        · exact hmn.imp id (fun h => ⟨h.1, ih ms ns hkm h.2⟩)

theorem numbersLe_antisymm (ms ns : List Nat) (hmn : numbersLe ms ns = true)
    (hnm : numbersLe ns ms = true) : ms = ns := by
  induction ms generalizing ns with
  | nil => cases ns with
    | nil => rfl
    | cons n ns => simp [numbersLe] at hnm
  | cons m ms ih =>
    cases ns with
    | nil => simp [numbersLe] at hmn
    | cons n ns =>
      simp only [numbersLe, Bool.or_eq_true, Bool.and_eq_true, decide_eq_true_eq, beq_iff_eq] at *
      rcases hmn with hmn | ⟨rfl, hmn⟩
      · rcases hnm with hnm | ⟨rfl, _⟩
        · exact absurd hnm (Nat.lt_asymm hmn)
        · exact absurd hmn (Nat.lt_irrefl _)
      · rcases hnm with hnm | ⟨_, hnm⟩
        · exact absurd hnm (Nat.lt_irrefl _)
        · rw [ih ns hmn hnm]

/-! ## By code points -/

/-- The first string may stand before the second in the order of their code points. -/
def pointsLe (a b : String) : Bool := numbersLe (a.toList.map Char.toNat) (b.toList.map Char.toNat)

theorem pointsLe_total (a b : String) : pointsLe a b = true ∨ pointsLe b a = true :=
  numbersLe_total _ _

theorem pointsLe_trans (a b c : String) (hab : pointsLe a b = true) (hbc : pointsLe b c = true) :
    pointsLe a c = true :=
  numbersLe_trans _ _ _ hab hbc

theorem pointsLe_antisymm (a b : String) (hab : pointsLe a b = true) (hba : pointsLe b a = true) :
    a = b :=
  String.toList_inj.1
    (List.map_inj_right (fun _ _ h => Char.toNat_inj.1 h) |>.1 (numbersLe_antisymm _ _ hab hba))

/-! ## By 16-bit units -/

/-- The 16-bit units of a character. -/
def charUnits (c : Char) : List Nat :=
  let n := c.toNat
  if n < 0x10000 then [n] else [0xD800 + (n - 0x10000) / 0x400, 0xDC00 + (n - 0x10000) % 0x400]

/-- The 16-bit units of a text. -/
def units (cs : List Char) : List Nat := cs.flatMap charUnits

/-- A character starts no other character's units: a unit that stands alone is no surrogate. -/
theorem charUnits_append_inj {a b : Char} {as bs : List Nat} (h : charUnits a ++ as = charUnits b ++ bs) :
    a = b ∧ as = bs := by
  have hvalid (c : Char) : c.toNat < 0xD800 ∨ 0xDFFF < c.toNat ∧ c.toNat < 0x110000 := c.valid
  have ha := hvalid a
  have hb := hvalid b
  unfold charUnits at h
  by_cases hwide : a.toNat < 0x10000 <;> by_cases hother : b.toNat < 0x10000 <;>
    simp only [hwide, hother, if_true, if_false, List.cons_append, List.nil_append,
      List.cons.injEq] at h
  · exact ⟨Char.toNat_inj.1 h.1, h.2⟩
  · omega
  · omega
  · exact ⟨Char.toNat_inj.1 (by omega), h.2.2⟩

/-- The units of a text are those of no other text. -/
theorem units_injective {as bs : List Char} (h : units as = units bs) : as = bs := by
  have hne (c : Char) (ns : List Nat) : charUnits c ++ ns ≠ [] := by
    unfold charUnits
    dsimp only
    split <;> simp
  induction as generalizing bs with
  | nil =>
    cases bs with
    | nil => rfl
    | cons b bs => exact absurd h.symm (hne b _)
  | cons a as ih =>
    cases bs with
    | nil => exact absurd h (hne a _)
    | cons b bs =>
      obtain ⟨rfl, hrest⟩ := charUnits_append_inj h
      rw [ih hrest]

/-- The first string may stand before the second in the order of their units. -/
def unitsLe (a b : String) : Bool := numbersLe (units a.toList) (units b.toList)

theorem unitsLe_total (a b : String) : unitsLe a b = true ∨ unitsLe b a = true :=
  numbersLe_total _ _

theorem unitsLe_trans (a b c : String) (hab : unitsLe a b = true) (hbc : unitsLe b c = true) :
    unitsLe a c = true :=
  numbersLe_trans _ _ _ hab hbc

theorem unitsLe_antisymm (a b : String) (hab : unitsLe a b = true) (hba : unitsLe b a = true) : a = b :=
  String.toList_inj.1 (units_injective (numbersLe_antisymm _ _ hab hba))

end FormFlow.Text
