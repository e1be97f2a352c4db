import FormFlow.Proofs.Rereading

/-!
# Canonical texts

A value that repeats no key and holds only integers that doubles keep has a canonical text and an indented one.
Both are read as one value, which differs from the first in the order of members alone, and has the members of
each object in the order of the 16-bit units of their keys.  So values share a text exactly when they differ in
the order of members alone.

## Principal results

* `Portable.exists_canonical` — the canonical form has the members of each object in order, and keeps all else;
* `Portable.read_texts` — both texts are read as the canonical form;
* `canonical_readings` — what is read of the texts of a value, and which values share them.
-/

namespace FormFlow.Json

variable {u v w : Json}

/-! ## The canonical form -/

/-- All results, where there is one for each element of a list. -/
theorem exists_firstError_map {ε α β : Type} {f : α → Except ε β} {R : α → β → Prop} {P : β → Prop}
    {as : List α} (h : ∀ a ∈ as, ∃ b, f a = .ok b ∧ R a b ∧ P b) :
    ∃ bs, firstError (as.map f) = .ok bs ∧ List.Forall₂ R as bs ∧ ∀ b ∈ bs, P b := by
  induction as with
  | nil => exact ⟨[], rfl, .nil, by simp⟩
  | cons a as ih =>
    obtain ⟨hhead, htail⟩ := List.forall_mem_cons.1 h
    obtain ⟨b, hb, hrel, hP⟩ := hhead
    obtain ⟨bs, hbs, hrest, hall⟩ := ih htail
    refine ⟨b :: bs, ?_, .cons hrel hrest, List.forall_mem_cons.2 ⟨hP, hall⟩⟩
    rw [List.map_cons, hb, firstError, hbs]
    rfl

/-- The members of each object inside a value stand in the order of the 16-bit units of their keys. -/
inductive Ordered : Json → Prop
  | null : Ordered null
  | bool (b : Bool) : Ordered (bool b)
  | num (n : Number) : Ordered (num n)
  | str (s : String) : Ordered (str s)
  | arr {items : List Json} (each : ∀ v ∈ items, Ordered v) : Ordered (arr items)
  | obj {members : List (String × Json)}
      (keys : (Table.keys members).Pairwise fun a b => Text.unitsLe a b = true)
      (each : ∀ m ∈ members, Ordered m.2) : Ordered (obj members)

/-- A value that stands for itself in every text: no object inside it repeats a key, and its numbers are
integers that doubles hold exactly. -/
structure Portable (v : Json) : Prop where
  distinct : v.Distinct
  integers : ∀ n ∈ v.numbers, ∃ i : Int, n = .int i ∧ i.natAbs ≤ Nat.pow 2 53 - 1

namespace Portable

theorem of_mem_items {items : List Json} (h : (Json.arr items).Portable) (hv : v ∈ items) : v.Portable :=
  ⟨h.distinct.of_mem_items hv, forall_numbers_arr.1 h.integers v hv⟩

theorem of_mem {members : List (String × Json)} {m : String × Json} (h : (Json.obj members).Portable)
    (hm : m ∈ members) : m.2.Portable :=
  ⟨h.distinct.of_mem hm, forall_numbers_obj.1 h.integers m hm⟩

/-- **The canonical form has the members of each object in order, and keeps all else.** -/
theorem exists_canonical (h : v.Portable) : ∃ w, canonical? v = .ok w ∧ v.Alike w ∧ w.Ordered := by
  induction v using valueInduction with
  | null => exact ⟨.null, rfl, .refl trivial, .null⟩
  | bool b => exact ⟨.bool b, rfl, .refl trivial, .bool b⟩
  | str s => exact ⟨.str s, rfl, .refl trivial, .str s⟩
  | num n =>
    obtain ⟨i, rfl, hi⟩ := h.integers n (List.mem_cons_self ..)
    refine ⟨.num (.int i), ?_, .refl trivial, .num _⟩
    rw [canonical?, canonicalNumber_int hi]
    rfl
  | arr items ih =>
    obtain ⟨others, hok, halike, hordered⟩ := exists_firstError_map fun v hv => ih v hv (h.of_mem_items hv)
    refine ⟨.arr others, ?_, .arr halike, .arr hordered⟩
    rw [canonical?, canonicalItems_eq, hok]
    rfl
  | obj members ih =>
    obtain ⟨hkeys, _⟩ := distinct_obj_iff.1 h.distinct
    have hsort := sortMembers_perm members
    have hmembers : ∀ m ∈ sortMembers members, ∃ n : String × Json, (canonical? m.2).map (m.1, ·) = .ok n ∧
        (m.1 = n.1 ∧ m.2.Alike n.2) ∧ n.2.Ordered := by
      intro m hm
      have hm := hsort.mem_iff.1 hm
      obtain ⟨w, hw, halike, hordered⟩ := ih m hm (h.of_mem hm)
      exact ⟨(m.1, w), by rw [hw]; rfl, ⟨rfl, halike⟩, hordered⟩
    obtain ⟨others, hok, halike, hordered⟩ := exists_firstError_map hmembers
    refine ⟨.obj others, ?_, .obj ?_, .obj ?_ hordered⟩
    · rw [canonical?, canonicalMembers_eq, sortMembers_map, List.map_map]
      exact congrArg (Except.map obj) hok
    · exact .of_perm_forall₂ hsort.symm hkeys halike
    · have hsame : Table.keys (sortMembers members) = Table.keys others :=
        List.forall₂_eq_eq_eq ▸ List.forall₂_map_left_iff.2
          (List.forall₂_map_right_iff.2 (halike.imp fun _ _ hrel => hrel.1))
      rw [← hsame]
      exact sortMembers_sorted members

theorem of_alike (h : v.Portable) (halike : v.Alike w) : w.Portable :=
  ⟨halike.right, halike.forall_numbers_iff.1 h.integers⟩

/-- Integers that doubles hold exactly are not too long to be read. -/
theorem readable (h : v.Portable) : v.Readable := by
  intro n hn
  obtain ⟨i, rfl, hi⟩ := h.integers n hn
  have hshort : (Nat.toDigits 10 i.natAbs).length ≤ 16 :=
    (Nat.length_toDigits_le_iff (by decide) (by decide)).2 (Nat.lt_of_le_of_lt hi (by decide))
  exact ⟨i, rfl, Nat.le_trans hshort (by decide)⟩

/-- **Both texts are read as the canonical form.** -/
theorem read_texts (h : v.Portable) :
    ∃ w c p, v.Alike w ∧ w.Ordered ∧ canonicalText v = .ok c ∧ prettyText v = .ok p ∧
      p = render indented w ++ "\n" ∧ ∀ dialect,
        read dialect c.toList = .ok w ∧ read dialect p.toList = .ok w := by
  obtain ⟨w, hw, halike, hordered⟩ := h.exists_canonical
  have hportable := h.of_alike halike
  refine ⟨w, render compact w, render indented w ++ "\n", halike, hordered, ?_, ?_, rfl,
    fun dialect => ⟨?_, ?_⟩⟩
  · rw [canonicalText, hw]
    rfl
  · rw [prettyText, hw]
    rfl
  · have hread := read_write compact_legible hportable.distinct hportable.readable (List.forall_mem_nil _)
      dialect
    rwa [List.append_nil, ← String.toList_ofList (l := write compact 0 w)] at hread
  · have hgap : ∀ c ∈ ['\n'], isGap c = true := List.forall_mem_singleton.2 rfl
    have hread := read_write indented_legible hportable.distinct hportable.readable hgap dialect
    rwa [render, String.toList_append, String.toList_ofList]

/-- Values that differ in the order of members have one canonical form. -/
theorem canonical?_eq (hv : v.Portable) (hw : w.Portable) (h : v.Permuted w) : canonical? v = canonical? w :=
  Alike.canonical?_eq ⟨hv.distinct, hw.distinct, h⟩

/-- Values share a text only if they differ in the order of members, where texts are read as their values up to
that order. -/
theorem permuted_of_text_eq {text : Json → Except DomainError String}
    (hread : ∀ v : Json, v.Portable → ∃ w c, v.Alike w ∧ text v = .ok c ∧ read .strict c.toList = .ok w)
    (hv : v.Portable) (hw : w.Portable) (h : text v = text w) : v.Permuted w := by
  obtain ⟨a, c, hva, hc, hreadv⟩ := hread v hv
  obtain ⟨b, d, hwb, hd, hreadw⟩ := hread w hw
  obtain rfl : c = d := Except.ok.inj (hc.symm.trans (h.trans hd))
  obtain rfl : a = b := Except.ok.inj (hreadv.symm.trans hreadw)
  exact (hva.trans hwb.symm).permuted

theorem canonicalText_eq_iff (hv : v.Portable) (hw : w.Portable) :
    canonicalText v = canonicalText w ↔ v.Permuted w := by
  refine ⟨permuted_of_text_eq (fun v hv => ?_) hv hw, fun h => ?_⟩
  · obtain ⟨w, c, _, halike, _, hc, _, _, hread⟩ := hv.read_texts
    exact ⟨w, c, halike, hc, (hread _).1⟩
  · rw [canonicalText, canonicalText, hv.canonical?_eq hw h]

theorem prettyText_eq_iff (hv : v.Portable) (hw : w.Portable) :
    prettyText v = prettyText w ↔ v.Permuted w := by
  refine ⟨permuted_of_text_eq (fun v hv => ?_) hv hw, fun h => ?_⟩
  · obtain ⟨w, _, p, halike, _, _, hp, _, hread⟩ := hv.read_texts
    exact ⟨w, p, halike, hp, (hread _).2⟩
  · rw [prettyText, prettyText, hv.canonical?_eq hw h]

end Portable

/-- **The texts of a value are read as that value** with the members of each object in order, the indented text
is that of what is read from the canonical one, and values share a text exactly if they differ in the order of
members alone. -/
theorem canonical_readings (hv : v.Portable) :
    (∃ w c p, v.Permuted w ∧ w.Distinct ∧ w.Ordered ∧ canonicalText v = .ok c ∧ prettyText v = .ok p ∧
      p = render indented w ++ "\n" ∧ ∀ dialect,
        read dialect c.toList = .ok w ∧ read dialect p.toList = .ok w) ∧
    ∀ u, u.Portable →
      (canonicalText v = canonicalText u ↔ v.Permuted u) ∧ (prettyText v = prettyText u ↔ v.Permuted u) := by
  refine ⟨?_, fun u hu => ⟨hv.canonicalText_eq_iff hu, hv.prettyText_eq_iff hu⟩⟩
  obtain ⟨w, c, p, halike, htexts⟩ := hv.read_texts
  exact ⟨w, c, p, halike.permuted, halike.right, htexts⟩

/-- The surrogates of a character beyond `U+FFFF` come before the unit of a wide letter, although its code point
comes after that of the letter. -/
theorem canonical_readings_astral :
    (Json.obj [("Ａ", str "\u0000\"é"), ("😀", arr [obj [], arr [], num (.int (-9007199254740991))])]).Portable ∧
    prettyText (.obj [("Ａ", str "\u0000\"é"), ("😀", arr [obj [], arr [], num (.int (-9007199254740991))])]) =
      prettyText (.obj [("😀", arr [obj [], arr [], num (.int (-9007199254740991))]), ("Ａ", str "\u0000\"é")]) ∧
    canonicalText (.obj [("Ａ", str "\u0000\"é"), ("😀", arr [obj [], arr [], num (.int (-9007199254740991))])]) =
      .ok "\x7b\"😀\":[\x7b\x7d,[],-9007199254740991],\"Ａ\":\"\\u0000\\\"é\"\x7d" := by
  have hv : (Json.obj [("Ａ", str "\u0000\"é"),
      ("😀", arr [obj [], arr [], num (.int (-9007199254740991))])]).Portable :=
    ⟨by decide, by simp [numbers, numbersOfMembers, numbersOfItems]⟩
  have hu : (Json.obj [("😀", arr [obj [], arr [], num (.int (-9007199254740991))]),
      ("Ａ", str "\u0000\"é")]).Portable :=
    ⟨by decide, by simp [numbers, numbersOfMembers, numbersOfItems]⟩
  have hswap := Permuted.of_perm (.swap ..) hv.distinct.1 (List.forall₂_same.2 fun m _ => ⟨rfl, .refl m.2⟩)
  exact ⟨hv, (((canonical_readings hv).2 _ hu).2).2 hswap, by decide +kernel⟩

end FormFlow.Json
