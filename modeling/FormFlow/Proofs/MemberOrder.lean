import FormFlow.Proofs.DistinctKeys
import FormFlow.Proofs.NumbersInside
import Mathlib.Data.List.Forall2
import Mathlib.Data.List.Nodup

/-!
# Values up to the order of members

The members of an object mean the same in any order.  `Json.Permuted` relates values that differ in that order
alone, at any depth.  For tables without repeated keys this is a matter of look-ups: `Table.Matches` says that
two tables have the same keys and related values under each.  Where values are written in canonical form the
order is gone, as members are sorted by keys that no two of them share.

## Principal results

* `Table.Matches.sortMembers_eq` — tables that hold the same are sorted alike;
* `Json.Alike.induct` — induction over two values that differ in the order of members;
* `Json.Permuted.of_perm` — an object with its members in another order;
* `Json.Alike.canonical?_eq` — the canonical form does not depend on the order of members;
* `Json.Alike.finitePart` — what is written of two such values differs in that order alone.
-/

namespace FormFlow

/-! ## Tables -/

namespace Table

variable {α β γ δ : Type}

/-- No table repeats a key, both have the same keys, and the values under a key are related. -/
structure Matches (R : α → β → Prop) (t : Table α) (u : Table β) : Prop where
  left : t.keys.Nodup
  right : u.keys.Nodup
  values : ∀ key, Option.Rel R (t.get? key) (u.get? key)

theorem get?_map (f : α → γ) (t : Table α) (key : String) :
    get? (t.map fun e => (e.1, f e.2)) key = (t.get? key).map f := by
  induction t with
  | nil => rfl
  | cons e t ih =>
    obtain ⟨k, a⟩ := e
    by_cases h : k = key <;> simp [get?, h, ih]

theorem keys_map (f : α → γ) (t : Table α) : keys (t.map fun e => (e.1, f e.2)) = t.keys := by
  simp [keys, Function.comp_def]

theorem get?_eq_none_iff {t : Table α} {key : String} : t.get? key = none ↔ key ∉ t.keys := by
  rw [mem_keys_iff, ← Option.isSome_iff_exists, Option.not_isSome_iff_eq_none]

namespace Matches

variable {R : α → β → Prop} {t : Table α} {u : Table β}

/-- A key is in neither table, or in both with related values. -/
theorem at_key (h : Matches R t u) (key : String) :
    t.get? key = none ∧ u.get? key = none ∨
      ∃ a b, t.get? key = some a ∧ u.get? key = some b ∧ R a b := by
  have hkey := h.values key
  generalize t.get? key = a at hkey
  generalize u.get? key = b at hkey
  cases hkey with
  | none => exact .inl ⟨rfl, rfl⟩
  | some hab => exact .inr ⟨_, _, rfl, rfl, hab⟩

theorem mem_keys_iff (h : Matches R t u) {key : String} : key ∈ t.keys ↔ key ∈ u.keys := by
  rw [Table.mem_keys_iff, Table.mem_keys_iff]
  rcases h.at_key key with ⟨ht, hu⟩ | ⟨a, b, ht, hu, _⟩ <;> simp [ht, hu]

/-- Every entry has a related one under its key. -/
theorem exists_right (h : Matches R t u) {e : String × α} (he : e ∈ t) :
    ∃ b, (e.1, b) ∈ u ∧ R e.2 b := by
  have hmem := get?_of_mem h.left he
  rcases h.at_key e.1 with ⟨ht, _⟩ | ⟨a, b, ht, hu, hab⟩
  · rw [hmem] at ht
    cases ht
  · rw [hmem] at ht
    cases ht
    exact ⟨b, mem_of_get? hu, hab⟩

theorem symm (h : Matches R t u) : Matches (fun b a => R a b) u t where
  left := h.right
  right := h.left
  values key := by
    rcases h.at_key key with ⟨ht, hu⟩ | ⟨a, b, ht, hu, hab⟩ <;> rw [ht, hu]
    · exact .none
    · exact .some hab

/-- What is so of all entries of one table is so of all entries of the other. -/
theorem forall_mem_iff (h : Matches R t u) {P : String → α → Prop} {Q : String → β → Prop}
    (hR : ∀ key a b, R a b → (P key a ↔ Q key b)) : (∀ e ∈ t, P e.1 e.2) ↔ ∀ e ∈ u, Q e.1 e.2 := by
  constructor
  · intro hall e he
    obtain ⟨a, ha, hrel⟩ := h.symm.exists_right he
    exact (hR e.1 a e.2 hrel).1 (hall _ ha)
  · intro hall e he
    obtain ⟨b, hb, hrel⟩ := h.exists_right he
    exact (hR e.1 e.2 b hrel).2 (hall _ hb)

theorem map {S : γ → δ → Prop} {f : α → γ} {g : β → δ} (h : Matches R t u)
    (hR : ∀ a b, R a b → S (f a) (g b)) :
    Matches S (t.map fun e => (e.1, f e.2)) (u.map fun e => (e.1, g e.2)) where
  left := by
    rw [keys_map]
    exact h.left
  right := by
    rw [keys_map]
    exact h.right
  values key := by
    rw [get?_map, get?_map]
    rcases h.at_key key with ⟨ht, hu⟩ | ⟨a, b, ht, hu, hab⟩ <;> rw [ht, hu]
    · exact .none
    · exact .some (hR a b hab)

/-- Two entries in front of tables that match. -/
theorem cons {key : String} {a : α} {b : β} (hab : R a b) (hfresh : key ∉ t.keys) (h : Matches R t u) :
    Matches R ((key, a) :: t) ((key, b) :: u) where
  left := List.nodup_cons.2 ⟨hfresh, h.left⟩
  right := List.nodup_cons.2 ⟨fun hmem => hfresh (h.mem_keys_iff.2 hmem), h.right⟩
  values other := by
    by_cases heq : key = other
    · simp [get?, heq, hab]
    · simpa [get?, heq] using h.values other

/-- The entries behind two of one key match. -/
theorem tail {key : String} {a : α} {b : β} (h : Matches R ((key, a) :: t) ((key, b) :: u)) :
    Matches R t u := by
  obtain ⟨hfresh, hleft⟩ : key ∉ t.keys ∧ t.keys.Nodup := List.nodup_cons.1 h.left
  obtain ⟨hother, hright⟩ : key ∉ u.keys ∧ u.keys.Nodup := List.nodup_cons.1 h.right
  refine ⟨hleft, hright, fun other => ?_⟩
  by_cases heq : key = other
  · rw [← heq, get?_eq_none_iff.2 hfresh, get?_eq_none_iff.2 hother]
    exact .none
  · simpa [get?, heq] using h.values other

theorem nil : Matches R [] [] := ⟨List.nodup_nil, List.nodup_nil, fun _ => .none⟩

end Matches

theorem Matches.get?_eq {t u : Table α} (h : Matches (· = ·) t u) (key : String) :
    u.get? key = t.get? key := by
  rcases h.at_key key with ⟨ht, hu⟩ | ⟨a, b, ht, hu, hab⟩ <;> rw [ht, hu]
  rw [hab]

/-- Entries that correspond one by one. -/
theorem Matches.of_forall₂ {R : α → β → Prop} {t : Table α} {u : Table β} (hkeys : t.keys.Nodup)
    (h : List.Forall₂ (fun e f => e.1 = f.1 ∧ R e.2 f.2) t u) : Matches R t u := by
  induction h with
  | nil => exact .nil
  | @cons e f t u hef _ ih =>
    obtain ⟨hfresh, hrest⟩ := List.nodup_cons.1 hkeys
    obtain ⟨key, a⟩ := e
    obtain ⟨other, b⟩ := f
    obtain ⟨rfl, hab⟩ := hef
    exact .cons hab hfresh (ih hrest)

/-- Tables that hold the same hold it in some order. -/
theorem Matches.perm {t u : Table α} (h : Matches (· = ·) t u) : t.Perm u := by
  refine (List.perm_ext_iff_of_nodup h.left.of_map h.right.of_map).2 fun e => ⟨fun he => ?_, fun he => ?_⟩
  · obtain ⟨b, hb, heq⟩ := h.exists_right he
    rw [show e = (e.1, b) from Prod.ext rfl heq]
    exact hb
  · obtain ⟨a, ha, heq⟩ := h.symm.exists_right he
    rw [show e = (e.1, a) from Prod.ext rfl heq.symm]
    exact ha

theorem Matches.of_perm {t u : Table α} (h : t.Perm u) (hkeys : t.keys.Nodup) : Matches (· = ·) t u where
  left := hkeys
  right := (h.map _).nodup_iff.1 hkeys
  values key := by
    have hother : u.keys.Nodup := (h.map _).nodup_iff.1 hkeys
    cases htable : t.get? key with
    | some a =>
      rw [get?_of_mem hother (h.mem_iff.1 (mem_of_get? htable))]
      exact .some rfl
    | none =>
      cases hvalue : u.get? key with
      | none => exact .none
      | some b =>
        rw [get?_of_mem hkeys (h.mem_iff.2 (mem_of_get? hvalue))] at htable
        cases htable

/-- Entries that correspond one by one to those of a table in another order. -/
theorem Matches.of_perm_forall₂ {R : α → β → Prop} {t between : Table α} {u : Table β}
    (h : t.Perm between) (hkeys : t.keys.Nodup)
    (heach : List.Forall₂ (fun e f => e.1 = f.1 ∧ R e.2 f.2) between u) : Matches R t u := by
  have hsame := Matches.of_perm h hkeys
  have hmatches := Matches.of_forall₂ hsame.right heach
  exact ⟨hsame.left, hmatches.right, fun key => hsame.get?_eq key ▸ hmatches.values key⟩

/-- **Tables that hold the same are sorted alike**, as no two entries share a key. -/
theorem Matches.sortMembers_eq {t u : Table α} (h : Matches (· = ·) t u) :
    Json.sortMembers t = Json.sortMembers u := by
  have hsorted (t : Table α) : (Json.sortMembers t).Pairwise fun a b => Text.unitsLe a.1 b.1 = true :=
    List.pairwise_map.1 (Json.sortMembers_sorted t)
  have hperm := (Json.sortMembers_perm t).trans (h.perm.trans (Json.sortMembers_perm u).symm)
  refine hperm.eq_of_pairwise (fun a b ha hb hab hba => ?_) (hsorted t) (hsorted u)
  have hkey := Text.unitsLe_antisymm _ _ hab hba
  -- Both entries stand in the second table, under one key.
  have ha : a ∈ u := (Json.sortMembers_perm u).mem_iff.1 (hperm.mem_iff.1 ha)
  have hb : b ∈ u := (Json.sortMembers_perm u).mem_iff.1 hb
  exact List.inj_on_of_nodup_map h.right ha hb hkey

end Table

/-! ## Values -/

namespace Json

/-- Two values differ at most in the order of the members of objects, at any depth: their objects have the
same keys, with such values under each. -/
inductive Permuted : Json → Json → Prop
  | null : Permuted null null
  | bool (b : Bool) : Permuted (bool b) (bool b)
  | num (n : Number) : Permuted (num n) (num n)
  | str (s : String) : Permuted (str s) (str s)
  | arr {items others : List Json} (length : items.length = others.length)
      (each : ∀ (i : Nat) v w, items[i]? = some v → others[i]? = some w → Permuted v w) :
      Permuted (arr items) (arr others)
  | obj {members others : List (String × Json)}
      (keys : ∀ key, key ∈ Table.keys members ↔ key ∈ Table.keys others)
      (values : ∀ key v w, Table.get? members key = some v → Table.get? others key = some w →
        Permuted v w) : Permuted (obj members) (obj others)

theorem Permuted.refl (v : Json) : v.Permuted v := by
  induction v using valueInduction with
  | null => exact .null
  | bool b => exact .bool b
  | num n => exact .num n
  | str s => exact .str s
  | arr items ih =>
    refine .arr rfl fun i v w hv hw => ?_
    cases hv.symm.trans hw
    exact ih v (List.mem_of_getElem? hv)
  | obj members ih =>
    refine .obj (fun _ => Iff.rfl) fun key v w hv hw => ?_
    cases hv.symm.trans hw
    exact ih _ (Table.mem_of_get? hv)

/-- An object whose members are put in another order, and then changed one by one in that way. -/
theorem Permuted.of_perm {members between others : List (String × Json)} (h : members.Perm between)
    (hkeys : (Table.keys members).Nodup)
    (heach : List.Forall₂ (fun m n => m.1 = n.1 ∧ m.2.Permuted n.2) between others) :
    (Json.obj members).Permuted (Json.obj others) := by
  have hmatches := Table.Matches.of_perm_forall₂ h hkeys heach
  refine .obj (fun key => hmatches.mem_keys_iff) fun key v w hv hw => ?_
  have hvalues := hmatches.values key
  rwa [hv, hw, Option.rel_some_some] at hvalues

variable {u v w : Json}

theorem Permuted.symm (h : v.Permuted w) : w.Permuted v := by
  induction h with
  | null => exact .null
  | bool b => exact .bool b
  | num n => exact .num n
  | str s => exact .str s
  | arr length _ ih => exact .arr length.symm fun i v w hv hw => ih i w v hw hv
  | obj keys _ ih => exact .obj (fun key => (keys key).symm) fun key v w hv hw => ih key w v hw hv

theorem Permuted.trans (h : u.Permuted v) (h' : v.Permuted w) : u.Permuted w := by
  induction h generalizing w with
  | null | bool b | num n | str s => exact h'
  | arr length _ ih =>
    cases h' with
    | arr length' each' =>
      refine .arr (length.trans length') fun i a c ha hc => ?_
      have hi := length' ▸ (List.getElem?_eq_some_iff.1 hc).1
      exact ih i a _ ha (List.getElem?_eq_getElem hi) (each' i _ c (List.getElem?_eq_getElem hi) hc)
  | obj keys _ ih =>
    cases h' with
    | obj keys' values' =>
      refine .obj (fun key => (keys key).trans (keys' key)) fun key a c ha hc => ?_
      obtain ⟨b, hb⟩ := Table.mem_keys_iff.1 ((keys key).1 (Table.mem_keys_iff.2 ⟨a, ha⟩))
      exact ih key a b ha hb (values' key b c hb hc)

/-- Two values without repeated keys differ at most in the order of members. -/
structure Alike (v w : Json) : Prop where
  left : v.Distinct
  right : w.Distinct
  permuted : v.Permuted w

theorem distinct_arr_iff {items : List Json} : (arr items).Distinct ↔ ∀ v ∈ items, v.Distinct := by
  rw [Distinct]
  induction items with
  | nil => simp [DistinctItems]
  | cons v items ih => rw [DistinctItems, ih, List.forall_mem_cons]

theorem distinctMembers_iff {members : List (String × Json)} :
    DistinctMembers members ↔ ∀ m ∈ members, m.2.Distinct := by
  induction members with
  | nil => simp [DistinctMembers]
  | cons m members ih => rw [DistinctMembers, ih, List.forall_mem_cons]

theorem distinct_obj_iff {members : List (String × Json)} :
    (obj members).Distinct ↔ (Table.keys members).Nodup ∧ ∀ m ∈ members, m.2.Distinct := by
  rw [Distinct, distinctMembers_iff]

@[simp] theorem distinct_nil : (obj []).Distinct := distinct_obj_iff.2 ⟨List.nodup_nil, by simp⟩

@[simp] theorem distinct_cons {m : String × Json} {members : List (String × Json)} :
    (obj (m :: members)).Distinct ↔ m.1 ∉ Table.keys members ∧ m.2.Distinct ∧ (obj members).Distinct := by
  rw [distinct_obj_iff, distinct_obj_iff, Table.keys, List.map_cons, List.nodup_cons, List.forall_mem_cons]
  exact and_and_and_comm.trans and_assoc

@[simp] theorem distinct_str (s : String) : (str s).Distinct := trivial

@[simp] theorem distinct_bool (b : Bool) : (bool b).Distinct := trivial

@[simp] theorem distinct_num (n : Number) : (num n).Distinct := trivial

@[simp] theorem distinct_ofStrings (ss : List String) : (ofStrings ss).Distinct :=
  distinct_arr_iff.2 (List.forall_mem_map.2 fun _ _ => trivial)

namespace Alike

variable {v w : Json} {items : List Json} {members : List (String × Json)}

theorem refl (h : v.Distinct) : v.Alike v := ⟨h, h, .refl v⟩

theorem symm (h : v.Alike w) : w.Alike v := ⟨h.right, h.left, h.permuted.symm⟩

theorem trans (h : u.Alike v) (h' : v.Alike w) : u.Alike w :=
  ⟨h.left, h'.right, h.permuted.trans h'.permuted⟩

theorem of_arr {others : List Json} (h : (arr items).Alike (arr others)) :
    List.Forall₂ Alike items others := by
  have hleft := distinct_arr_iff.1 h.left
  have hright := distinct_arr_iff.1 h.right
  cases h.permuted with
  | arr length each =>
    refine List.forall₂_iff_get.2 ⟨length, fun i hi hother => ?_⟩
    exact ⟨hleft _ (List.get_mem ..), hright _ (List.get_mem ..),
      each i _ _ (List.getElem?_eq_getElem hi) (List.getElem?_eq_getElem hother)⟩

theorem of_obj {others : List (String × Json)} (h : (obj members).Alike (obj others)) :
    Table.Matches Alike members others := by
  obtain ⟨hleft, hmembers⟩ := distinct_obj_iff.1 h.left
  obtain ⟨hright, hothers⟩ := distinct_obj_iff.1 h.right
  cases h.permuted with
  | obj keys values =>
    refine ⟨hleft, hright, fun key => ?_⟩
    have hkey := keys key
    rw [Table.mem_keys_iff, Table.mem_keys_iff] at hkey
    cases hv : Table.get? members key with
    | none =>
      cases hw : Table.get? others key with
      | none => exact .none
      | some w => simp [hv, hw] at hkey
    | some v =>
      cases hw : Table.get? others key with
      | none => simp [hv, hw] at hkey
      | some w =>
        exact .some ⟨hmembers _ (Table.mem_of_get? hv), hothers _ (Table.mem_of_get? hw),
          values key v w hv hw⟩

theorem arr {others : List Json} (h : List.Forall₂ Alike items others) :
    (Json.arr items).Alike (Json.arr others) := by
  obtain ⟨hlength, heach⟩ := List.forall₂_iff_get.1 h
  refine ⟨distinct_arr_iff.2 fun v hv => ?_, distinct_arr_iff.2 fun w hw => ?_, .arr hlength ?_⟩
  · obtain ⟨i, hi, rfl⟩ := List.getElem_of_mem hv
    exact (heach i hi (hlength ▸ hi)).left
  · obtain ⟨i, hi, rfl⟩ := List.getElem_of_mem hw
    exact (heach i (hlength ▸ hi) hi).right
  · intro i v w hv hw
    obtain ⟨hi, rfl⟩ := List.getElem?_eq_some_iff.1 hv
    obtain ⟨hother, rfl⟩ := List.getElem?_eq_some_iff.1 hw
    exact (heach i hi hother).permuted

theorem obj {others : List (String × Json)} (h : Table.Matches Alike members others) :
    (Json.obj members).Alike (Json.obj others) := by
  refine ⟨distinct_obj_iff.2 ⟨h.left, fun m hm => ?_⟩, distinct_obj_iff.2 ⟨h.right, fun m hm => ?_⟩,
    .obj (fun key => h.mem_keys_iff) fun key v w hv hw => ?_⟩
  · obtain ⟨w, _, hrel⟩ := h.exists_right hm
    exact hrel.left
  · obtain ⟨v, _, hrel⟩ := h.symm.exists_right hm
    exact hrel.right
  · have hvalues := h.values key
    rw [hv, hw, Option.rel_some_some] at hvalues
    exact hvalues.permuted

@[simp] theorem self_iff : v.Alike v ↔ v.Distinct := ⟨fun h => h.left, refl⟩

@[simp] theorem cons_iff {key : String} {others : List (String × Json)} :
    (Json.obj ((key, v) :: members)).Alike (Json.obj ((key, w) :: others)) ↔
      key ∉ Table.keys members ∧ v.Alike w ∧ (Json.obj members).Alike (Json.obj others) := by
  constructor
  · intro h
    have hvalues := h.of_obj.values key
    simp only [Table.get?, if_true, Option.rel_some_some] at hvalues
    exact ⟨(List.nodup_cons.1 h.of_obj.left).1, hvalues, .obj h.of_obj.tail⟩
  · rintro ⟨hfresh, hvalues, hrest⟩
    exact .obj (.cons hvalues hfresh hrest.of_obj)

/-- Induction over two values that differ in the order of members. -/
@[elab_as_elim]
theorem induct {P : Json → Json → Prop} (null : P .null .null) (bool : ∀ b, P (.bool b) (.bool b))
    (num : ∀ n, P (.num n) (.num n)) (str : ∀ s, P (.str s) (.str s))
    (arr : ∀ items others, List.Forall₂ P items others → P (.arr items) (.arr others))
    (obj : ∀ members others, Table.Matches P members others → P (.obj members) (.obj others))
    {v w : Json} (h : v.Alike w) : P v w := by
  obtain ⟨hleft, hright, hpermuted⟩ := h
  induction hpermuted with
  | null => exact null
  | bool b => exact bool b
  | num n => exact num n
  | str s => exact str s
  | arr length each ih =>
    rw [distinct_arr_iff] at hleft hright
    refine arr _ _ (List.forall₂_iff_get.2 ⟨length, fun i hi hother => ?_⟩)
    exact ih i _ _ (List.getElem?_eq_getElem hi) (List.getElem?_eq_getElem hother)
      (hleft _ (List.get_mem ..)) (hright _ (List.get_mem ..))
  | obj keys values ih =>
    have hmatches := (Alike.mk hleft hright (.obj keys values)).of_obj
    rw [distinct_obj_iff] at hleft hright
    refine obj _ _ ⟨hmatches.left, hmatches.right, fun key => ?_⟩
    rcases hmatches.at_key key with ⟨hv, hw⟩ | ⟨v, w, hv, hw, _⟩ <;> rw [hv, hw]
    · exact .none
    · exact .some (ih key v w hv hw (hleft.2 _ (Table.mem_of_get? hv)) (hright.2 _ (Table.mem_of_get? hw)))

/-- **The canonical form does not depend on the order of members.** -/
theorem canonical?_eq (h : v.Alike w) : canonical? v = canonical? w := by
  refine induct (P := fun v w => canonical? v = canonical? w) rfl (fun _ => rfl) (fun _ => rfl)
    (fun _ => rfl) (fun items others hitems => ?arr) (fun members others hmembers => ?obj) h
  case arr =>
    have hmap : items.map canonical? = others.map canonical? :=
      List.forall₂_eq_eq_eq ▸ List.forall₂_map_left_iff.2 (List.forall₂_map_right_iff.2 hitems)
    rw [canonical?, canonical?, canonicalItems_eq, canonicalItems_eq, hmap]
  case obj =>
    have hmap : Table.Matches (· = ·) (canonicalMembers members) (canonicalMembers others) := by
      rw [canonicalMembers_eq, canonicalMembers_eq]
      exact hmembers.map fun _ _ hsame => hsame
    rw [canonical?, canonical?, hmap.sortMembers_eq]

/-- What is so of all numbers of a value is so of all numbers when its members stand in another order. -/
theorem forall_numbers_iff {P : Number → Prop} (h : v.Alike w) :
    (∀ n ∈ v.numbers, P n) ↔ ∀ n ∈ w.numbers, P n := by
  refine induct (P := fun v w => (∀ n ∈ v.numbers, P n) ↔ ∀ n ∈ w.numbers, P n) Iff.rfl (fun _ => Iff.rfl)
    (fun _ => Iff.rfl) (fun _ => Iff.rfl) (fun items others hitems => ?arr)
    (fun members others hmembers => ?obj) h
  case arr =>
    rw [forall_numbers_arr, forall_numbers_arr]
    induction hitems with
    | nil => simp
    | cons hhead _ ih => rw [List.forall_mem_cons, List.forall_mem_cons, hhead, ih]
  case obj =>
    rw [forall_numbers_obj, forall_numbers_obj]
    exact hmembers.forall_mem_iff fun _ _ _ hrel => hrel

/-- What is written of two values that differ in the order of members differs in that order alone. -/
theorem finitePart (h : v.Alike w) : (Json.finitePart v).Alike (Json.finitePart w) := by
  refine induct (P := fun v w => (Json.finitePart v).Alike (Json.finitePart w)) (.refl trivial)
    (fun _ => .refl trivial) (fun n => .refl ?num) (fun _ => .refl trivial)
    (fun items others hitems => ?arr) (fun members others hmembers => ?obj) h
  case num =>
    cases n with
    | int n => trivial
    | float x =>
      rw [Json.finitePart]
      split <;> trivial
  case arr =>
    rw [Json.finitePart, Json.finitePart, finiteItems_eq, finiteItems_eq]
    exact .arr (List.forall₂_map_left_iff.2 (List.forall₂_map_right_iff.2 hitems))
  case obj =>
    rw [Json.finitePart, Json.finitePart, finiteMembers_eq, finiteMembers_eq]
    exact .obj (hmembers.map fun _ _ hsame => hsame)

end Alike

end Json

end FormFlow
