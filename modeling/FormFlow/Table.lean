/-!
# Tables in order of arrival

A table is a list of key-value pairs that remembers the order in which keys first arrived.  Writing
to a present key replaces its value in place; writing to a new key appends.

## Principal results

* `get?_put_self`, `get?_put_of_ne` — a write is read back and disturbs no other key;
* `mem_of_get?`, `get?_of_mem` — reading finds entries, and every entry where keys are distinct;
* `get?_append` — the first of two tables in a row has the first say;
* `keys_put_of_mem`, `keys_put_of_not_mem` — a write moves nothing and adds at the end;
* `nodup_keys_put`, `nodup_keys_merge` — writes keep the keys distinct;
* `get?_ofPairs` — a table built from pairs holds the last value of each key;
* `ofPairs_eq_self` — pairs that repeat no key are a table as they are.
-/

namespace FormFlow

/-- Key-value pairs in order of arrival; the keys are strings unless another type is named. -/
abbrev Table (α : Type) (κ : Type := String) := List (κ × α)

namespace Table

variable {α κ : Type}

/-- The keys, in order. -/
def keys (t : Table α κ) : List κ := t.map (·.1)

variable [DecidableEq κ]

/-- The value of the first entry with a key. -/
def get? : Table α κ → κ → Option α
  | [], _ => none
  | (k, v) :: t, key => if k = key then some v else get? t key

/-- A key of the table. -/
def has (t : Table α κ) (key : κ) : Bool := (t.get? key).isSome

/-- Write a value: in place if the key is present, at the end if not. -/
def put : Table α κ → κ → α → Table α κ
  | [], key, value => [(key, value)]
  | (k, v) :: t, key, value => if k = key then (k, value) :: t else (k, v) :: put t key value

/-- Write every entry of the second table into the first. -/
def merge (t u : Table α κ) : Table α κ := u.foldl (fun acc e => acc.put e.1 e.2) t

/-- Drop a key. -/
def erase (t : Table α κ) (key : κ) : Table α κ := t.filter fun e => e.1 ≠ key

/-- A table from pairs in which a key may repeat: the first position and the last value count. -/
def ofPairs (pairs : List (κ × α)) : Table α κ := merge [] pairs

theorem get?_put_self (t : Table α κ) (key : κ) (value : α) :
    (t.put key value).get? key = some value := by
  induction t with
  | nil => simp [put, get?]
  | cons e t ih =>
    obtain ⟨k, v⟩ := e
    by_cases h : k = key <;> simp [put, get?, h, ih]

theorem get?_put_of_ne (t : Table α κ) {key other : κ} (value : α) (h : other ≠ key) :
    (t.put key value).get? other = t.get? other := by
  induction t with
  | nil => simp [put, get?, Ne.symm h]
  | cons e t ih =>
    obtain ⟨k, v⟩ := e
    by_cases hk : k = key
    · subst hk; simp [put, get?, Ne.symm h]
    · simp only [put, hk, if_false, get?, ih]

theorem mem_keys_iff {t : Table α κ} {key : κ} : key ∈ t.keys ↔ ∃ v, t.get? key = some v := by
  induction t with
  | nil => simp [keys, get?]
  | cons e t ih =>
    obtain ⟨k, v⟩ := e
    by_cases h : k = key
    · subst h; simp [keys, get?]
    · have := ih
      simp only [keys] at this
      simp [keys, get?, h, Ne.symm h, this]

theorem mem_of_get? {t : Table α κ} {key : κ} {value : α} (h : t.get? key = some value) :
    (key, value) ∈ t := by
  induction t with
  | nil => cases h
  | cons e t ih =>
    obtain ⟨k, v⟩ := e
    by_cases hk : k = key
    · subst hk
      rw [get?, if_pos rfl, Option.some.injEq] at h
      rw [h]
      exact List.mem_cons_self ..
    · rw [get?, if_neg hk] at h
      exact List.mem_cons_of_mem _ (ih h)

/-- Where keys are distinct, every entry is found. -/
theorem get?_of_mem {t : Table α κ} {key : κ} {value : α} (hkeys : t.keys.Nodup)
    (h : (key, value) ∈ t) : t.get? key = some value := by
  induction t with
  | nil => cases h
  | cons e t ih =>
    obtain ⟨k, v⟩ := e
    obtain ⟨hfresh, hkeys⟩ := List.nodup_cons.1 hkeys
    rcases List.mem_cons.1 h with heq | h
    · cases heq
      rw [get?, if_pos rfl]
    · have hne : k ≠ key := by
        rintro rfl
        exact hfresh (List.mem_map.2 ⟨_, h, rfl⟩)
      rw [get?, if_neg hne]
      exact ih hkeys h

/-- The first of two tables in a row has the first say. -/
theorem get?_append (t u : Table α κ) (key : κ) :
    get? (t ++ u) key = (get? t key).or (get? u key) := by
  induction t with
  | nil => simp [get?]
  | cons e t ih =>
    obtain ⟨k, v⟩ := e
    by_cases h : k = key <;> simp [get?, h, ih]

theorem has_iff_mem_keys {t : Table α κ} {key : κ} : t.has key = true ↔ key ∈ t.keys := by
  rw [has, Option.isSome_iff_exists, mem_keys_iff]

theorem keys_put_of_mem {t : Table α κ} {key : κ} (value : α) (h : key ∈ t.keys) :
    (t.put key value).keys = t.keys := by
  induction t with
  | nil => simp [keys] at h
  | cons e t ih =>
    obtain ⟨k, v⟩ := e
    by_cases hk : k = key
    · simp [put, keys, hk]
    · have hm : key ∈ keys t := by simpa [keys, Ne.symm hk] using h
      have := ih hm
      simp only [keys] at this
      simp [put, keys, hk, this]

theorem put_of_not_mem {t : Table α κ} {key : κ} (value : α) (h : key ∉ t.keys) :
    t.put key value = t ++ [(key, value)] := by
  induction t with
  | nil => rfl
  | cons e t ih =>
    obtain ⟨k, v⟩ := e
    have hne : k ≠ key := fun heq => h (heq ▸ List.mem_cons_self ..)
    rw [put, if_neg hne, ih fun hm => h (List.mem_cons_of_mem _ hm), List.cons_append]

theorem keys_put_of_not_mem {t : Table α κ} {key : κ} (value : α) (h : key ∉ t.keys) :
    (t.put key value).keys = t.keys ++ [key] := by
  rw [put_of_not_mem value h, keys, List.map_append]
  rfl

/-- Writes keep the keys distinct. -/
theorem nodup_keys_put {t : Table α κ} (key : κ) (value : α) (h : t.keys.Nodup) :
    (t.put key value).keys.Nodup := by
  by_cases hm : key ∈ t.keys
  · rw [keys_put_of_mem value hm]; exact h
  · rw [keys_put_of_not_mem value hm]
    refine List.nodup_append.2 ⟨h, by simp, ?_⟩
    rintro a ha b hb rfl
    simp at hb
    exact hm (hb ▸ ha)

/-- An entry after a write was there before, or was written. -/
theorem mem_of_mem_put {t : Table α κ} {key : κ} {value : α} {e : κ × α}
    (h : e ∈ t.put key value) : e ∈ t ∨ e = (key, value) := by
  induction t with
  | nil => exact .inr (List.mem_singleton.1 h)
  | cons first t ih =>
    obtain ⟨k, v⟩ := first
    rw [put] at h
    split at h
    · rename_i hk
      rcases List.mem_cons.1 h with rfl | h
      · exact .inr (by rw [hk])
      · exact .inl (List.mem_cons_of_mem _ h)
    · rcases List.mem_cons.1 h with rfl | h
      · exact .inl (List.mem_cons_self ..)
      · exact (ih h).imp_left (List.mem_cons_of_mem _)

theorem nodup_keys_merge {t : Table α κ} (u : Table α κ) (h : t.keys.Nodup) : (t.merge u).keys.Nodup := by
  unfold merge
  induction u generalizing t with
  | nil => exact h
  | cons e u ih => exact ih (nodup_keys_put e.1 e.2 h)

/-- Where keys are distinct throughout, a second table is written behind the first. -/
theorem merge_of_nodup {t u : Table α κ} (h : (keys (t ++ u)).Nodup) : t.merge u = t ++ u := by
  unfold merge
  induction u generalizing t with
  | nil => simp
  | cons e u ih =>
    have hfresh : e.1 ∉ t.keys := by
      rw [keys, List.map_append, List.map_cons] at h
      exact fun hm => (List.nodup_append.1 h).2.2 _ hm _ (List.mem_cons_self ..) rfl
    have hput := put_of_not_mem e.2 hfresh
    rw [List.foldl_cons, hput, ih (by simpa using h), List.append_assoc, List.singleton_append]

theorem get?_merge (t u : Table α κ) (key : κ) :
    (merge t u).get? key = ((u.reverse.find? fun e => e.1 = key).map (·.2)).or (t.get? key) := by
  unfold merge
  induction u generalizing t with
  | nil => simp
  | cons e u ih =>
    rw [List.foldl_cons, ih, List.reverse_cons, List.find?_append]
    cases u.reverse.find? fun e => e.1 = key with
    | some last => rfl
    | none =>
      by_cases h : e.1 = key
      · subst h
        simp [get?_put_self]
      · have hput := get?_put_of_ne t e.2 (Ne.symm h)
        simp [h, hput]

/-- A table built from pairs holds the last value of each key. -/
theorem get?_ofPairs (pairs : List (κ × α)) (key : κ) :
    (ofPairs pairs).get? key = (pairs.reverse.find? fun e => e.1 = key).map (·.2) := by
  rw [ofPairs, get?_merge]
  simp [get?]

/-- Of pairs with one key the last is left. -/
theorem mem_ofPairs_cons {key : κ} {value : α} {pairs : List (κ × α)} {e : κ × α} :
    e ∈ ofPairs ((key, value) :: pairs) ↔
      (key ∉ pairs.map Prod.fst ∧ e = (key, value)) ∨ e ∈ ofPairs pairs := by
  have hmem (ps : List (κ × α)) : e ∈ ofPairs ps ↔ (ofPairs ps).get? e.1 = some e.2 :=
    ⟨get?_of_mem (nodup_keys_merge ps List.nodup_nil), mem_of_get?⟩
  rw [hmem, hmem, get?_ofPairs, get?_ofPairs, List.reverse_cons, List.find?_append]
  obtain ⟨name, v⟩ := e
  cases hfind : pairs.reverse.find? fun p => p.1 = name with
  | some last =>
    have hlast : last.1 = name := by simpa using List.find?_some hfind
    have hpairs : last ∈ pairs := List.mem_reverse.1 (List.mem_of_find?_eq_some hfind)
    refine (or_iff_right ?_).symm
    rintro ⟨hkey, heq⟩
    refine hkey (List.mem_map.2 ⟨last, hpairs, ?_⟩)
    rw [hlast, (Prod.mk.inj heq).1]
  | none =>
    have hnone : name ∉ pairs.map Prod.fst := by
      intro hname
      obtain ⟨p, hp, rfl⟩ := List.mem_map.1 hname
      have hfalse := List.find?_eq_none.1 hfind p (List.mem_reverse.2 hp)
      simp at hfalse
    by_cases hkey : key = name
    · subst hkey
      simp [hnone, eq_comm]
    · simp [hkey, Ne.symm hkey]

/-- Pairs that repeat no key are a table as they are. -/
theorem ofPairs_eq_self {t : Table α κ} (h : t.keys.Nodup) : ofPairs t = t :=
  merge_of_nodup (t := []) h

end Table

end FormFlow
