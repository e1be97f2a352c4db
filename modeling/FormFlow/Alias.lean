import FormFlow.App
import FormFlow.Sorting
import FormFlow.Template
import FormFlow.Text.Lowercase

/-!
# Aliases of state keys

A prompt may name an input by its label, by its state key, or by a loose spelling of either.  The
alias table sends each such name to the state key of its text area.  Where two text areas claim one
name, a state key beats a label, a label beats a loose spelling of a state key, and that beats a loose
spelling of a label; between equals the area whose id sorts last wins.

## Principal results

* `spaced_filter` — putting blanks between words keeps the key characters in order;
* `joined_filter` — running words together keeps their key characters and nothing else;
* `normalizeChars_eq` — a normalized name holds the key characters of the name;
* `normalizeKey_idem` — normalizing twice is normalizing once;
* `resolve_of_get?` — a name that the table holds resolves to the table's entry.
-/

namespace FormFlow

/-! ## Loose spellings -/

/-- A character that a normalized key may hold. -/
def isKeyChar (c : Char) : Bool :=
  (decide ('a' ≤ c) && decide (c ≤ 'z')) || (decide ('0' ≤ c) && decide (c ≤ '9'))

/-- Each run of other characters becomes one blank. -/
def spaced : List Char → List Char
  | [] => []
  | c :: cs =>
    if isKeyChar c then c :: spaced cs else ' ' :: spaced (cs.dropWhile fun d => !isKeyChar d)
termination_by cs => cs.length
decreasing_by
  · simp
  · have := (List.dropWhile_sublist (fun d => !isKeyChar d) (l := cs)).length_le
    simp
    omega

/-- The normalized spelling of a name: its lowercase words run together. -/
def normalizeChars (cs : List Char) : List Char :=
  (Text.trim (spaced (Text.lower (Text.trim cs)))).filter fun c => !Text.isBlank c

/-- The normalized spelling of a name. -/
def normalizeKey (name : String) : String := String.ofList (normalizeChars name.toList)

/-- Putting blanks between words keeps the key characters in order. -/
theorem spaced_filter (cs : List Char) : (spaced cs).filter isKeyChar = cs.filter isKeyChar := by
  fun_induction spaced cs with
  | case1 => rfl
  | case2 c cs h ih => simp [h, ih]
  | case3 c cs h ih =>
    have hb : isKeyChar ' ' = false := by decide
    rw [List.filter_cons, hb, List.filter_cons]
    simp only [h]
    rw [if_neg (by simp), ih, Text.filter_dropWhile_not]
    simp

theorem toNat_lt_of_isKeyChar {c : Char} (h : isKeyChar c = true) : c.toNat < 128 := by
  simp only [isKeyChar, Bool.or_eq_true, Bool.and_eq_true, decide_eq_true_eq, Char.le_def,
    UInt32.le_iff_toNat_le] at h
  have hz : 'z'.val.toNat = 122 := rfl
  have hnine : '9'.val.toNat = 57 := rfl
  show c.val.toNat < 128
  omega

/-- A key character is no blank, and it is its own lowercase form. -/
theorem isKeyChar_spec {c : Char} (h : isKeyChar c = true) :
    Text.isBlank c = false ∧ Text.lowerChar c = [c] := by
  have hascii := toNat_lt_of_isKeyChar h
  revert h
  refine Text.of_ascii hascii ?_
  decide +kernel

theorem isKeyChar_of_mem_spaced {cs : List Char} {c : Char} (h : c ∈ spaced cs) :
    isKeyChar c = true ∨ c = ' ' := by
  fun_induction spaced cs with
  | case1 => cases h
  | case2 d cs hd ih =>
    rcases List.mem_cons.1 h with rfl | h
    · exact .inl hd
    · exact ih h
  | case3 d cs hd ih =>
    rcases List.mem_cons.1 h with rfl | h
    · exact .inr rfl
    · exact ih h

/-- Running words together keeps their key characters and nothing else. -/
theorem joined_filter (cs : List Char) :
    ((Text.trim (spaced cs)).filter fun c => !Text.isBlank c) = cs.filter isKeyChar := by
  -- What stands between words is a blank, so that dropping blanks leaves the words.
  have hwords (ds : List Char) :
      (spaced ds).filter (fun c => !Text.isBlank c) = (spaced ds).filter isKeyChar := by
    refine List.filter_congr fun c hc => ?_
    rcases isKeyChar_of_mem_spaced hc with hkey | rfl
    · rw [hkey, (isKeyChar_spec hkey).1]
      rfl
    · decide
  rw [Text.filter_trim, hwords, spaced_filter]

/-- The normalized spelling of a name holds its key characters in lowercase, and nothing else. -/
theorem normalizeChars_eq (cs : List Char) :
    normalizeChars cs = (Text.lower (Text.trim cs)).filter isKeyChar :=
  joined_filter (Text.lower (Text.trim cs))

theorem isKeyChar_of_mem_normalizeChars {cs : List Char} {c : Char} (h : c ∈ normalizeChars cs) :
    isKeyChar c = true := by
  rw [normalizeChars_eq] at h
  exact (List.mem_filter.1 h).2

/-- A text of key characters is its own normalized spelling. -/
theorem normalizeChars_eq_self {cs : List Char} (h : ∀ c ∈ cs, isKeyChar c = true) :
    normalizeChars cs = cs := by
  have hblank : ∀ c ∈ cs, Text.isBlank c = false := fun c hc => (isKeyChar_spec (h c hc)).1
  have htrim : Text.trim cs = cs :=
    Text.trim_eq_self (fun c hc => hblank c (List.mem_of_mem_head? hc))
      fun c hc => hblank c (List.mem_of_mem_getLast? hc)
  have hlower : Text.lower cs = cs := Text.lower_eq_self fun c hc => (isKeyChar_spec (h c hc)).2
  rw [normalizeChars_eq, htrim, hlower, List.filter_eq_self]
  exact h

/-- Normalizing a name a second time changes nothing. -/
theorem normalizeKey_idem (name : String) : normalizeKey (normalizeKey name) = normalizeKey name := by
  unfold normalizeKey
  rw [String.toList_ofList, normalizeChars_eq_self fun c => isKeyChar_of_mem_normalizeChars]

/-! ## The alias table -/

/-- Text areas in the order of their ids. -/
def sortById (areas : List TextArea) : List TextArea :=
  sortBy (fun a b => Text.pointsLe a.id b.id) areas

theorem sortById_eq (areas : List TextArea) :
    sortById areas = areas.mergeSort fun a b => Text.pointsLe a.id b.id :=
  sortBy_eq_mergeSort (fun a b => Text.pointsLe_total a.id b.id) (fun a b c => Text.pointsLe_trans a.id b.id c.id) _

theorem sortById_perm (areas : List TextArea) : (sortById areas).Perm areas := by
  rw [sortById_eq]
  exact List.mergeSort_perm _ _

/-- The names of the text areas, from the weakest claim to the strongest, each with its state key. -/
def claims (areas : List TextArea) : List (String × String) :=
  areas.map (fun a => (normalizeKey a.label, a.stateKey)) ++
    areas.map (fun a => (normalizeKey a.stateKey, a.stateKey)) ++
    areas.map (fun a => (a.label, a.stateKey)) ++
    areas.map (fun a => (a.stateKey, a.stateKey))

/-- The alias table of a list of components: a later claim to a name replaces an earlier one. -/
def aliasTable (components : List Component) : Table String :=
  Table.ofPairs (claims (sortById (components.filterMap Component.textArea?)))

/-- The state key that a name stands for: by the name itself, else by its normalized spelling; a name
that the table does not know stands for itself. -/
def resolve (aliases : Table String) (name : String) : String :=
  match aliases.get? name with
  | some key => key
  | none => (aliases.get? (normalizeKey name)).getD name

theorem resolve_of_get? {aliases : Table String} {name key : String}
    (h : aliases.get? name = some key) : resolve aliases name = key := by
  simp [resolve, h]

end FormFlow
