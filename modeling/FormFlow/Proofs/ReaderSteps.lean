import FormFlow.Json.Reader

/-!
# What the readers do

Each reader looks at the first characters of a text, and hands what is left to readers with less fuel.  The
rules say with which results it succeeds, and the steps that there are no others.

## Principal results

* `readItems_last` to `readValue_number` — rule by rule, when the readers succeed;
* `readValue_step`, `readItems_step`, `readMembers_step` — what was read, if they did.
-/

namespace FormFlow.Json

theorem exists_of_bind_ok {ε α β : Type} {x : Except ε α} {f : α → Except ε β} {b : β}
    (h : (x >>= f) = .ok b) : ∃ a, x = .ok a ∧ f a = .ok b := by
  cases x with
  | error e => cases h
  | ok a => exact ⟨a, rfl, h⟩

theorem exists_of_map_ok {ε α β : Type} {x : Except ε α} {f : α → β} {b : β} (h : x.map f = .ok b) :
    ∃ a, x = .ok a ∧ f a = b := by
  cases x with
  | error e => cases h
  | ok a => exact ⟨a, rfl, Except.ok.inj h⟩

/-! ## White space -/

theorem skipBlanks_of_head {c : Char} {t : List Char} (h : isGap c = false) : skipBlanks (c :: t) = c :: t := by
  rw [skipBlanks, List.dropWhile_cons_of_neg (by rw [h]; decide)]

theorem skipBlanks_gap {gap t : List Char} {c : Char} (hgap : ∀ d ∈ gap, isGap d = true) (h : isGap c = false) :
    skipBlanks (gap ++ c :: t) = c :: t := by
  rw [skipBlanks_append hgap, skipBlanks_of_head h]

/-! ## Rules -/

section

variable {dialect : Dialect} {fuel : Nat} {cs rest after behind left : List Char} {name : Points} {v : Reading}
  {items : List Reading} {members : List (Points × Reading)}

theorem readItems_last (hv : readValue dialect fuel cs = .ok (v, rest))
    (hclose : skipBlanks rest = ']' :: left) : readItems dialect (fuel + 1) cs = .ok ([v], left) := by
  simp only [readItems, hv, bind, Except.bind, hclose]
  rfl

theorem readItems_comma (hv : readValue dialect fuel cs = .ok (v, rest))
    (hcomma : skipBlanks rest = ',' :: after)
    (hitems : readItems dialect fuel (skipBlanks after) = .ok (items, left)) :
    readItems dialect (fuel + 1) cs = .ok (v :: items, left) := by
  simp only [readItems, hv, bind, Except.bind, hcomma, hitems]
  rfl

theorem readMembers_last (hname : readString (cs.length + 1) (cs.length + 1) cs = .ok (name, rest))
    (hcolon : skipBlanks rest = ':' :: after) (hv : readValue dialect fuel (skipBlanks after) = .ok (v, behind))
    (hclose : skipBlanks behind = '}' :: left) :
    readMembers dialect (fuel + 1) ('"' :: cs) = .ok ([(name, v)], left) := by
  simp only [readMembers, List.length_cons, hname, bind, Except.bind, hcolon, hv, hclose]
  rfl

theorem readMembers_comma (hname : readString (cs.length + 1) (cs.length + 1) cs = .ok (name, rest))
    (hcolon : skipBlanks rest = ':' :: after) (hv : readValue dialect fuel (skipBlanks after) = .ok (v, behind))
    {next : List Char} (hcomma : skipBlanks behind = ',' :: next)
    (hmembers : readMembers dialect fuel (skipBlanks next) = .ok (members, left)) :
    readMembers dialect (fuel + 1) ('"' :: cs) = .ok ((name, v) :: members, left) := by
  simp only [readMembers, List.length_cons, hname, bind, Except.bind, hcolon, hv, hcomma, hmembers]
  rfl

theorem readValue_string (hread : readString (cs.length + 1) (cs.length + 1) cs = .ok (name, rest)) :
    readValue dialect (fuel + 1) ('"' :: cs) = .ok (.str name, rest) := by
  simp only [readValue, List.length_cons, hread, bind, Except.bind]
  rfl

theorem readValue_emptyArr (hclose : skipBlanks cs = ']' :: left) :
    readValue dialect (fuel + 1) ('[' :: cs) = .ok (.arr [], left) := by
  simp only [readValue, hclose]

theorem readValue_arr (hfirst : ∀ t, skipBlanks cs ≠ ']' :: t)
    (hitems : readItems dialect fuel (skipBlanks cs) = .ok (items, left)) :
    readValue dialect (fuel + 1) ('[' :: cs) = .ok (.arr items, left) := by
  rw [readValue]
  split
  · rename_i heq
    exact absurd heq (hfirst _)
  · rw [hitems]
    rfl

theorem readValue_emptyObj (hclose : skipBlanks cs = '}' :: left) :
    readValue dialect (fuel + 1) ('{' :: cs) = .ok (.obj [], left) := by
  simp only [readValue, hclose]

theorem readValue_obj (hfirst : ∀ t, skipBlanks cs ≠ '}' :: t)
    (hmembers : readMembers dialect fuel (skipBlanks cs) = .ok (members, left)) :
    readValue dialect (fuel + 1) ('{' :: cs) = .ok (.obj (Table.ofPairs members), left) := by
  rw [readValue]
  split
  · rename_i heq
    exact absurd heq (hfirst _)
  · rw [hmembers]
    rfl

/-- A name of a constant begins with a letter, or with a minus and a letter. -/
theorem exists_constant_eq {entry : String × Float} (h : entry ∈ constants) :
    ∃ c t, c.isDigit = false ∧ c ≠ '-' ∧ (entry.1.toList = c :: t ∨ entry.1.toList = '-' :: c :: t) := by
  rcases List.mem_cons.1 h with rfl | h
  · exact ⟨'N', ['a', 'N'], by decide, by decide, .inl (by decide)⟩
  rcases List.mem_cons.1 h with rfl | h
  · exact ⟨'I', "nfinity".toList, by decide, by decide, .inl (by decide)⟩
  rw [List.mem_singleton.1 h]
  exact ⟨'I', "nfinity".toList, by decide, by decide, .inr (by decide)⟩

/-- No number begins as a constant does. -/
theorem constant?_number {d : Char} {ds : List Char} (hd : d.isDigit = true)
    (h : cs = d :: ds ∨ cs = '-' :: d :: ds) : constant? cs = none := by
  refine List.findSome?_eq_none_iff.2 fun entry hentry => if_neg fun hname => ?_
  replace hname := List.isPrefixOf_iff_prefix.1 hname
  obtain ⟨c, t, hc, hminus, hconstant⟩ := exists_constant_eq hentry
  have hne : c ≠ d := by
    rintro rfl
    rw [hc] at hd
    cases hd
  rcases hconstant with hconstant | hconstant <;> rcases h with rfl | rfl <;>
    rw [hconstant, List.cons_prefix_cons] at hname
  · exact hne hname.1
  · exact hminus hname.1
  · rw [← hname.1] at hd
    cases hd
  · exact hne (List.cons_prefix_cons.1 hname.2).1

theorem readValue_number {d : Char} {ds : List Char} (hd : d.isDigit = true)
    (h : cs = d :: ds ∨ cs = '-' :: d :: ds) :
    readValue dialect (fuel + 1) cs = (readNumber cs).map fun (n, rest) => (.num n, rest) := by
  have hconstant := constant?_number hd h
  obtain ⟨c, t, rfl, hc⟩ : ∃ c t, cs = c :: t ∧ (c.isDigit = true ∨ c = '-') := by
    rcases h with rfl | rfl
    · exact ⟨d, ds, rfl, .inl hd⟩
    · exact ⟨'-', d :: ds, rfl, .inr rfl⟩
  rw [readValue, hconstant]
  · rfl
  all_goals
    intro rest heq
    cases heq
    revert hc
    decide

end

/-! ## Steps -/

/-- What the reader of values makes of a text, and what it leaves. -/
inductive ValueStep (dialect : Dialect) (fuel : Nat) : List Char → Reading → List Char → Prop
  | nullWord {rest : List Char} : ValueStep dialect fuel ('n' :: 'u' :: 'l' :: 'l' :: rest) .null rest
  | trueWord {rest : List Char} : ValueStep dialect fuel ('t' :: 'r' :: 'u' :: 'e' :: rest) (.bool true) rest
  | falseWord {rest : List Char} :
      ValueStep dialect fuel ('f' :: 'a' :: 'l' :: 's' :: 'e' :: rest) (.bool false) rest
  | string {cs rest : List Char} {points : Points}
      (letters : readString (cs.length + 1) (cs.length + 1) cs = .ok (points, rest)) :
      ValueStep dialect fuel ('"' :: cs) (.str points) rest
  | emptyArray {cs rest : List Char} (close : skipBlanks cs = ']' :: rest) :
      ValueStep dialect fuel ('[' :: cs) (.arr []) rest
  | array {cs rest : List Char} {items : List Reading}
      (each : readItems dialect fuel (skipBlanks cs) = .ok (items, rest)) :
      ValueStep dialect fuel ('[' :: cs) (.arr items) rest
  | emptyObject {cs rest : List Char} (close : skipBlanks cs = '}' :: rest) :
      ValueStep dialect fuel ('{' :: cs) (.obj []) rest
  | object {cs rest : List Char} {members : List (Points × Reading)}
      (each : readMembers dialect fuel (skipBlanks cs) = .ok (members, rest)) :
      ValueStep dialect fuel ('{' :: cs) (.obj (Table.ofPairs members)) rest
  | constant {cs rest : List Char} {name : String} {x : Float} (lenient : dialect = .lenient)
      (found : constant? cs = some ((name, x), rest)) : ValueStep dialect fuel cs (.num (.float x)) rest
  | number {cs rest : List Char} {n : Number} (found : readNumber cs = .ok (n, rest)) :
      ValueStep dialect fuel cs (.num n) rest

/-- What the reader of items makes of a text, and what it leaves. -/
inductive ItemsStep (dialect : Dialect) (fuel : Nat) (cs : List Char) : List Reading → List Char → Prop
  | last {rest left : List Char} {v : Reading} (item : readValue dialect fuel cs = .ok (v, rest))
      (close : skipBlanks rest = ']' :: left) : ItemsStep dialect fuel cs [v] left
  | more {rest after left : List Char} {v : Reading} {items : List Reading}
      (item : readValue dialect fuel cs = .ok (v, rest)) (comma : skipBlanks rest = ',' :: after)
      (others : readItems dialect fuel (skipBlanks after) = .ok (items, left)) :
      ItemsStep dialect fuel cs (v :: items) left

/-- What the reader of members makes of a text behind the first quote, and what it leaves. -/
inductive MembersStep (dialect : Dialect) (fuel : Nat) (cs : List Char) :
    List (Points × Reading) → List Char → Prop
  | last {name : Points} {rest after behind left : List Char} {v : Reading}
      (letters : readString (cs.length + 1) (cs.length + 1) cs = .ok (name, rest))
      (colon : skipBlanks rest = ':' :: after) (value : readValue dialect fuel (skipBlanks after) = .ok (v, behind))
      (close : skipBlanks behind = '}' :: left) : MembersStep dialect fuel cs [(name, v)] left
  | more {name : Points} {rest after behind next left : List Char} {v : Reading} {members : List (Points × Reading)}
      (letters : readString (cs.length + 1) (cs.length + 1) cs = .ok (name, rest))
      (colon : skipBlanks rest = ':' :: after) (value : readValue dialect fuel (skipBlanks after) = .ok (v, behind))
      (comma : skipBlanks behind = ',' :: next)
      (others : readMembers dialect fuel (skipBlanks next) = .ok (members, left)) :
      MembersStep dialect fuel cs ((name, v) :: members) left

section

variable {dialect : Dialect} {fuel : Nat} {cs rest : List Char}

/-- **What was read, if a value was read.** -/
theorem readValue_step {v : Reading} (h : readValue dialect (fuel + 1) cs = .ok (v, rest)) :
    ValueStep dialect fuel cs v rest := by
  unfold readValue at h
  split at h
  · obtain ⟨_, hread, h⟩ := exists_of_bind_ok h
    cases h
    exact .string hread
  · split at h
    · rename_i hclose
      cases h
      exact .emptyObject hclose
    · obtain ⟨_, hread, h⟩ := exists_of_bind_ok h
      cases h
      exact .object hread
  · split at h
    · rename_i hclose
      cases h
      exact .emptyArray hclose
    · obtain ⟨_, hread, h⟩ := exists_of_bind_ok h
      cases h
      exact .array hread
  · cases h
    exact .nullWord
  · cases h
    exact .trueWord
  · cases h
    exact .falseWord
  · split at h
    · rename_i hfound
      split at h
      · cases h
      · cases h
        exact .constant rfl hfound
    · obtain ⟨_, hread, h⟩ := exists_of_bind_ok h
      cases h
      exact .number hread

/-- **What was read, if items were read.** -/
theorem readItems_step {items : List Reading} (h : readItems dialect (fuel + 1) cs = .ok (items, rest)) :
    ItemsStep dialect fuel cs items rest := by
  unfold readItems at h
  obtain ⟨_, hitem, h⟩ := exists_of_bind_ok h
  dsimp only at h
  split at h
  · rename_i hclose
    cases h
    exact .last hitem hclose
  · rename_i hcomma
    obtain ⟨_, hothers, h⟩ := exists_of_bind_ok h
    cases h
    exact .more hitem hcomma hothers
  · cases h

/-- **What was read, if members were read**: the text begins with a quote. -/
theorem readMembers_step {members : List (Points × Reading)}
    (h : readMembers dialect (fuel + 1) cs = .ok (members, rest)) :
    ∃ body, cs = '"' :: body ∧ MembersStep dialect fuel body members rest := by
  unfold readMembers at h
  split at h
  · refine ⟨_, rfl, ?_⟩
    obtain ⟨_, hname, h⟩ := exists_of_bind_ok h
    dsimp only at h
    split at h
    · rename_i hcolon
      obtain ⟨_, hvalue, h⟩ := exists_of_bind_ok h
      split at h
      · rename_i hclose
        cases h
        exact .last hname hcolon hvalue hclose
      · rename_i hcomma
        obtain ⟨_, hothers, h⟩ := exists_of_bind_ok h
        cases h
        exact .more hname hcolon hvalue hcomma hothers
      · cases h
    · cases h
  · cases h

end

end FormFlow.Json
