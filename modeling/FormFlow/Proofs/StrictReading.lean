import FormFlow.Prompt
import FormFlow.Proofs.StrictTokens

/-!
# Strict reading follows the grammar

A text is read as strict JSON exactly if the grammar spells a document with it, in which no integer has more
digits than are read, and what is read is the value of that document.  Any other text is refused with the text as
it came.

## Principal results

* `Grammar.Value.reads` — what is spelled is read, with as much fuel as there is text;
* `readsSpelled` — what is read is spelled;
* `readText_ok_iff` — the texts that are read;
* `parseText_exact` — which answers of a provider are read, and what becomes of the others.
-/

namespace FormFlow.Json

open Grammar

/-! ## White space -/

theorem gap_skipBlanks (cs : List Char) : Gap cs (skipBlanks cs) :=
  ⟨cs.takeWhile isGap, fun _ hc => List.mem_takeWhile_imp hc, List.takeWhile_append_dropWhile.symm⟩

theorem gap_of_skipBlanks {cs rest : List Char} (h : skipBlanks cs = rest) : Gap cs rest :=
  h ▸ gap_skipBlanks cs

theorem Grammar.Gap.skipBlanks_eq {cs t : List Char} {c : Char} (h : Gap cs (c :: t)) (hc : isGap c = false) :
    skipBlanks cs = c :: t := by
  obtain ⟨gap, hgap, rfl⟩ := h
  exact skipBlanks_gap hgap hc

theorem Grammar.Gap.skipBlanks_nil {cs : List Char} (h : Gap cs []) : skipBlanks cs = [] := by
  obtain ⟨gap, hgap, rfl⟩ := h
  exact skipBlanks_append hgap

theorem Grammar.Gap.ends {cs rest : List Char} (h : Gap cs rest) (hrest : Ends rest) : Ends cs := by
  obtain ⟨gap, hgap, rfl⟩ := h
  exact ends_gap hgap hrest

/-! ## What is spelled is read -/

theorem exists_source_eq (l : Literal) (rest : List Char) :
    ∃ d ds, d.isDigit = true ∧ (l.source ++ rest = d :: ds ∨ l.source ++ rest = '-' :: d :: ds) := by
  obtain ⟨d, ds, hds⟩ := List.exists_cons_of_ne_nil l.whole.ne_nil
  refine ⟨d, ds ++ (l.tail ++ rest), l.whole.digits d (hds ▸ List.mem_cons_self ..), ?_⟩
  rw [Literal.source, hds]
  cases l.negative
  · exact .inl (by simp)
  · exact .inr (by simp)

/-- How a value begins: not with white space, and with no closing bracket. -/
theorem Grammar.Value.head {cs rest : List Char} {d : Document} (h : Value cs d rest) :
    ∃ c t, cs = c :: t ∧ isGap c = false ∧ c ≠ ']' ∧ c ≠ '\ufeff' := by
  cases h with
  | number l =>
    obtain ⟨d, ds, hd, heq | heq⟩ := exists_source_eq l rest <;> rw [heq]
    · refine ⟨d, ds, rfl, Bool.eq_false_iff.2 fun hgap => ?_, ?_, ?_⟩
      · exact absurd hd (Bool.eq_false_iff.1 (isDigit_of_isGap hgap))
      · rintro rfl
        cases hd
      · rintro rfl
        cases hd
    · exact ⟨_, _, rfl, by decide⟩
  | nullWord | trueWord | falseWord | string | emptyArray | array | emptyObject | object =>
    exact ⟨_, _, rfl, by decide⟩

theorem Grammar.Items.head {cs rest : List Char} {items : List Document} (h : Items cs items rest) :
    ∃ c t, cs = c :: t ∧ isGap c = false ∧ c ≠ ']' := by
  cases h with
  | last item | more item =>
    obtain ⟨c, t, hcs, hgap, hne, _⟩ := item.head
    exact ⟨c, t, hcs, hgap, hne⟩

theorem Grammar.Members.head {cs rest : List Char} {members : List (Points × Document)}
    (h : Members cs members rest) : ∃ t, cs = '"' :: t := by
  cases h with
  | last member | more member =>
    cases member
    exact ⟨_, rfl⟩

section

variable {dialect : Dialect}

mutual
/-- **What is spelled is read**, where no number goes on behind it. -/
theorem Grammar.Value.reads {cs rest : List Char} {d : Document} :
    Value cs d rest → d.Short → Ends rest → ∀ fuel, cs.length ≤ fuel + 1 + rest.length →
      readValue dialect (fuel + 1) cs = .ok (d.value, rest)
  | .nullWord, _, _, _, _ | .trueWord, _, _, _, _ | .falseWord, _, _, _, _ => rfl
  | .number l, hshort, hends, fuel, _ => by
    obtain ⟨c, ds, hc, heq⟩ := exists_source_eq l rest
    rw [readValue_number hc heq, readNumber_source (Document.short_num.1 hshort) hends]
    rfl
  | .string letters, _, _, fuel, _ => readValue_string (readString_letters letters (by omega))
  | .emptyArray close, _, _, fuel, _ => readValue_emptyArr (close.skipBlanks_eq rfl)
  | .array gap each, hshort, _, fuel, hfuel => by
    obtain ⟨c, t, rfl, hgap, hne⟩ := each.head
    have hskip := gap.skipBlanks_eq hgap
    have hlength := each.length_lt
    have hle := gap.length_le
    rw [List.length_cons] at hfuel
    obtain ⟨fuel, rfl⟩ := Nat.exists_eq_succ_of_ne_zero (show fuel ≠ 0 by omega)
    refine readValue_arr ?_ ?_ <;> rw [hskip]
    · exact fun _ heq => hne (List.cons.inj heq).1
    · exact each.reads (Document.short_arr.1 hshort) fuel (by omega)
  | .emptyObject close, _, _, fuel, _ => readValue_emptyObj (close.skipBlanks_eq rfl)
  | .object gap each, hshort, _, fuel, hfuel => by
    obtain ⟨t, rfl⟩ := each.head
    have hskip := gap.skipBlanks_eq rfl
    have hlength := each.length_lt
    have hle := gap.length_le
    rw [List.length_cons] at hfuel
    obtain ⟨fuel, rfl⟩ := Nat.exists_eq_succ_of_ne_zero (show fuel ≠ 0 by omega)
    refine readValue_obj ?_ ?_ <;> rw [hskip]
    · exact fun _ heq => absurd (List.cons.inj heq).1 (by decide)
    · exact each.reads (Document.short_obj.1 hshort) fuel (by omega)
theorem Grammar.Items.reads {cs rest : List Char} {items : List Document} :
    Items cs items rest → (∀ d ∈ items, d.Short) → ∀ fuel, cs.length ≤ fuel + 1 + rest.length →
      readItems dialect (fuel + 1) cs = .ok (Document.valueItems items, rest)
  | .last item close, hshort, fuel, hfuel => by
    have hlength := item.length_lt
    have hle := close.length_le
    rw [List.length_cons] at hle
    obtain ⟨fuel, rfl⟩ := Nat.exists_eq_succ_of_ne_zero (show fuel ≠ 0 by omega)
    have hitem := item.reads (hshort _ (List.mem_cons_self ..)) (close.ends (ends_cons (by decide))) fuel
      (by omega)
    exact readItems_last hitem (close.skipBlanks_eq rfl)
  | .more item comma gap others, hshort, fuel, hfuel => by
    have hlength := item.length_lt
    have hothers := others.length_lt
    have hcomma := comma.length_le
    have hgap := gap.length_le
    rw [List.length_cons] at hcomma
    obtain ⟨fuel, rfl⟩ := Nat.exists_eq_succ_of_ne_zero (show fuel ≠ 0 by omega)
    have hitem := item.reads (hshort _ (List.mem_cons_self ..)) (comma.ends (ends_cons (by decide))) fuel
      (by omega)
    refine readItems_comma hitem (comma.skipBlanks_eq rfl) ?_
    obtain ⟨c, t, rfl, hc, _⟩ := others.head
    rw [gap.skipBlanks_eq hc]
    exact others.reads (fun d hd => hshort d (List.mem_cons_of_mem _ hd)) fuel (by omega)
theorem Grammar.Members.reads {cs rest : List Char} {members : List (Points × Document)} :
    Members cs members rest → (∀ m ∈ members, m.2.Short) → ∀ fuel, cs.length ≤ fuel + 1 + rest.length →
      readMembers dialect (fuel + 1) cs = .ok (Document.valueMembers members, rest)
  | .last member close, hshort, fuel, hfuel => by
    have hlength := member.length_lt
    have hle := close.length_le
    rw [List.length_cons] at hle
    obtain ⟨fuel, rfl⟩ := Nat.exists_eq_succ_of_ne_zero (show fuel ≠ 0 by omega)
    obtain ⟨body, name, rest, after, rfl, hname, heq, hcolon, hvalue⟩ := member.reads
      (hshort _ (List.mem_cons_self ..)) (close.ends (ends_cons (by decide))) fuel (by omega)
    have hread := readMembers_last hname hcolon hvalue (close.skipBlanks_eq rfl)
    rwa [heq] at hread
  | .more member comma gap others, hshort, fuel, hfuel => by
    have hlength := member.length_lt
    have hothers := others.length_lt
    have hcomma := comma.length_le
    have hgap := gap.length_le
    rw [List.length_cons] at hcomma
    obtain ⟨fuel, rfl⟩ := Nat.exists_eq_succ_of_ne_zero (show fuel ≠ 0 by omega)
    obtain ⟨body, name, rest, after, rfl, hname, heq, hcolon, hvalue⟩ := member.reads
      (hshort _ (List.mem_cons_self ..)) (comma.ends (ends_cons (by decide))) fuel (by omega)
    obtain ⟨t, rfl⟩ := others.head
    have hmembers := others.reads (fun m hm => hshort m (List.mem_cons_of_mem _ hm)) fuel (by omega)
    rw [← gap.skipBlanks_eq rfl] at hmembers
    have hread := readMembers_comma hname hcolon hvalue (comma.skipBlanks_eq rfl) hmembers
    rwa [heq] at hread
theorem Grammar.Member.reads {cs behind : List Char} {m : Points × Document} :
    Member cs m behind → m.2.Short → Ends behind → ∀ fuel, cs.length ≤ fuel + 2 + behind.length →
      ∃ body name rest after, cs = '"' :: body ∧
        readString (body.length + 1) (body.length + 1) body = .ok (name, rest) ∧ name = m.1 ∧
        skipBlanks rest = ':' :: after ∧ readValue dialect (fuel + 1) (skipBlanks after) = .ok (m.2.value, behind)
  | .mk letters colon gap value, hshort, hends, fuel, hfuel => by
    have hletters := letters.length_lt
    have hcolon := colon.length_le
    have hgap := gap.length_le
    simp only [List.length_cons] at hcolon hfuel
    refine ⟨_, _, _, _, rfl, readString_letters letters (by omega), rfl, colon.skipBlanks_eq rfl, ?_⟩
    obtain ⟨c, t, rfl, hc, _⟩ := value.head
    rw [gap.skipBlanks_eq hc]
    exact value.reads hshort hends fuel (by omega)
end

end

/-! ## What is read is spelled -/

/-- What the three readers give with some fuel is spelled where they read it. -/
structure ReadsSpelled (fuel : Nat) : Prop where
  value : ∀ cs v rest, readValue .strict fuel cs = .ok (v, rest) →
    ∃ d, Value cs d rest ∧ d.Short ∧ d.value = v
  members : ∀ cs members rest, readMembers .strict fuel cs = .ok (members, rest) →
    ∃ ds, Members cs ds rest ∧ (∀ m ∈ ds, m.2.Short) ∧ Document.valueMembers ds = members
  items : ∀ cs items rest, readItems .strict fuel cs = .ok (items, rest) →
    ∃ ds, Items cs ds rest ∧ (∀ d ∈ ds, d.Short) ∧ Document.valueItems ds = items

namespace ReadsSpelled

variable {fuel : Nat} {cs rest : List Char}

theorem value_succ (ih : ReadsSpelled fuel) {v : Reading} (h : readValue .strict (fuel + 1) cs = .ok (v, rest)) :
    ∃ d, Value cs d rest ∧ d.Short ∧ d.value = v := by
  cases readValue_step h with
  | nullWord => exact ⟨.null, .nullWord, nofun, rfl⟩
  | trueWord => exact ⟨.bool true, .trueWord, nofun, rfl⟩
  | falseWord => exact ⟨.bool false, .falseWord, nofun, rfl⟩
  | string letters =>
    obtain ⟨ls, hletters, rfl⟩ := exists_letters letters
    exact ⟨_, .string hletters, nofun, rfl⟩
  | emptyArray close => exact ⟨_, .emptyArray (gap_of_skipBlanks close), nofun, rfl⟩
  | array each =>
    obtain ⟨ds, hds, hshort, rfl⟩ := ih.items _ _ _ each
    exact ⟨.arr ds, .array (gap_skipBlanks _) hds, Document.short_arr.2 hshort, rfl⟩
  | emptyObject close => exact ⟨_, .emptyObject (gap_of_skipBlanks close), nofun, rfl⟩
  | object each =>
    obtain ⟨ds, hds, hshort, rfl⟩ := ih.members _ _ _ each
    exact ⟨.obj ds, .object (gap_skipBlanks _) hds, Document.short_obj.2 hshort, rfl⟩
  | constant lenient => cases lenient
  | number found =>
    obtain ⟨l, rfl, hshort, rfl⟩ := exists_literal found
    exact ⟨.num l, .number l, Document.short_num.2 hshort, rfl⟩

theorem members_succ (ih : ReadsSpelled fuel) {members : List (Points × Reading)}
    (h : readMembers .strict (fuel + 1) cs = .ok (members, rest)) :
    ∃ ds, Members cs ds rest ∧ (∀ m ∈ ds, m.2.Short) ∧ Document.valueMembers ds = members := by
  obtain ⟨body, rfl, hstep⟩ := readMembers_step h
  cases hstep with
  | last letters colon value close =>
    obtain ⟨ls, hletters, rfl⟩ := exists_letters letters
    obtain ⟨d, hd, hshort, rfl⟩ := ih.value _ _ _ value
    have hmember := Member.mk hletters (gap_of_skipBlanks colon) (gap_skipBlanks _) hd
    exact ⟨_, .last hmember (gap_of_skipBlanks close), List.forall_mem_singleton.2 hshort, rfl⟩
  | more letters colon value comma others =>
    obtain ⟨ls, hletters, rfl⟩ := exists_letters letters
    obtain ⟨d, hd, hshort, rfl⟩ := ih.value _ _ _ value
    obtain ⟨ds, hds, hmore, rfl⟩ := ih.members _ _ _ others
    have hmember := Member.mk hletters (gap_of_skipBlanks colon) (gap_skipBlanks _) hd
    exact ⟨_, .more hmember (gap_of_skipBlanks comma) (gap_skipBlanks _) hds,
      List.forall_mem_cons.2 ⟨hshort, hmore⟩, rfl⟩

theorem items_succ (ih : ReadsSpelled fuel) {items : List Reading}
    (h : readItems .strict (fuel + 1) cs = .ok (items, rest)) :
    ∃ ds, Items cs ds rest ∧ (∀ d ∈ ds, d.Short) ∧ Document.valueItems ds = items := by
  cases readItems_step h with
  | last item close =>
    obtain ⟨d, hd, hshort, rfl⟩ := ih.value _ _ _ item
    exact ⟨_, .last hd (gap_of_skipBlanks close), List.forall_mem_singleton.2 hshort, rfl⟩
  | more item comma others =>
    obtain ⟨d, hd, hshort, rfl⟩ := ih.value _ _ _ item
    obtain ⟨ds, hds, hmore, rfl⟩ := ih.items _ _ _ others
    exact ⟨_, .more hd (gap_of_skipBlanks comma) (gap_skipBlanks _) hds,
      List.forall_mem_cons.2 ⟨hshort, hmore⟩, rfl⟩

end ReadsSpelled

/-- **What is read is spelled**, with any fuel. -/
theorem readsSpelled (fuel : Nat) : ReadsSpelled fuel := by
  induction fuel with
  | zero =>
    refine ⟨fun cs v rest h => ?_, fun cs members rest h => ?_, fun cs items rest h => ?_⟩
    · rw [readValue] at h
      cases h
    · rw [readMembers] at h
      cases h
    · rw [readItems] at h
      cases h
  | succ fuel ih =>
    exact ⟨fun _ _ _ => ih.value_succ, fun _ _ _ => ih.members_succ, fun _ _ _ => ih.items_succ⟩

/-! ## Texts -/

/-- A text that spells a document does not begin with a byte-order mark. -/
theorem Grammar.Spells.unmarked {text : List Char} {d : Document} (h : Spells text d) (t : List Char) :
    text ≠ '\ufeff' :: t := by
  rintro rfl
  obtain ⟨start, rest, ⟨gap, hgap, heq⟩, hvalue, _⟩ := h
  cases gap with
  | nil =>
    obtain ⟨c, t, rfl, _, _, hmark⟩ := hvalue.head
    exact hmark (List.cons.inj heq).1.symm
  | cons c gap =>
    have hc := hgap c (List.mem_cons_self ..)
    rw [← (List.cons.inj heq).1] at hc
    cases hc

/-- A text that spells a document is read as the value of it, in both dialects. -/
theorem Grammar.Spells.readText_eq {dialect : Dialect} {text : List Char} {d : Document} (h : Spells text d)
    (hshort : d.Short) : readText dialect text = .ok d.value := by
  have hmark := h.unmarked
  obtain ⟨start, rest, hstart, hvalue, hrest⟩ := h
  obtain ⟨c, t, rfl, hc, _⟩ := hvalue.head
  have hlength := hstart.length_le
  have hread : readValue dialect (text.length + 1) (c :: t) = .ok (d.value, rest) :=
    hvalue.reads hshort (hrest.ends ends_nil) text.length (by omega)
  rw [readText, hstart.skipBlanks_eq hc, hread]
  · simp only [bind, Except.bind, hrest.skipBlanks_nil]
    rfl
  · exact hmark

/-- **The texts that are read**, and as what. -/
theorem readText_ok_iff {text : List Char} {r : Reading} :
    readText .strict text = .ok r ↔ ∃ d, Spells text d ∧ d.Short ∧ d.value = r := by
  constructor
  · intro h
    unfold readText at h
    split at h
    · cases h
    · obtain ⟨⟨found, rest⟩, hread, h⟩ := exists_of_bind_ok h
      dsimp only at h
      split at h
      · rename_i hrest
        cases h
        obtain ⟨d, hd, hshort, rfl⟩ := (readsSpelled _).value _ _ _ hread
        exact ⟨d, ⟨_, _, gap_skipBlanks _, hd, gap_of_skipBlanks hrest⟩, hshort, rfl⟩
      · cases h
  · rintro ⟨d, hspells, hshort, rfl⟩
    exact hspells.readText_eq hshort

/-- The texts that are read as a value, and as which. -/
theorem read_ok_iff {text : List Char} {v : Json} :
    read .strict text = .ok v ↔ ∃ d, Spells text d ∧ d.Short ∧ d.value.toJson = v := by
  unfold read
  constructor
  · intro h
    obtain ⟨r, hread, rfl⟩ := exists_of_map_ok h
    obtain ⟨d, hspells, hshort, rfl⟩ := readText_ok_iff.1 hread
    exact ⟨d, hspells, hshort, rfl⟩
  · rintro ⟨d, hspells, hshort, rfl⟩
    rw [hspells.readText_eq hshort]
    rfl

theorem parseText_ok_iff {text : String} {r : Reading} :
    Prompt.parseText text = .ok r ↔ ∃ d, Spells text.toList d ∧ d.Short ∧ d.value = r := by
  rw [← readText_ok_iff]
  unfold Prompt.parseText
  cases readText .strict text.toList <;> simp

/-- **A provider's text is read exactly if it is strict JSON**: it spells a document, in which no integer has more
digits than are read.  It is read as the value of that document, in which a repeated name has its last value.
Otherwise it is refused, and handed on as it came. -/
theorem parseText_exact (text : String) :
    (∀ r, Prompt.parseText text = .ok r ↔ ∃ d, Spells text.toList d ∧ d.Short ∧ d.value = r) ∧
      ((¬ ∃ d, Spells text.toList d ∧ d.Short) ↔
        ∃ detail, Prompt.parseText text = .error (.badResponse detail text)) ∧
      ∀ (members : List (Points × Document)) (name : Points), (Document.obj members).value.get? name =
        (members.reverse.find? fun m => m.1 = name).map fun m => m.2.value := by
  refine ⟨fun r => parseText_ok_iff, ?_, Document.get?_value⟩
  constructor
  · intro hnone
    unfold Prompt.parseText
    cases hread : readText .strict text.toList with
    | error e => exact ⟨_, rfl⟩
    | ok r =>
      obtain ⟨d, hspells, hshort, _⟩ := readText_ok_iff.1 hread
      exact absurd ⟨d, hspells, hshort⟩ hnone
  · rintro ⟨detail, herror⟩ ⟨d, hspells, hshort⟩
    have hread := parseText_ok_iff.2 ⟨d, hspells, hshort, rfl⟩
    rw [herror] at hread
    cases hread

end FormFlow.Json
