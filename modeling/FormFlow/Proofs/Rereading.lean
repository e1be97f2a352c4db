import FormFlow.Proofs.Spelling
import FormFlow.Proofs.WrittenNumbers

/-!
# Reading values back

A value that repeats no key, and whose numbers are integers that are not too long, is read back from each of its
printed forms, in both dialects.  Where there are floats too, the text of a value is strict JSON exactly if they
are finite, as the others are written by names.

## Principal results

* `read_write` — a printed value is read back, with white space after it;
* `finite_of_spelled` — only a finite value is written as strict JSON;
* `exists_read_iff` — the values whose texts are strict JSON.
-/

namespace FormFlow.Json

open Grammar

/-! ## Integers -/

/-- Every number inside a value is an integer with no more digits than are read. -/
def Readable (v : Json) : Prop :=
  ∀ n ∈ v.numbers, ∃ i : Int, n = .int i ∧ (Nat.toDigits 10 i.natAbs).length ≤ digitLimit

/-- What a value is written as spells its document, with white space after it. -/
theorem spells_write {style : Style} (h : style.Legible) {literal : Number → Literal} {v : Json}
    (hnumbers : ∀ n ∈ v.numbers, style.Writes literal n) {blanks : List Char}
    (hblanks : ∀ c ∈ blanks, isGap c = true) : Spells (write style 0 v ++ blanks) (v.document literal) :=
  ⟨_, blanks, ⟨[], List.forall_mem_nil _, rfl⟩, spelled_write h hnumbers 0 blanks,
    ⟨blanks, hblanks, (List.append_nil _).symm⟩⟩

/-- **A printed value is read back**, with white space after it. -/
theorem readText_write {style : Style} (h : style.Legible) {v : Json} (hkeys : v.Distinct) (hnumbers : v.Readable)
    {blanks : List Char} (hblanks : ∀ c ∈ blanks, isGap c = true) (dialect : Dialect) :
    readText dialect (write style 0 v ++ blanks) = .ok (.ofJson v) := by
  obtain ⟨literal, hint, _⟩ := exists_literals "" ""
  have hliteral : ∀ n ∈ v.numbers, style.Writes literal n ∧ (literal n).Short ∧ (literal n).number = n := by
    intro n hn
    obtain ⟨i, rfl, hlength⟩ := hnumbers n hn
    rw [Style.Writes, hint]
    exact ⟨(source_intLiteral i).symm, short_intLiteral.2 hlength, number_intLiteral i⟩
  have hspells := spells_write h (fun n hn => (hliteral n hn).1) hblanks
  rw [hspells.readText_eq (short_document fun n hn => (hliteral n hn).2.1),
    value_document hkeys fun n hn => (hliteral n hn).2.2]

theorem read_write {style : Style} (h : style.Legible) {v : Json} (hkeys : v.Distinct) (hnumbers : v.Readable)
    {blanks : List Char} (hblanks : ∀ c ∈ blanks, isGap c = true) (dialect : Dialect) :
    read dialect (write style 0 v ++ blanks) = .ok v := by
  rw [read, readText_write h hkeys hnumbers hblanks, Except.map, Reading.toJson_ofJson]

/-- A value that is read back has a text. -/
theorem Readable.writable {v : Json} (h : v.Readable) : v.Writable := by
  intro n hn
  obtain ⟨i, rfl, hlength⟩ := h n hn
  exact decide_eq_true hlength

/-! ## Floats -/

/-- A style that writes what is not finite by the names of constants. -/
structure Style.Standard (style : Style) : Prop extends style.Legible where
  float : style.float = floatText "Infinity" "NaN"

theorem inline_standard : inline.Standard := ⟨inline_legible, rfl⟩

/-- A finite value that has a text spells a document that is read. -/
theorem exists_spelled {style : Style} (h : style.Standard) {v : Json} (hfinite : v.Finite)
    (hwritable : v.Writable) :
    ∃ d : Document, d.Short ∧ ∀ depth rest, Value (write style depth v ++ rest) d rest := by
  obtain ⟨literal, hint, hfloat⟩ := exists_literals "Infinity" "NaN"
  have hliteral : ∀ n ∈ v.numbers, style.Writes literal n ∧ (literal n).Short := by
    intro n hn
    cases n with
    | int i =>
      rw [Style.Writes, hint]
      exact ⟨(source_intLiteral i).symm, short_intLiteral.2 (of_decide_eq_true (hwritable _ hn))⟩
    | float x =>
      obtain ⟨hsource, hinteger⟩ := hfloat x (hfinite _ hn)
      exact ⟨(congrFun h.float x).trans hsource.symm, fun h => absurd h hinteger⟩
  exact ⟨_, short_document fun n hn => (hliteral n hn).2,
    spelled_write h.toLegible fun n hn => (hliteral n hn).1⟩

/-! ## Only finite values are written as strict JSON -/

/-- A text spells one value at its front, where no number goes on behind it. -/
theorem Grammar.Value.rest_eq {cs rest other : List Char} {d e : Document} (hd : Value cs d rest)
    (he : Value cs e other) (hdshort : d.Short) (heshort : e.Short) (hrest : Ends rest) (hother : Ends other) :
    rest = other := by
  have hread : readValue .strict (cs.length + 1) cs = .ok (d.value, rest) :=
    hd.reads hdshort hrest cs.length (by omega)
  rw [he.reads heshort hother cs.length (by omega)] at hread
  exact (Prod.mk.inj (Except.ok.inj hread)).2.symm

/-- The name of a constant is no value. -/
theorem not_value_name {cs t rest : List Char} {c : Char} {d : Document} (hc : c = 'I' ∨ c = 'N')
    (hcs : cs = c :: t ∨ cs = '-' :: c :: t) : ¬ Value cs d rest := by
  intro h
  cases h with
  | number l =>
    obtain ⟨e, ds, he, heq⟩ := exists_source_eq l rest
    have hne : e ≠ c ∧ e ≠ '-' ∧ c ≠ '-' := by
      refine ⟨?_, ?_, ?_⟩
      · rintro rfl
        rcases hc with rfl | rfl <;> cases he
      · rintro rfl
        cases he
      · rcases hc with rfl | rfl <;> decide
    rcases heq with heq | heq <;> rw [heq] at hcs <;> rcases hcs with hcs | hcs
    · exact hne.1 (List.cons.inj hcs).1
    · exact hne.2.1 (List.cons.inj hcs).1
    · exact hne.2.2 (List.cons.inj hcs).1.symm
    · exact hne.1 (List.cons.inj (List.cons.inj hcs).2).1
  | nullWord | trueWord | falseWord | string | emptyArray | array | emptyObject | object =>
    rcases hc with rfl | rfl <;> rcases hcs with hcs | hcs <;> exact absurd (List.cons.inj hcs).1 (by decide)

section

variable {style : Style} {depth : Nat} {rest : List Char} {k : String} {v : Json} {items : List Json}
  {members : List (String × Json)}

/-- A number is written as a literal, or by the name of a constant. -/
theorem number_text (h : style.Standard) (n : Number) :
    (n.isFinite = true ∧ ∃ l : Literal, write style 0 (.num n) = l.source) ∨
      ∃ c t, (c = 'I' ∨ c = 'N') ∧ (write style 0 (.num n) = c :: t ∨ write style 0 (.num n) = '-' :: c :: t) := by
  cases n with
  | int i => exact .inl ⟨rfl, intLiteral i, (source_intLiteral i).symm⟩
  | float x =>
    rw [write, h.float]
    cases hx : Decimal.isFinite x with
    | true =>
      obtain ⟨l, hl, _⟩ := exists_literal_float "Infinity" "NaN" hx
      exact .inl ⟨hx, l, hl.symm⟩
    | false => exact .inr (exists_name_eq hx)

/-- How a written value begins: not with white space, and with no closing bracket. -/
theorem write_head (h : style.Standard) (depth : Nat) (v : Json) (rest : List Char) :
    ∃ c t, write style depth v ++ rest = c :: t ∧ isGap c = false ∧ c ≠ ']' := by
  cases v with
  | null => exact ⟨_, _, rfl, by decide⟩
  | bool b => cases b <;> exact ⟨_, _, rfl, by decide⟩
  | str s => exact ⟨_, _, rfl, by decide⟩
  | arr items => cases items <;> exact ⟨_, _, rfl, by decide⟩
  | obj members => cases members <;> exact ⟨_, _, rfl, by decide⟩
  | num n =>
    rw [write_num]
    rcases number_text h n with ⟨_, l, hl⟩ | ⟨c, t, hc, hname⟩
    · have hvalue : Value (l.source ++ rest) (.num l) rest := .number l
      obtain ⟨c, t, heq, hgap, hne, _⟩ := hvalue.head
      exact ⟨c, t, hl ▸ heq, hgap, hne⟩
    · rcases hname with hname | hname <;> rw [hname]
      · refine ⟨c, t ++ rest, rfl, ?_⟩
        rcases hc with rfl | rfl <;> decide
      · exact ⟨'-', c :: t ++ rest, rfl, by decide⟩

/-- Behind an item comes a comma, or white space and the closing bracket. -/
theorem ends_itemsTail (h : style.Legible) (depth : Nat) (items : List Json) (rest : List Char) :
    Ends (itemsTail style depth items rest) := by
  cases items with
  | nil =>
    rw [itemsTail_nil]
    exact ends_gap (h.inside depth) (ends_cons (by decide))
  | cons v items => exact ends_cons (c := ',') (by decide)

theorem skipBlanks_string {gap : List Char} (hgap : ∀ c ∈ gap, isGap c = true) (style : Style) (s : String)
    (rest : List Char) : skipBlanks (gap ++ (style.string s ++ rest)) = style.string s ++ rest :=
  skipBlanks_gap hgap rfl

theorem ends_membersTail (h : style.Legible) (depth : Nat) (members : List (String × Json)) (rest : List Char) :
    Ends (membersTail style depth members rest) := by
  cases members with
  | nil =>
    rw [membersTail_nil]
    exact ends_gap (h.inside depth) (ends_cons (by decide))
  | cons m members => exact ends_cons (c := ',') (by decide)

/-- Where the text of a value begins with a document, the value is finite, and nothing of its text is left. -/
def FiniteWhereSpelled (style : Style) (v : Json) : Prop :=
  v.Writable → ∀ depth rest d after, Value (write style depth v ++ rest) d after → d.Short → Ends rest →
    Ends after → v.Finite ∧ after = rest

/-- Behind a finite value nothing is left over. -/
theorem FiniteWhereSpelled.of_finite (h : style.Standard)
    (hfinite : v.Writable → ∀ depth rest d after, Value (write style depth v ++ rest) d after → d.Short →
      Ends rest → Ends after → v.Finite) : FiniteWhereSpelled style v := by
  intro hwritable depth rest d after hvalue hd hrest hafter
  have hv := hfinite hwritable depth rest d after hvalue hd hrest hafter
  obtain ⟨e, he, hspelled⟩ := exists_spelled h hv hwritable
  exact ⟨hv, hvalue.rest_eq (hspelled depth rest) hd he hafter hrest⟩

/-- What follows white space in front of a value is that value. -/
theorem eq_write_of_gap (h : style.Standard) {gap next : List Char} (hgap : ∀ c ∈ gap, isGap c = true)
    (hnext : Gap (gap ++ (write style depth v ++ rest)) next)
    (hhead : ∃ c t, next = c :: t ∧ isGap c = false) : next = write style depth v ++ rest := by
  obtain ⟨c, t, rfl, hc⟩ := hhead
  obtain ⟨c', t', hwrite, hc', _⟩ := write_head h depth v rest
  rw [hwrite] at hnext ⊢
  rw [← hnext.skipBlanks_eq hc, skipBlanks_gap hgap hc']

/-- White space does not begin where none is. -/
theorem gap_nil_of_head {c d : Char} {t r : List Char} (h : Gap (c :: t) (d :: r)) (hc : isGap c = false)
    (hd : isGap d = false) : c = d ∧ t = r := by
  have heq := h.skipBlanks_eq hd
  rw [skipBlanks_of_head hc] at heq
  exact List.cons.inj heq

theorem finite_of_items (h : style.Standard) {ds : List Document} {after : List Char}
    (ih : ∀ w ∈ v :: items, w.Writable ∧ FiniteWhereSpelled style w)
    (hitems : Items (write style (depth + 1) v ++ itemsTail style depth items rest) ds after)
    (hds : ∀ d ∈ ds, d.Short) : ∀ w ∈ v :: items, w.Finite := by
  induction items generalizing v ds with
  | nil =>
    obtain ⟨hwritable, hv⟩ := ih v (List.mem_cons_self ..)
    have htail := ends_itemsTail h.toLegible depth [] rest
    refine List.forall_mem_singleton.2 ?_
    cases hitems with
    | last item close =>
      exact (hv hwritable _ _ _ _ item (hds _ (List.mem_cons_self ..)) htail (close.ends (ends_cons (by decide)))).1
    | more item comma =>
      exact (hv hwritable _ _ _ _ item (hds _ (List.mem_cons_self ..)) htail (comma.ends (ends_cons (by decide)))).1
  | cons w items rec =>
    obtain ⟨⟨hwritable, hv⟩, ih⟩ := List.forall_mem_cons.1 ih
    have htail := ends_itemsTail h.toLegible depth (w :: items) rest
    cases hitems with
    | last item close =>
      -- A bracket closes the array although there is a comma.
      obtain ⟨_, rfl⟩ :=
        hv hwritable _ _ _ _ item (hds _ (List.mem_cons_self ..)) htail (close.ends (ends_cons (by decide)))
      rw [itemsTail_cons] at close
      exact absurd (gap_nil_of_head close (by decide) (by decide)).1 (by decide)
    | more item comma gap others =>
      obtain ⟨hfinite, rfl⟩ :=
        hv hwritable _ _ _ _ item (hds _ (List.mem_cons_self ..)) htail (comma.ends (ends_cons (by decide)))
      rw [itemsTail_cons] at comma
      obtain ⟨_, rfl⟩ := gap_nil_of_head comma (by decide) (by decide)
      obtain ⟨c, t, hnext, hc, _⟩ := others.head
      obtain rfl := eq_write_of_gap h (h.afterComma _) gap ⟨c, t, hnext, hc⟩
      exact List.forall_mem_cons.2 ⟨hfinite, rec ih others fun d hd => hds d (List.mem_cons_of_mem _ hd)⟩

/-- Letters end at the first quote that closes them. -/
theorem Grammar.Letters.rest_eq {cs rest other : List Char} {ls more : List Letter} (h : Letters cs ls rest)
    (hother : Letters cs more other) : rest = other := by
  have hread : readString (cs.length + 1) (cs.length + 1) cs = .ok (decode ls, rest) :=
    readString_letters h (by omega)
  rw [readString_letters hother (by omega)] at hread
  exact (Prod.mk.inj (Except.ok.inj hread)).2.symm

/-- The value of a written member is the written value. -/
theorem value_of_member (h : style.Standard) {m : Points × Document} {behind : List Char}
    (hmember : Member (style.string k ++ ':' :: (style.afterColon ++ (write style depth v ++ rest))) m behind) :
    Value (write style depth v ++ rest) m.2 behind := by
  obtain ⟨body, ls, hbody, hletters, _⟩ := exists_letters_string h.toLegible k
    (':' :: (style.afterColon ++ (write style depth v ++ rest)))
  rw [hbody] at hmember
  cases hmember with
  | mk letters colon gap value =>
    obtain rfl := hletters.rest_eq letters
    obtain ⟨_, rfl⟩ := gap_nil_of_head colon (by decide) (by decide)
    obtain ⟨c, t, hnext, hc, _⟩ := value.head
    obtain rfl := eq_write_of_gap h h.afterColon gap ⟨c, t, hnext, hc⟩
    exact value

theorem finite_of_members (h : style.Standard) {ds : List (Points × Document)} {after : List Char}
    (ih : ∀ m ∈ (k, v) :: members, m.2.Writable ∧ FiniteWhereSpelled style m.2)
    (hmembers : Members (style.string k ++ ':' :: (style.afterColon ++
      (write style (depth + 1) v ++ membersTail style depth members rest))) ds after)
    (hds : ∀ m ∈ ds, m.2.Short) : ∀ m ∈ (k, v) :: members, m.2.Finite := by
  induction members generalizing k v ds with
  | nil =>
    obtain ⟨hwritable, hv⟩ := ih (k, v) (List.mem_cons_self ..)
    have htail := ends_membersTail h.toLegible depth [] rest
    refine List.forall_mem_singleton.2 ?_
    cases hmembers with
    | last member close =>
      exact (hv hwritable _ _ _ _ (value_of_member h member) (hds _ (List.mem_cons_self ..)) htail
        (close.ends (ends_cons (by decide)))).1
    | more member comma =>
      exact (hv hwritable _ _ _ _ (value_of_member h member) (hds _ (List.mem_cons_self ..)) htail
        (comma.ends (ends_cons (by decide)))).1
  | cons m members rec =>
    obtain ⟨⟨hwritable, hv⟩, ih⟩ := List.forall_mem_cons.1 ih
    have htail := ends_membersTail h.toLegible depth (m :: members) rest
    cases hmembers with
    | last member close =>
      -- A brace closes the object although there is a comma.
      obtain ⟨_, rfl⟩ := hv hwritable _ _ _ _ (value_of_member h member) (hds _ (List.mem_cons_self ..)) htail
        (close.ends (ends_cons (by decide)))
      rw [membersTail_cons] at close
      exact absurd (gap_nil_of_head close (by decide) (by decide)).1 (by decide)
    | more member comma gap others =>
      obtain ⟨hfinite, rfl⟩ := hv hwritable _ _ _ _ (value_of_member h member) (hds _ (List.mem_cons_self ..)) htail
        (comma.ends (ends_cons (by decide)))
      rw [membersTail_cons] at comma
      obtain ⟨_, rfl⟩ := gap_nil_of_head comma (by decide) (by decide)
      obtain ⟨t, rfl⟩ := others.head
      have hnext := gap.skipBlanks_eq rfl
      rw [skipBlanks_string (h.afterComma _)] at hnext
      rw [← hnext] at others
      exact List.forall_mem_cons.2 ⟨hfinite, rec ih others fun d hd => hds d (List.mem_cons_of_mem _ hd)⟩

/-- A literal begins with no bracket and no brace. -/
theorem source_ne_cons {c : Char} (hc : c.isDigit = false ∧ c ≠ '-') (l : Literal) (cs rest : List Char) :
    c :: cs ≠ l.source ++ rest := by
  intro h
  obtain ⟨d, ds, hd, heq | heq⟩ := exists_source_eq l rest
  · rw [heq] at h
    rw [(List.cons.inj h).1, hd] at hc
    exact absurd hc.1 (by decide)
  · rw [heq] at h
    exact hc.2 (List.cons.inj h).1

theorem Grammar.Value.array_inv {cs rest : List Char} {d : Document} (h : Value ('[' :: cs) d rest) :
    Gap cs (']' :: rest) ∨ ∃ ds mid, d = .arr ds ∧ Gap cs mid ∧ Items mid ds rest := by
  generalize htext : '[' :: cs = text at h
  cases h with
  | emptyArray close =>
    cases htext
    exact .inl close
  | array gap each =>
    cases htext
    exact .inr ⟨_, _, rfl, gap, each⟩
  | number l => exact absurd htext (source_ne_cons (by decide) l cs rest)
  | nullWord | trueWord | falseWord | string | emptyObject | object =>
    exact absurd (List.cons.inj htext).1 (by decide)

theorem Grammar.Value.object_inv {cs rest : List Char} {d : Document} (h : Value ('{' :: cs) d rest) :
    Gap cs ('}' :: rest) ∨ ∃ ds mid, d = .obj ds ∧ Gap cs mid ∧ Members mid ds rest := by
  generalize htext : '{' :: cs = text at h
  cases h with
  | emptyObject close =>
    cases htext
    exact .inl close
  | object gap each =>
    cases htext
    exact .inr ⟨_, _, rfl, gap, each⟩
  | number l => exact absurd htext (source_ne_cons (by decide) l cs rest)
  | nullWord | trueWord | falseWord | string | emptyArray | array =>
    exact absurd (List.cons.inj htext).1 (by decide)

/-- **Only a finite value is written as strict JSON.** -/
theorem finite_of_spelled (h : style.Standard) (v : Json) : FiniteWhereSpelled style v := by
  induction v using valueInduction with
  | null | bool b | str s => exact .of_finite h fun _ _ _ _ _ _ _ _ _ => by simp [Finite]
  | num n =>
    refine .of_finite h fun hwritable depth rest d after hvalue _ _ _ => List.forall_mem_singleton.2 ?_
    rw [write_num] at hvalue
    rcases number_text h n with ⟨hn, _⟩ | ⟨c, t, hc, hname⟩
    · exact hn
    · refine absurd hvalue (not_value_name (t := t ++ rest) hc ?_)
      rcases hname with hname | hname <;> rw [hname]
      · exact .inl rfl
      · exact .inr rfl
  | arr items ih =>
    refine .of_finite h fun hwritable depth rest d after hvalue hd _ _ => finite_arr.2 ?_
    cases items with
    | nil => exact List.forall_mem_nil _
    | cons v items =>
      rw [write_arr_append] at hvalue
      rcases hvalue.array_inv with hclose | ⟨ds, mid, rfl, hgap, hitems⟩
      · have hbracket := eq_write_of_gap h (h.inside _) hclose ⟨_, _, rfl, by decide⟩
        obtain ⟨c, t, hwrite, _, hne⟩ := write_head h (depth + 1) v (itemsTail style depth items rest)
        exact absurd (List.cons.inj (hbracket.trans hwrite)).1.symm hne
      · obtain ⟨c, t, hmid, hc, _⟩ := hitems.head
        obtain rfl := eq_write_of_gap h (h.inside _) hgap ⟨c, t, hmid, hc⟩
        exact finite_of_items h (fun w hw => ⟨writable_arr.1 hwritable w hw, ih w hw⟩) hitems
          (Document.short_arr.1 hd)
  | obj members ih =>
    refine .of_finite h fun hwritable depth rest d after hvalue hd _ _ => finite_obj.2 ?_
    cases members with
    | nil => exact List.forall_mem_nil _
    | cons m members =>
      obtain ⟨k, v⟩ := m
      rw [write_obj_append] at hvalue
      rcases hvalue.object_inv with hclose | ⟨ds, mid, rfl, hgap, hmembers⟩
      · have hbrace := hclose.skipBlanks_eq (by decide)
        rw [skipBlanks_string (h.inside _)] at hbrace
        exact absurd (List.cons.inj hbrace).1 (by decide)
      · obtain ⟨t, rfl⟩ := hmembers.head
        have hmid := hgap.skipBlanks_eq rfl
        rw [skipBlanks_string (h.inside _)] at hmid
        rw [← hmid] at hmembers
        exact finite_of_members h (fun m hm => ⟨writable_obj.1 hwritable m hm, ih m hm⟩) hmembers
          (Document.short_obj.1 hd)

end

/-- **The values whose texts are strict JSON**: of those with short integers, the finite ones. -/
theorem exists_read_iff {style : Style} (h : style.Standard) {v : Json} (hwritable : v.Writable) :
    (∃ w, read .strict (write style 0 v) = .ok w) ↔ v.Finite := by
  constructor
  · rintro ⟨w, hread⟩
    obtain ⟨d, ⟨start, behind, hstart, hvalue, hbehind⟩, hd, rfl⟩ := read_ok_iff.1 hread
    have hstart : Gap ([] ++ (write style 0 v ++ [])) start := by rwa [List.nil_append, List.append_nil]
    obtain ⟨c, t, hhead, hc, _⟩ := hvalue.head
    obtain rfl := eq_write_of_gap h (List.forall_mem_nil _) hstart ⟨c, t, hhead, hc⟩
    exact (finite_of_spelled h v hwritable 0 [] d behind hvalue hd ends_nil (hbehind.ends ends_nil)).1
  · intro hfinite
    obtain ⟨d, hd, hspelled⟩ := exists_spelled h hfinite hwritable
    have hvalue := hspelled 0 []
    rw [List.append_nil] at hvalue
    exact ⟨d.value.toJson, read_ok_iff.2 ⟨d, ⟨_, _, ⟨[], List.forall_mem_nil _, rfl⟩, hvalue,
      ⟨[], List.forall_mem_nil _, rfl⟩⟩, hd, rfl⟩⟩

end FormFlow.Json
