import FormFlow.Proofs.TemplateScan

/-!
# Templates put together from literals and tokens

An author writes a template as literal texts with tokens between them.  A literal has no two opening braces
in a row, and none at its end when a token follows, so that no token starts in it; a token holds a plain key
with blanks around it.  Such a `Composition` is scanned into exactly these literals and tokens, and so all
who read templates agree on it: its keys are the keys written, replacing keys replaces these and drops the
blanks around them, and filling in puts a value in the place of each token and nothing else.

## Principal results

* `scan_literal` — a literal is scanned into its characters, whatever follows it;
* `Composition.scan_source` — a composition is scanned into its literals and tokens;
* `fillPieces_ok_iff` — filling in succeeds when all keys have values, and writes each where its token stood;
* `composition_readings` — the keys of a composition, its rewriting, and its filling in.
-/

namespace FormFlow

namespace Template

/-! ## Literals -/

/-- **A literal is scanned into its characters.**  No token starts in it: neither holds it two opening braces
in a row, nor do its last character and the first one that follows make such a pair. -/
theorem scan_literal {literal rest : List Char} (hsingle : ¬ ['{', '{'] <:+: literal)
    (hapart : literal.getLast? ≠ some '{' ∨ rest.head? ≠ some '{') :
    scan (literal ++ rest) = literal.map Piece.char ++ scan rest := by
  induction literal with
  | nil => rfl
  | cons c cs ih =>
    have hnone : tokenAt? (c :: (cs ++ rest)) = none := by
      rw [Option.eq_none_iff_forall_ne_some]
      rintro ⟨inner, back⟩ htoken
      have heq := (tokenAt?_spec htoken).1
      simp only [List.cons_append, List.cons.injEq] at heq
      obtain ⟨rfl, heq⟩ := heq
      -- The second brace is the next character of the literal, or the first one behind it.
      cases cs with
      | nil =>
        rw [List.nil_append] at heq
        rcases hapart with hlast | hhead
        · exact hlast rfl
        · exact hhead (by rw [heq]; rfl)
      | cons d cs =>
        simp only [List.cons_append, List.cons.injEq] at heq
        obtain ⟨rfl, _⟩ := heq
        exact hsingle ⟨[], cs, rfl⟩
    have htail : ¬ ['{', '{'] <:+: cs := fun h => hsingle (h.trans (List.suffix_cons c cs).isInfix)
    have hlast : cs.getLast? ≠ some '{' ∨ rest.head? ≠ some '{' := by
      refine hapart.imp_left fun hlast hcs => hlast ?_
      rw [List.getLast?_cons, hcs]
      rfl
    rw [List.cons_append, scan_of_none hnone, ih htail hlast, List.map_cons, List.cons_append]

/-! ## Compositions -/

/-- A token as an author writes it: a plain key with blanks around it. -/
structure Token where
  before : List Char
  key : String
  after : List Char
  blankBefore : ∀ c ∈ before, Text.isBlank c = true
  blankAfter : ∀ c ∈ after, Text.isBlank c = true
  plain : Plain key

/-- A literal with a token behind it. -/
structure Segment where
  literal : List Char
  token : Token
  /-- No two opening braces stand in a row. -/
  single : ¬ ['{', '{'] <:+: literal
  /-- The literal does not run into the braces of the token. -/
  apart : literal.getLast? ≠ some '{'

/-- A template put together from literals and tokens. -/
structure Composition where
  segments : List Segment
  /-- The literal behind the last token. -/
  tail : List Char
  single : ¬ ['{', '{'] <:+: tail

namespace Token

/-- The text between the braces. -/
def inner (t : Token) : List Char := t.before ++ t.key.toList ++ t.after

theorem inner_ne_nil (t : Token) : t.inner ≠ [] := by
  have hkey : t.key.toList ≠ [] := by simpa using t.plain.nonempty
  simp [inner, hkey]

theorem brace_not_mem_inner (t : Token) : '}' ∉ t.inner := by
  have hblank : Text.isBlank '}' = false := by decide
  intro hmem
  rw [inner, List.mem_append, List.mem_append] at hmem
  rcases hmem with (hmem | hmem) | hmem
  · exact absurd (t.blankBefore _ hmem) (by simp [hblank])
  · exact t.plain.noBrace hmem
  · exact absurd (t.blankAfter _ hmem) (by simp [hblank])

/-- The blanks do not count. -/
theorem keyOf_inner (t : Token) : keyOf t.inner = t.key := by
  rw [keyOf, inner, Text.trim_padded t.blankBefore t.blankAfter t.plain.head t.plain.last,
    String.ofList_toList]

theorem scan_append (t : Token) (rest : List Char) :
    scan ('{' :: '{' :: t.inner ++ '}' :: '}' :: rest) = .token t.inner :: scan rest :=
  scan_of_token (tokenAt?_braces t.inner_ne_nil t.brace_not_mem_inner rest)

end Token

namespace Composition

/-- The literals as they stand, and something for each token. -/
def render (t : Composition) (write : Token → List Char) : String :=
  String.ofList (t.segments.flatMap (fun s => s.literal ++ write s.token) ++ t.tail)

/-- The template. -/
def source (t : Composition) : String :=
  t.render fun token => '{' :: '{' :: token.inner ++ ['}', '}']

/-- The keys of the tokens, in order. -/
def keys (t : Composition) : List String := t.segments.map fun s => s.token.key

/-- The characters of the literals and the tokens, in order. -/
def pieces (t : Composition) : List Piece :=
  t.segments.flatMap (fun s => s.literal.map Piece.char ++ [.token s.token.inner]) ++
    t.tail.map Piece.char

/-- **A composition is scanned into its literals and tokens.** -/
theorem scan_source (t : Composition) : scan t.source.toList = t.pieces := by
  obtain ⟨segments, tail, single⟩ := t
  simp only [source, render, pieces, String.toList_ofList]
  induction segments with
  | nil =>
    have htail : scan (tail ++ []) = tail.map Piece.char ++ scan [] := scan_literal single (.inr (by simp))
    simpa [scan] using htail
  | cons s segments ih =>
    simp only [List.flatMap_cons, List.append_assoc] at ih ⊢
    rw [scan_literal s.single (.inl s.apart)]
    have htoken := s.token.scan_append
      (segments.flatMap (fun s => s.literal ++ ('{' :: '{' :: s.token.inner ++ ['}', '}'])) ++ tail)
    simp only [List.cons_append, List.nil_append] at htoken ih ⊢
    rw [htoken, ih]

/-- What writes characters as they are keeps the literals. -/
theorem flatMap_pieces (t : Composition) {write : Piece → List Char} (hchar : ∀ c, write (.char c) = [c]) :
    String.ofList (t.pieces.flatMap write) = t.render fun token => write (.token token.inner) := by
  have hliteral : ∀ cs : List Char, (cs.map Piece.char).flatMap write = cs := by
    intro cs
    simp [List.flatMap_map, hchar]
  simp only [render, pieces, List.flatMap_append, hliteral, List.flatMap_assoc, List.flatMap_cons,
    List.flatMap_nil, List.append_nil]

theorem filterMap_key?_pieces (t : Composition) : t.pieces.filterMap Piece.key? = t.keys := by
  have hliteral : ∀ cs : List Char, (cs.map Piece.char).filterMap Piece.key? = [] := by
    intro cs
    simp [List.filterMap_map, Function.comp_def, Piece.key?]
  simp only [pieces, keys, List.filterMap_append, hliteral, List.append_nil, List.filterMap_flatMap]
  induction t.segments with
  | nil => rfl
  | cons s segments ih =>
    rw [List.flatMap_cons, ih, List.map_cons, filterMap_key?_token, s.token.keyOf_inner]
    rfl

theorem lookups_source (t : Composition) : lookups t.source = t.keys := by
  rw [lookups, t.scan_source, t.filterMap_key?_pieces]

theorem keys_source (t : Composition) : Template.keys t.source = t.keys := by
  rw [keys_eq_lookups, t.lookups_source, List.filter_eq_self]
  intro key hkey
  obtain ⟨s, _, rfl⟩ := List.mem_map.1 hkey
  simpa using s.token.plain.nonempty

theorem rekey_source (t : Composition) (resolve : String → String) :
    rekey resolve t.source = t.render fun token => (braced (resolve token.key)).toList := by
  rw [rekey, t.scan_source, t.flatMap_pieces fun _ => rfl]
  simp only [Piece.rekey, Token.keyOf_inner, braced, String.toList_ofList]

end Composition

/-! ## Filling in -/

/-- What filling in writes for a piece whose key has a value. -/
def Piece.shown (values : Table Json) : Piece → List Char
  | char c => [c]
  | token inner => ((values.get? (keyOf inner)).map fun v => (promptText v).toList).getD []

theorem textOf_ok_iff {values : Table Json} {key text : String} :
    textOf values key = .ok text ↔ ∃ v, values.get? key = some v ∧ v.Writable ∧ text = promptText v := by
  cases hv : values.get? key with
  | none => simp [textOf, hv]
  | some v =>
    rw [textOf_of_some hv]
    by_cases hwritable : v.Writable <;> simp [hwritable, eq_comm]

/-- **Filling in succeeds when all keys have values with a text, and writes each where its token stood.** -/
theorem fillPieces_ok_iff {values : Table Json} {ps : List Piece} {text : List Char} :
    fillPieces values ps = .ok text ↔
      (∀ key ∈ ps.filterMap Piece.key?, ∃ v, values.get? key = some v ∧ v.Writable) ∧
        text = ps.flatMap (Piece.shown values) := by
  induction ps generalizing text with
  | nil =>
    rw [fillPieces, Except.ok.injEq]
    exact ⟨fun h => ⟨by simp, h.symm⟩, fun h => h.2.symm⟩
  | cons p ps ih =>
    have hrest : ∀ front : List Char,
        (do let back ← fillPieces values ps; return front ++ back) = Except.ok (ε := Fault) text ↔
          (∀ key ∈ ps.filterMap Piece.key?, ∃ v, values.get? key = some v ∧ v.Writable) ∧
            text = front ++ ps.flatMap (Piece.shown values) := by
      intro front
      cases hback : fillPieces values ps with
      | error e =>
        refine iff_of_false (fun h => by cases h) ?_
        rintro ⟨hall, _⟩
        rw [ih.2 ⟨hall, rfl⟩] at hback
        cases hback
      | ok back =>
        obtain ⟨hall, rfl⟩ := ih.1 hback
        rw [and_iff_right hall]
        simp [bind, Except.bind, pure, Except.pure, eq_comm]
    cases p with
    | char c => exact hrest [c]
    | token inner =>
      rw [fillPieces, Piece.fill, filterMap_key?_token, List.forall_mem_cons, List.flatMap_cons, Piece.shown]
      cases htext : textOf values (keyOf inner) with
      | error e =>
        refine iff_of_false (fun h => by cases h) ?_
        rintro ⟨⟨⟨v, hv, hwritable⟩, _⟩, _⟩
        rw [textOf_ok_iff.2 ⟨v, hv, hwritable, rfl⟩] at htext
        cases htext
      | ok shown =>
        obtain ⟨v, hv, hwritable, rfl⟩ := textOf_ok_iff.1 htext
        refine (hrest (promptText v).toList).trans ?_
        simp [hv, hwritable]

theorem interpolate_ok_iff {values : Table Json} {template text : String} :
    interpolate values template = .ok text ↔
      (∀ key ∈ lookups template, ∃ v, values.get? key = some v ∧ v.Writable) ∧
        text = String.ofList ((scan template.toList).flatMap (Piece.shown values)) := by
  rw [lookups, interpolate]
  constructor
  · intro h
    cases hfill : fillPieces values (scan template.toList) with
    | error e =>
      rw [hfill] at h
      cases h
    | ok filled =>
      rw [hfill] at h
      cases h
      obtain ⟨hall, rfl⟩ := fillPieces_ok_iff.1 hfill
      exact ⟨hall, rfl⟩
  · rintro ⟨hall, rfl⟩
    rw [fillPieces_ok_iff.2 ⟨hall, rfl⟩]
    rfl

/-- **All who read a composed template agree on it**, whatever its literals, keys and blanks are.  Its keys
are those written, in order.  Replacing keys keeps the literals, replaces each key and drops the blanks around
it.  Filling in fails with the first fault of a key, which is a key without a value if all values have a text, and
succeeds when all keys have such a value: then the literals stand as they were, with the value of its key in the place
of each token, a string verbatim and anything else as JSON, whatever braces it holds. -/
theorem composition_readings (t : Composition) :
    keys t.source = t.keys ∧
      (∀ aliases, rekey (resolve aliases) t.source =
        t.render fun token => (braced (resolve aliases token.key)).toList) ∧
      ∀ values,
        (∀ e, interpolate values t.source = .error e ↔ t.keys.findSome? (fault? values) = some e) ∧
        ((∀ key ∈ t.keys, ∀ v, values.get? key = some v → v.Writable) →
          ∀ e, interpolate values t.source = .error e ↔ ∃ name, e = .missing name ∧
            t.keys.find? (fun key => !values.has key) = some name) ∧
        ∀ text, interpolate values t.source = .ok text ↔
          (∀ key ∈ t.keys, ∃ v, values.get? key = some v ∧ v.Writable) ∧
            text = t.render fun token =>
              ((values.get? token.key).map fun v => (promptText v).toList).getD [] := by
  refine ⟨t.keys_source, fun aliases => t.rekey_source _, fun values => ?_⟩
  have herror : ∀ e, interpolate values t.source = .error e ↔ t.keys.findSome? (fault? values) = some e := by
    intro e
    rw [interpolate_error_iff, t.lookups_source]
  refine ⟨herror, fun hwritable e => (herror e).trans (findSome?_fault?_eq_some_iff hwritable), fun text => ?_⟩
  rw [interpolate_ok_iff, t.lookups_source, t.scan_source, t.flatMap_pieces fun _ => rfl]
  simp only [Piece.shown, Token.keyOf_inner]

/-- Two tokens in a row, one with a brace in its key, between literals with single braces. -/
def letter : Composition where
  segments :=
    [{ literal := "Dear {a} ".toList
       token := ⟨[' '], "customer", ['\n'], List.forall_mem_singleton.2 rfl, List.forall_mem_singleton.2 rfl,
         by decide⟩
       single := by decide +kernel
       apart := by decide },
     { literal := []
       token := ⟨[], "\x7bx", [], List.forall_mem_nil _, List.forall_mem_nil _, by decide⟩
       single := by decide
       apart := by decide }]
  tail := "\x7d, bye \x7b".toList
  single := by decide +kernel

/-- A value that looks like a token is not scanned. -/
theorem composition_readings_letter :
    keys letter.source = ["customer", "\x7bx"] ∧
      interpolate [("customer", .str "{{Ann}}"), ("\x7bx", .null)] letter.source =
        .ok ("Dear {a} {{Ann}}null" ++ "\x7d, bye \x7b") ∧
      interpolate [("\x7bx", .null)] letter.source = .error (.missing "customer") := by
  obtain ⟨hkeys, _, hfill⟩ := composition_readings letter
  refine ⟨hkeys, ?_, ?_⟩
  · refine ((hfill _).2.2 _).2 ⟨fun key hkey => ?_, by decide +kernel⟩
    rcases List.mem_pair.1 hkey with rfl | rfl
    · exact ⟨_, rfl, Json.writable_str _⟩
    · exact ⟨_, rfl, by decide⟩
  · exact ((hfill _).1 _).2 (by decide +kernel)

end Template

end FormFlow
