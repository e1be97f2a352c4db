import FormFlow.Alias
import Mathlib.Data.List.Forall2

/-!
# Scanning a template whose keys were replaced

Replacing the key of a token writes a new text between braces, and the result is scanned afresh.  The
boundaries stay where they were: a character outside tokens never becomes the start of a token, and a
token that starts between the braces of an old one ends there too.  So each piece can be scanned apart,
whatever the new keys are.

A text is `Shut` when everything that opens in it also ends in it; `scan_append` splits a scan behind
such a text.

## Principal results

* `scan_append` — a shut text and what follows it are scanned apart;
* `scan_replaced` — texts that take the places of the pieces of a template are scanned apart;
* `scan_rekey` — the same for a template with replaced keys;
* `lookups_rekey` — the keys that filling in looks up, token by token of the first template;
* `interpolate_error_iff` — filling in fails with the first fault of a key;
* `exists_interpolate_iff` — when a template can be filled in;
* `interpolate_rekey` — filling in after replacing is one pass over the first template.
-/

namespace FormFlow.Template

/-! ## Tokens at the front -/

theorem takeWhile_append_brace {cs : List Char} (h : '}' ∉ cs) (rest : List Char) :
    (cs ++ '}' :: rest).takeWhile (· ≠ '}') = cs ∧
      (cs ++ '}' :: rest).dropWhile (· ≠ '}') = '}' :: rest := by
  induction cs with
  | nil => simp
  | cons c cs ih =>
    rw [List.mem_cons, not_or] at h
    have hc : c ≠ '}' := Ne.symm h.1
    simpa [hc] using ih h.2

/-- The converse of `tokenAt?_spec`. -/
theorem tokenAt?_braces {inner : List Char} (hne : inner ≠ []) (hinner : '}' ∉ inner)
    (rest : List Char) :
    tokenAt? ('{' :: '{' :: inner ++ '}' :: '}' :: rest) = some (inner, rest) := by
  obtain ⟨htake, hdrop⟩ := takeWhile_append_brace hinner ('}' :: rest)
  simp only [List.cons_append, tokenAt?, htake, hdrop]

theorem scan_of_token {c : Char} {cs inner rest : List Char}
    (h : tokenAt? (c :: cs) = some (inner, rest)) : scan (c :: cs) = .token inner :: scan rest := by
  rw [scan]
  split
  · rename_i h'
    rw [h] at h'
    cases h'
    rfl
  · rename_i h'
    rw [h] at h'
    cases h'

theorem scan_of_none {c : Char} {cs : List Char} (h : tokenAt? (c :: cs) = none) :
    scan (c :: cs) = .char c :: scan cs := by
  rw [scan]
  split
  · rename_i h'
    rw [h] at h'
    cases h'
  · rfl

theorem tokenAt?_none_of_ne {c : Char} (h : c ≠ '{') (cs : List Char) :
    tokenAt? (c :: cs) = none := by
  rw [Option.eq_none_iff_forall_ne_some]
  rintro ⟨inner, rest⟩ htoken
  obtain ⟨heq, _⟩ := tokenAt?_spec htoken
  rw [List.cons_append, List.cons.injEq] at heq
  exact h heq.1

/-! ## Shut texts -/

/-- Everything that opens in a text ends in it: behind an opening brace there are a closing brace and
one more character. -/
def Shut (cs : List Char) : Prop :=
  ∀ front back, cs = front ++ '{' :: back → 2 ≤ (back.dropWhile (· ≠ '}')).length

theorem Shut.of_append {front back : List Char} (h : Shut (front ++ back)) : Shut back := by
  rintro left right rfl
  exact h (front ++ left) right (by simp)

theorem two_le_dropWhile_braces (cs : List Char) :
    2 ≤ ((cs ++ ['}', '}']).dropWhile (· ≠ '}')).length := by
  induction cs with
  | nil => simp
  | cons c cs ih =>
    by_cases hc : c = '}'
    · simp [hc]
    · simpa [hc] using ih

/-- A text with two closing braces at its end is shut. -/
theorem shut_braces (cs : List Char) : Shut (cs ++ ['}', '}']) := by
  intro front back heq
  rcases List.append_eq_append_iff.1 heq with ⟨left, _, hright⟩ | ⟨left, _, hright⟩
  · have hmem : '{' ∈ ['}', '}'] := by
      rw [hright]
      simp
    simp at hmem
  · cases left with
    | nil => simp at hright
    | cons c left =>
      rw [List.cons_append, List.cons.injEq] at hright
      rw [hright.2]
      exact two_le_dropWhile_braces left

theorem span_append {cs : List Char} (h : (cs.dropWhile (· ≠ '}')) ≠ []) (rest : List Char) :
    (cs ++ rest).takeWhile (· ≠ '}') = cs.takeWhile (· ≠ '}') ∧
      (cs ++ rest).dropWhile (· ≠ '}') = cs.dropWhile (· ≠ '}') ++ rest := by
  induction cs with
  | nil => simp at h
  | cons c cs ih =>
    by_cases hc : c = '}'
    · simp [hc]
    · simp only [List.cons_append, ne_eq, hc, not_false_eq_true, decide_true, List.takeWhile_cons_of_pos,
        List.dropWhile_cons_of_pos] at h ⊢
      simpa using ih (by simpa using h)

/-- What follows a shut text does not change the token at its front. -/
theorem tokenAt?_append {c : Char} {cs : List Char} (h : Shut (c :: cs)) (rest : List Char) :
    tokenAt? (c :: (cs ++ rest)) =
      (tokenAt? (c :: cs)).map fun (inner, back) => (inner, back ++ rest) := by
  by_cases hc : c = '{'
  · subst hc
    match cs, h with
    | [], h => exact absurd (h [] [] rfl) (by simp)
    | d :: cs, h =>
      by_cases hd : d = '{'
      · subst hd
        have hlen := h ['{'] cs rfl
        have hne : cs.dropWhile (· ≠ '}') ≠ [] := List.length_pos_iff.1 (by omega)
        obtain ⟨htake, hdrop⟩ := span_append hne rest
        simp only [List.cons_append, tokenAt?, htake, hdrop]
        generalize cs.takeWhile (· ≠ '}') = inner
        generalize cs.dropWhile (· ≠ '}') = back at hlen
        match inner, back, hlen with
        | [], _, _ => rfl
        | a :: inner, x :: y :: back, _ =>
          by_cases hx : x = '}'
          · by_cases hy : y = '}'
            · subst hx hy
              rfl
            · simp [hx, hy]
          · simp [hx]
      · simp [tokenAt?, hd]
  · rw [tokenAt?_none_of_ne hc, tokenAt?_none_of_ne hc]
    rfl

/-- **A shut text and what follows it are scanned apart.** -/
theorem scan_append {cs : List Char} (h : Shut cs) (rest : List Char) :
    scan (cs ++ rest) = scan cs ++ scan rest := by
  fun_induction scan cs with
  | case1 => simp
  | case2 c cs inner back htoken ih =>
    have happend := tokenAt?_append h rest
    rw [htoken] at happend
    have hback : Shut back := by
      have heq := (tokenAt?_spec htoken).1
      have hsplit : c :: cs = ('{' :: '{' :: inner ++ ['}', '}']) ++ back := by simp [heq]
      rw [hsplit] at h
      exact h.of_append
    rw [List.cons_append, scan_of_token happend, ih hback, List.cons_append]
  | case3 c cs hnone ih =>
    have happend := tokenAt?_append h rest
    rw [hnone] at happend
    have hcs : Shut cs := Shut.of_append (show Shut ([c] ++ cs) from h)
    rw [List.cons_append, scan_of_none happend, ih hcs, List.cons_append]

/-! ## Replaced pieces -/

/-- The pieces that a scan can give: a token holds something, and no closing brace. -/
def Piece.Scanned : Piece → Prop
  | char _ => True
  | token inner => inner ≠ [] ∧ '}' ∉ inner

theorem scan_scanned (cs : List Char) : ∀ p ∈ scan cs, p.Scanned := by
  fun_induction scan cs with
  | case1 => simp
  | case2 c cs inner rest h ih =>
    intro p hp
    rcases List.mem_cons.1 hp with rfl | hp
    · exact (tokenAt?_spec h).2
    · exact ih p hp
  | case3 c cs h ih =>
    intro p hp
    rcases List.mem_cons.1 hp with rfl | hp
    · trivial
    · exact ih p hp

/-- Some characters, two closing braces, and no closing brace before them. -/
def Closes (cs : List Char) : Prop :=
  ∃ inner rest, '}' ∉ inner ∧ cs = inner ++ '}' :: '}' :: rest

theorem closes_cons {c : Char} {cs : List Char} :
    Closes (c :: cs) ↔ if c = '}' then cs.head? = some '}' else Closes cs := by
  constructor
  · rintro ⟨inner, rest, hinner, heq⟩
    cases inner with
    | nil =>
      rw [List.nil_append, List.cons.injEq] at heq
      rw [if_pos heq.1, heq.2]
      rfl
    | cons d inner =>
      rw [List.cons_append, List.cons.injEq] at heq
      rw [List.mem_cons, not_or] at hinner
      rw [if_neg (by rw [heq.1]; exact Ne.symm hinner.1)]
      exact ⟨inner, rest, hinner.2, heq.2⟩
  · intro h
    by_cases hc : c = '}'
    · rw [if_pos hc] at h
      obtain ⟨rest, rfl⟩ := List.head?_eq_some_iff.1 h
      exact ⟨[], rest, by simp, by simp [hc]⟩
    · rw [if_neg hc] at h
      obtain ⟨inner, rest, hinner, rfl⟩ := h
      exact ⟨c :: inner, rest, by simp [Ne.symm hc, hinner], rfl⟩

/-- A token starts at two opening braces exactly when they are closed, with something between. -/
theorem tokenAt?_isSome_iff {cs : List Char} :
    (tokenAt? ('{' :: '{' :: cs)).isSome = true ↔ Closes cs ∧ cs.head? ≠ some '}' := by
  rw [Option.isSome_iff_exists]
  constructor
  · rintro ⟨⟨inner, rest⟩, htoken⟩
    obtain ⟨heq, hne, hinner⟩ := tokenAt?_spec htoken
    simp only [List.cons_append, List.cons.injEq, true_and] at heq
    refine ⟨⟨inner, rest, hinner, heq⟩, ?_⟩
    obtain ⟨c, inner, rfl⟩ := List.exists_cons_of_ne_nil hne
    rw [heq]
    intro hhead
    simp only [List.cons_append, List.head?_cons, Option.some.injEq] at hhead
    exact hinner (by simp [hhead])
  · rintro ⟨⟨inner, rest, hinner, rfl⟩, hhead⟩
    refine ⟨(inner, rest), tokenAt?_braces ?_ hinner rest⟩
    rintro rfl
    simp at hhead

/-- A text that takes the place of a piece: a character stays, and a token stays a text between braces. -/
inductive Piece.Replaced : Piece → List Char → Prop where
  | char (c : Char) : Replaced (char c) [c]
  | token (inner body : List Char) : Replaced (token inner) ('{' :: '{' :: body ++ ['}', '}'])

section

variable {ps : List Piece} {texts : List (List Char)}

theorem head?_replaced (h : List.Forall₂ Piece.Replaced ps texts) :
    texts.flatten.head? = (ps.flatMap Piece.source).head? := by
  cases h with
  | nil => rfl
  | cons hp _ => cases hp <;> simp [Piece.source]

/-- Braces that are closed after a replacement were closed before it. -/
theorem closes_of_replaced (hps : ∀ p ∈ ps, p.Scanned) (h : List.Forall₂ Piece.Replaced ps texts)
    (hcloses : Closes texts.flatten) : Closes (ps.flatMap Piece.source) := by
  induction h with
  | nil => exact hcloses
  | @cons p text ps texts hp hrest ih =>
    have htail : ∀ q ∈ ps, q.Scanned := fun q hq => hps q (List.mem_cons_of_mem _ hq)
    cases hp with
    | char c =>
      simp only [List.flatMap_cons, List.flatten_cons, Piece.source, List.singleton_append] at hcloses ⊢
      rw [closes_cons] at hcloses ⊢
      split
      · rename_i hc
        rwa [if_pos hc, head?_replaced hrest] at hcloses
      · rename_i hc
        rw [if_neg hc] at hcloses
        exact ih htail hcloses
    | token inner body =>
      -- The braces of the old token close whatever stands open before it.
      obtain ⟨_, hinner⟩ := hps _ (List.mem_cons_self ..)
      refine ⟨'{' :: '{' :: inner, ps.flatMap Piece.source, by simp [hinner], ?_⟩
      simp [Piece.source]

/-- A character outside tokens does not become the start of one. -/
theorem tokenAt?_replaced {c : Char} (hps : ∀ p ∈ ps, p.Scanned)
    (h : List.Forall₂ Piece.Replaced ps texts) (hnone : tokenAt? (c :: ps.flatMap Piece.source) = none) :
    tokenAt? (c :: texts.flatten) = none := by
  by_cases hc : c = '{'
  · subst hc
    cases h with
    | nil => exact hnone
    | @cons p text ps texts hp hrest =>
      cases hp with
      | char d =>
        simp only [List.flatMap_cons, List.flatten_cons, Piece.source, List.singleton_append] at hnone ⊢
        by_cases hd : d = '{'
        · subst hd
          have htail : ∀ q ∈ ps, q.Scanned := fun q hq => hps q (List.mem_cons_of_mem _ hq)
          rw [← Option.not_isSome_iff_eq_none, tokenAt?_isSome_iff] at hnone ⊢
          rintro ⟨hcloses, hhead⟩
          rw [head?_replaced hrest] at hhead
          exact hnone ⟨closes_of_replaced htail hrest hcloses, hhead⟩
        · simp [tokenAt?, hd]
      | token inner body =>
        -- With one brace more in front, the old token would have started earlier.
        obtain ⟨_, hinner⟩ := hps _ (List.mem_cons_self ..)
        have hopen : '}' ∉ '{' :: inner := by simp [hinner]
        have hearlier := tokenAt?_braces (List.cons_ne_nil _ _) hopen (ps.flatMap Piece.source)
        simp only [List.flatMap_cons, Piece.source, List.cons_append, List.append_assoc,
          List.nil_append] at hnone hearlier
        rw [hearlier] at hnone
        cases hnone
  · exact tokenAt?_none_of_ne hc _

end

theorem scan_char (c : Char) : scan [c] = [.char c] := by
  have hnone : tokenAt? [c] = none := by
    rw [Option.eq_none_iff_forall_ne_some]
    rintro ⟨inner, rest⟩ h
    have := congrArg List.length (tokenAt?_spec h).1
    simp at this
  rw [scan_of_none hnone]
  simp [scan]

/-- **Texts in the places of pieces are scanned apart**, whatever they hold between their braces. -/
theorem scan_replaced {cs : List Char} {texts : List (List Char)}
    (h : List.Forall₂ Piece.Replaced (scan cs) texts) : scan texts.flatten = texts.flatMap scan := by
  fun_induction scan cs generalizing texts with
  | case1 =>
    cases h
    simp [scan]
  | case2 c cs inner rest htoken ih =>
    cases h with
    | cons hp hrest =>
      cases hp with
      | token inner body =>
        have hshut : Shut ('{' :: '{' :: body ++ ['}', '}']) := shut_braces ('{' :: '{' :: body)
        rw [List.flatten_cons, List.flatMap_cons, scan_append hshut, ih hrest]
  | case3 c cs hnone ih =>
    cases h with
    | cons hp hrest =>
      cases hp with
      | char c =>
        rw [← scan_source cs] at hnone
        have hstays := tokenAt?_replaced (scan_scanned cs) hrest hnone
        rw [List.flatten_cons, List.flatMap_cons, List.singleton_append, scan_of_none hstays, scan_char,
          ih hrest, List.singleton_append]

theorem Piece.replaced_rekey (resolve : String → String) (p : Piece) :
    p.Replaced (p.rekey resolve) := by
  cases p with
  | char c => exact .char c
  | token inner => exact .token inner _

/-- **Replaced keys are scanned apart**, whatever the new keys are. -/
theorem scan_rekey (resolve : String → String) (cs : List Char) :
    scan ((scan cs).flatMap (Piece.rekey resolve)) =
      (scan cs).flatMap fun p => scan (p.rekey resolve) := by
  have hreplaced : List.Forall₂ Piece.Replaced (scan cs) ((scan cs).map (Piece.rekey resolve)) :=
    List.forall₂_map_right_iff.2 (List.forall₂_same.2 fun p _ => p.replaced_rekey resolve)
  rw [List.flatMap_def, scan_replaced hreplaced, List.flatMap_map]

/-! ## Filling in -/

/-- The key that filling in looks up for a piece; a token that holds only blanks looks up the empty
key. -/
def Piece.key? : Piece → Option String
  | char _ => none
  | token inner => some (keyOf inner)

@[simp] theorem filterMap_key?_char (c : Char) (ps : List Piece) :
    (Piece.char c :: ps).filterMap Piece.key? = ps.filterMap Piece.key? := rfl

@[simp] theorem filterMap_key?_token (inner : List Char) (ps : List Piece) :
    (Piece.token inner :: ps).filterMap Piece.key? = keyOf inner :: ps.filterMap Piece.key? := rfl

/-- The keys that filling in looks up, in order. -/
def lookups (template : String) : List String := (scan template.toList).filterMap Piece.key?

/-- A key between braces. -/
def braced (key : String) : String := String.ofList ('{' :: '{' :: key.toList ++ ['}', '}'])

theorem keys_eq_lookups (template : String) :
    keys template = (lookups template).filter (· ≠ "") := by
  unfold keys lookups
  induction scan template.toList with
  | nil => rfl
  | cons p ps ih =>
    cases p with
    | char c => simpa using ih
    | token inner => by_cases h : keyOf inner = "" <;> simpa [h] using ih

/-- The keys looked up after replacing are those of each new key between its braces. -/
theorem lookups_rekey (resolve : String → String) (template : String) :
    lookups (rekey resolve template) =
      (lookups template).flatMap fun key => lookups (braced (resolve key)) := by
  unfold lookups rekey
  rw [String.toList_ofList, scan_rekey]
  induction scan template.toList with
  | nil => rfl
  | cons p ps ih =>
    rw [List.flatMap_cons, List.filterMap_append, ih]
    cases p with
    | char c => simp [Piece.rekey, scan_char]
    | token inner => simp [Piece.rekey, braced]

theorem fillPieces_append (values : Table Json) (ps qs : List Piece) :
    fillPieces values (ps ++ qs) = do
      let front ← fillPieces values ps
      let back ← fillPieces values qs
      return front ++ back := by
  induction ps with
  | nil => cases h : fillPieces values qs <;> simp [fillPieces, h, bind, Except.bind, pure, Except.pure]
  | cons p ps ih =>
    rw [List.cons_append, fillPieces, ih, fillPieces]
    cases p.fill values with
    | error name => rfl
    | ok front =>
      cases fillPieces values ps with
      | error name => rfl
      | ok middle =>
        cases fillPieces values qs <;> simp [bind, Except.bind, pure, Except.pure]

theorem textOf_of_some {values : Table Json} {key : String} {v : Json} (h : values.get? key = some v) :
    textOf values key = if v.Writable then .ok (promptText v) else .error (.value .longInteger) := by
  rw [textOf, h]
  dsimp only
  rw [valueText_eq]
  split <;> rfl

/-- Why the value of a key cannot be filled in. -/
def fault? (values : Table Json) (key : String) : Option Fault :=
  match textOf values key with
  | .ok _ => none
  | .error e => some e

theorem fault?_of_none {values : Table Json} {key : String} (h : values.get? key = none) :
    fault? values key = some (.missing key) := by
  rw [fault?, textOf, h]

theorem fault?_of_some {values : Table Json} {key : String} {v : Json} (h : values.get? key = some v) :
    fault? values key = if v.Writable then none else some (.value .longInteger) := by
  rw [fault?, textOf_of_some h]
  by_cases hv : v.Writable
  · rw [if_pos hv, if_pos hv]
  · rw [if_neg hv, if_neg hv]

theorem fault?_eq_none_iff {values : Table Json} {key : String} :
    fault? values key = none ↔ ∃ v, values.get? key = some v ∧ v.Writable := by
  cases hv : values.get? key with
  | none => simp [fault?_of_none hv]
  | some v => simp [fault?_of_some hv]

theorem fault?_eq_missing_iff {values : Table Json} {key name : String} :
    fault? values key = some (.missing name) ↔ key = name ∧ values.has key = false := by
  unfold Table.has
  cases hv : values.get? key with
  | none => simp [fault?_of_none hv]
  | some v => simp [fault?_of_some hv]

/-- Where all values have a text, the first fault is the first key without a value. -/
theorem findSome?_fault? {values : Table Json} {keys : List String}
    (h : ∀ key ∈ keys, ∀ v, values.get? key = some v → v.Writable) :
    keys.findSome? (fault? values) = (keys.find? fun key => !values.has key).map .missing := by
  induction keys with
  | nil => rfl
  | cons key keys ih =>
    obtain ⟨hkey, hkeys⟩ := List.forall_mem_cons.1 h
    rw [List.findSome?_cons, List.find?_cons, ih hkeys]
    cases hv : values.get? key with
    | none =>
      have hhas : values.has key = false := by simp [Table.has, hv]
      rw [fault?_eq_missing_iff.2 ⟨rfl, hhas⟩, hhas]
      rfl
    | some v =>
      have hhas : values.has key = true := by simp [Table.has, hv]
      rw [fault?_eq_none_iff.2 ⟨v, hv, hkey v hv⟩, hhas]
      rfl

theorem findSome?_fault?_eq_some_iff {values : Table Json} {keys : List String}
    (h : ∀ key ∈ keys, ∀ v, values.get? key = some v → v.Writable) {e : Fault} :
    keys.findSome? (fault? values) = some e ↔
      ∃ name, e = .missing name ∧ keys.find? (fun key => !values.has key) = some name := by
  rw [findSome?_fault? h, Option.map_eq_some_iff]
  simp only [and_comm, eq_comm]

theorem fillPieces_error_iff {values : Table Json} {ps : List Piece} {e : Fault} :
    fillPieces values ps = .error e ↔ (ps.filterMap Piece.key?).findSome? (fault? values) = some e := by
  induction ps with
  | nil => simp [fillPieces]
  | cons p ps ih =>
    have hback : ∀ front : List Char,
        (do let back ← fillPieces values ps; return front ++ back) = Except.error e ↔
          fillPieces values ps = .error e := by
      intro front
      cases fillPieces values ps <;> simp [bind, Except.bind, pure, Except.pure]
    cases p with
    | char c => exact (hback [c]).trans ih
    | token inner =>
      rw [filterMap_key?_token, List.findSome?_cons, fillPieces, Piece.fill, fault?]
      cases textOf values (keyOf inner) with
      | error first => simp [Except.map, bind, Except.bind]
      | ok text => exact (hback text.toList).trans ih

/-- Filling in fails with the first fault of a key. -/
theorem interpolate_error_iff {values : Table Json} {template : String} {e : Fault} :
    interpolate values template = .error e ↔ (lookups template).findSome? (fault? values) = some e := by
  unfold interpolate lookups
  rw [← fillPieces_error_iff]
  cases fillPieces values (scan template.toList) <;> simp [Except.map]

/-- Filling in succeeds exactly if every key has a value with a text. -/
theorem exists_interpolate_iff {values : Table Json} {template : String} :
    (∃ text, interpolate values template = .ok text) ↔
      ∀ key ∈ lookups template, ∃ v, values.get? key = some v ∧ v.Writable := by
  simp only [← fault?_eq_none_iff, ← List.findSome?_eq_none_iff]
  cases hfill : interpolate values template with
  | ok text =>
    refine iff_of_true ⟨text, rfl⟩ (Option.eq_none_iff_forall_ne_some.2 fun e he => ?_)
    rw [interpolate_error_iff.2 he] at hfill
    cases hfill
  | error e => simp [interpolate_error_iff.1 hfill]

/-! ## One pass -/

/-- What a piece of a template stands for when the key of a token is resolved and its value filled in
at once; a key that resolves to nothing leaves a pair of empty braces. -/
def Piece.substitute (resolve : String → String) (values : Table Json) :
    Piece → Except Fault (List Char)
  | char c => .ok [c]
  | token inner =>
    if resolve (keyOf inner) = "" then .ok ['{', '{', '}', '}']
    else (textOf values (resolve (keyOf inner))).map String.toList

/-- The pieces of a template resolved and filled in, or the first fault. -/
def substitutePieces (resolve : String → String) (values : Table Json) :
    List Piece → Except Fault (List Char)
  | [] => .ok []
  | p :: ps => do
    let front ← p.substitute resolve values
    let back ← substitutePieces resolve values ps
    return front ++ back

/-- The template resolved and filled in in one pass, or the first fault. -/
def substitute (resolve : String → String) (values : Table Json) (template : String) :
    Except Fault String :=
  (substitutePieces resolve values (scan template.toList)).map String.ofList

/-- The keys that the tokens of a template stand for, in order, without the empty one. -/
def resolvedKeys (resolve : String → String) (template : String) : List String :=
  ((lookups template).map resolve).filter (· ≠ "")

/-- A key that can stand between braces as it is: it is not empty, holds no closing brace, and neither
starts nor ends with a blank. -/
structure Plain (key : String) : Prop where
  nonempty : key ≠ ""
  noBrace : '}' ∉ key.toList
  head : ∀ c ∈ key.toList.head?, Text.isBlank c = false
  last : ∀ c ∈ key.toList.getLast?, Text.isBlank c = false

instance (key : String) : Decidable (Plain key) :=
  decidable_of_iff
    (key ≠ "" ∧ '}' ∉ key.toList ∧ (key.toList.head?.all fun c => !Text.isBlank c) = true ∧
      (key.toList.getLast?.all fun c => !Text.isBlank c) = true) <| by
    simp only [Option.all_eq_true, Bool.not_eq_true']
    constructor
    · rintro ⟨hnonempty, hbrace, hhead, hlast⟩
      exact ⟨hnonempty, hbrace, hhead, hlast⟩
    · rintro ⟨hnonempty, hbrace, hhead, hlast⟩
      exact ⟨hnonempty, hbrace, hhead, hlast⟩

/-- A token whose key is not empty has a plain key. -/
theorem plain_keyOf {inner : List Char} (hinner : '}' ∉ inner) (hne : keyOf inner ≠ "") :
    Plain (keyOf inner) := by
  constructor
  · exact hne
  · rw [keyOf, String.toList_ofList]
    exact fun h => hinner (Text.trim_subset inner h)
  · intro c hc
    rw [keyOf, String.toList_ofList] at hc
    obtain ⟨rest, hrest⟩ := List.head?_eq_some_iff.1 hc
    exact Text.trimWhere_head hrest
  · intro c hc
    rw [keyOf, String.toList_ofList] at hc
    obtain ⟨front, hfront⟩ := List.getLast?_eq_some_iff.1 hc
    exact Text.trimWhere_getLast hfront

theorem plain_of_mem_keys {template key : String} (h : key ∈ keys template) : Plain key := by
  rw [keys_eq_lookups, List.mem_filter, lookups, List.mem_filterMap] at h
  obtain ⟨⟨p, hp, hkey⟩, hne⟩ := h
  cases p with
  | char c => cases hkey
  | token inner =>
    cases hkey
    exact plain_keyOf (scan_scanned _ _ hp).2 (by simpa using hne)

theorem keyOf_plain {key : String} (h : Plain key) : keyOf key.toList = key := by
  rw [keyOf, Text.trim_eq_self h.head h.last, String.ofList_toList]

/-- What holds something and no closing brace is one token between braces. -/
theorem scan_braces {inner : List Char} (hne : inner ≠ []) (hinner : '}' ∉ inner) :
    scan ('{' :: '{' :: inner ++ ['}', '}']) = [.token inner] := by
  have htoken := scan_of_token (tokenAt?_braces hne hinner [])
  simpa [scan] using htoken

/-- A plain key between braces is scanned as one token. -/
theorem scan_braced {key : String} (h : Plain key) :
    scan ('{' :: '{' :: key.toList ++ ['}', '}']) = [.token key.toList] :=
  scan_braces (by simpa using h.nonempty) h.noBrace

/-- Braces with nothing between them are text. -/
theorem scan_braced_empty :
    scan ['{', '{', '}', '}'] = [.char '{', .char '{', .char '}', .char '}'] := by
  rw [scan_of_none rfl, scan_of_none rfl, scan_of_none rfl, scan_char]

theorem lookups_braced {key : String} (h : Plain key) : lookups (braced key) = [key] := by
  rw [lookups, braced, String.toList_ofList, scan_braced h]
  simp [keyOf_plain h]

theorem lookups_braced_empty : lookups (braced "") = [] := by
  rw [lookups, braced, String.toList_ofList]
  show (scan ['{', '{', '}', '}']).filterMap Piece.key? = []
  rw [scan_braced_empty]
  rfl

/-- What a name stands for is an entry of the table or the name itself. -/
theorem resolve_cases (aliases : Table String) (name : String) :
    (∃ other, aliases.get? other = some (resolve aliases name)) ∨ resolve aliases name = name := by
  unfold resolve
  split
  · rename_i key h
    exact .inl ⟨name, h⟩
  · cases h : aliases.get? (normalizeKey name) with
    | none => exact .inr rfl
    | some key => exact .inl ⟨normalizeKey name, h⟩

section

variable {aliases : Table String}

/-- Under a table of plain keys the key of a token stands for a plain key or for nothing. -/
theorem resolve_plain (hplain : ∀ name key, aliases.get? name = some key → Plain key)
    {inner : List Char} (hinner : '}' ∉ inner) :
    resolve aliases (keyOf inner) = "" ∨ Plain (resolve aliases (keyOf inner)) := by
  rcases resolve_cases aliases (keyOf inner) with ⟨other, h⟩ | h
  · exact .inr (hplain other _ h)
  · by_cases hne : keyOf inner = ""
    · exact .inl (h.trans hne)
    · rw [h]
      exact .inr (plain_keyOf hinner hne)

/-- A replaced piece is filled in as the piece is resolved and filled in. -/
theorem fillPieces_rekey (hplain : ∀ name key, aliases.get? name = some key → Plain key)
    (values : Table Json) {p : Piece} (hp : p.Scanned) :
    fillPieces values (scan (p.rekey (resolve aliases))) =
      p.substitute (resolve aliases) values := by
  cases p with
  | char c => simp [Piece.rekey, Piece.substitute, scan_char, fillPieces, Piece.fill, bind, Except.bind,
      pure, Except.pure]
  | token inner =>
    simp only [Piece.rekey, Piece.substitute]
    rcases resolve_plain hplain hp.2 with hempty | hkey
    · rw [hempty, if_pos rfl]
      show fillPieces values (scan ['{', '{', '}', '}']) = _
      rw [scan_braced_empty]
      rfl
    · rw [if_neg hkey.nonempty, scan_braced hkey]
      simp only [fillPieces, Piece.fill, keyOf_plain hkey]
      cases textOf values (resolve aliases (keyOf inner)) <;>
        simp [Except.map, bind, Except.bind, pure, Except.pure]

/-- The keys looked up after replacing are the resolved keys. -/
theorem lookups_rekey_plain (hplain : ∀ name key, aliases.get? name = some key → Plain key)
    (template : String) :
    lookups (rekey (resolve aliases) template) = resolvedKeys (resolve aliases) template := by
  rw [lookups_rekey, resolvedKeys, lookups]
  have hscanned := scan_scanned template.toList
  generalize scan template.toList = ps at hscanned
  induction ps with
  | nil => rfl
  | cons p ps ih =>
    have ih := ih fun q hq => hscanned q (List.mem_cons_of_mem _ hq)
    cases p with
    | char c => exact ih
    | token inner =>
      rw [filterMap_key?_token, List.flatMap_cons, ih, List.map_cons, List.filter_cons]
      rcases resolve_plain hplain (hscanned _ (List.mem_cons_self ..)).2 with hempty | hkey
      · simp [hempty, lookups_braced_empty]
      · simp [lookups_braced hkey, hkey.nonempty]

/-- **Replacing keys keeps the meaning of a template**, for every template and every table of aliases
whose keys are plain.  Filling in the values afterwards is one pass over the first template that
resolves each token and fills in its value; it fails with the first fault of a resolved key, which is a key without
a value if all values have a text; and the keys of the new template are the resolved keys, in order. -/
theorem interpolate_rekey (hplain : ∀ name key, aliases.get? name = some key → Plain key)
    (values : Table Json) (template : String) :
    interpolate values (rekey (resolve aliases) template) =
        substitute (resolve aliases) values template ∧
      (∀ e, substitute (resolve aliases) values template = .error e ↔
        (resolvedKeys (resolve aliases) template).findSome? (fault? values) = some e) ∧
      ((∀ key ∈ resolvedKeys (resolve aliases) template, ∀ v, values.get? key = some v → v.Writable) →
        ∀ e, substitute (resolve aliases) values template = .error e ↔ ∃ name, e = .missing name ∧
          (resolvedKeys (resolve aliases) template).find? (fun key => !values.has key) = some name) ∧
      keys (rekey (resolve aliases) template) = resolvedKeys (resolve aliases) template := by
  have hlookups := lookups_rekey_plain hplain template
  have hsame : interpolate values (rekey (resolve aliases) template) =
      substitute (resolve aliases) values template := by
    unfold interpolate substitute rekey
    rw [String.toList_ofList, scan_rekey]
    congr 1
    have hscanned := scan_scanned template.toList
    generalize scan template.toList = ps at hscanned
    induction ps with
    | nil => rfl
    | cons p ps ih =>
      rw [List.flatMap_cons, fillPieces_append, substitutePieces,
        ih fun q hq => hscanned q (List.mem_cons_of_mem _ hq),
        fillPieces_rekey hplain values (hscanned p (List.mem_cons_self ..))]
  have herror : ∀ e, substitute (resolve aliases) values template = .error e ↔
      (resolvedKeys (resolve aliases) template).findSome? (fault? values) = some e := by
    intro e
    rw [← hsame, interpolate_error_iff, hlookups]
  refine ⟨hsame, herror, fun hwritable e => ?_, ?_⟩
  · exact (herror e).trans (findSome?_fault?_eq_some_iff hwritable)
  · rw [keys_eq_lookups, hlookups, resolvedKeys, List.filter_filter]
    simp

end

/-- A label, and an alias of a key that starts with a brace. -/
def braceAliases : Table String := [("Customer", "customer"), ("nested", "\x7bx")]

theorem braceAliases_plain {name key : String} (h : braceAliases.get? name = some key) :
    Plain key := by
  simp only [braceAliases, Table.get?] at h
  split at h
  · cases h
    decide
  · split at h
    · cases h
      decide
    · cases h

/-- Stray braces, a blank token, and a value that looks like a token. -/
theorem interpolate_rekey_braces :
    (∀ name key, braceAliases.get? name = some key → Plain key) ∧
      interpolate [("customer", .str "{{Ann}}"), ("\x7bx", .null)]
          (rekey (resolve braceAliases) "{{{x}}}{{ Customer }}{{ }} {{a} } {{nested}}") =
        .ok ("null\x7d" ++ "{{Ann}}{{}} {{a} } null") ∧
      keys (rekey (resolve braceAliases) "{{{x}}}{{ Customer }}{{ }} {{a} } {{nested}}") =
        ["\x7bx", "customer", "\x7bx"] := by
  have hplain : ∀ name key, braceAliases.get? name = some key → Plain key :=
    fun _ _ h => braceAliases_plain h
  obtain ⟨hsame, _, _, hkeys⟩ := interpolate_rekey hplain [("customer", .str "{{Ann}}"), ("\x7bx", .null)]
    "{{{x}}}{{ Customer }}{{ }} {{a} } {{nested}}"
  refine ⟨hplain, hsame.trans ?_, hkeys.trans (by decide +kernel)⟩
  have htext : (substitute (resolve braceAliases) [("customer", .str "{{Ann}}"), ("\x7bx", .null)]
      "{{{x}}}{{ Customer }}{{ }} {{a} } {{nested}}").toOption =
        some ("null\x7d" ++ "{{Ann}}{{}} {{a} } null") := by
    decide +kernel
  generalize substitute _ _ _ = filled at htext
  cases filled with
  | error name => cases htext
  | ok text => exact congrArg Except.ok (Option.some.inj htext)

end FormFlow.Template
