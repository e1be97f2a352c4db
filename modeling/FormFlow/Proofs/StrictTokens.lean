import FormFlow.Proofs.Grammar
import FormFlow.Proofs.ReaderSteps
import FormFlow.Proofs.ReadTokens
import Mathlib.Data.List.TakeWhile

/-!
# Reading literals and letters

The reader of numbers takes the literal at the front of a text, and the reader of strings the letters up to the
closing quote.  What they read is spelled there, and what is spelled they read, a literal where no number goes
on behind it.

## Principal results

* `exists_literal`, `readNumber_source` — a number is read exactly if a literal stands there;
* `exists_letters`, `readString_letters` — a string is read exactly if letters and a quote stand there.
-/

namespace FormFlow.Json

open Grammar

/-! ## The parts of a literal -/

theorem exists_digits {cs ds rest : List Char} (h : spanDigits cs = (ds, rest)) (hne : ds ≠ []) :
    ∃ digits : Digits, digits.text = ds ∧ cs = digits.text ++ rest := by
  cases h
  exact ⟨⟨_, hne, fun c hc => List.mem_takeWhile_imp hc⟩, rfl, List.takeWhile_append_dropWhile.symm⟩

theorem spanDigits_digits (digits : Digits) {rest : List Char} (h : Ends rest) :
    spanDigits (digits.text ++ rest) = (digits.text, rest) :=
  spanDigits_append digits.digits fun c t heq => (h c t heq).1

/-- Digits behind the sign of an exponent. -/
def exponentBehind? (sign : ExponentSign) (cs : List Char) : Option (Int × List Char) :=
  match spanDigits cs with
  | ([], _) => none
  | (ds, rest) =>
    let n : Int := Nat.ofDigitChars 10 ds 0
    some (match sign with
      | .minus => -n
      | _ => n, rest)

/-- No sign stands in front. -/
def Unsigned (cs : List Char) : Prop := ∀ t, cs ≠ '-' :: t ∧ cs ≠ '+' :: t

theorem unsigned_digits (digits : Digits) (rest : List Char) : Unsigned (digits.text ++ rest) := by
  obtain ⟨d, ds, hds⟩ := List.exists_cons_of_ne_nil digits.ne_nil
  have hd := digits.digits d (hds ▸ List.mem_cons_self ..)
  intro t
  rw [hds, List.cons_append]
  constructor
  all_goals
    intro heq
    rw [(List.cons.inj heq).1] at hd
    cases hd

theorem exponent?_sign (capital : Bool) {sign : ExponentSign} {body : List Char}
    (h : sign = .none → Unsigned body) :
    exponent? ((if capital then 'E' else 'e') :: (sign.source ++ body)) = exponentBehind? sign body := by
  cases sign with
  | minus => cases capital <;> rfl
  | plus => cases capital <;> rfl
  | none =>
    have hmark : (if capital then 'E' else 'e') = 'e' ∨ (if capital then 'E' else 'e') = 'E' := by
      cases capital
      · exact .inl rfl
      · exact .inr rfl
    rw [ExponentSign.source, List.nil_append, exponent?, if_pos hmark]
    · rfl
    · exact fun t => (h rfl t).1
    · exact fun t => (h rfl t).2

theorem exists_sign (cs : List Char) :
    ∃ (sign : ExponentSign) (body : List Char), cs = sign.source ++ body ∧ (sign = .none → Unsigned body) := by
  by_cases hminus : ∃ t, cs = '-' :: t
  · obtain ⟨t, rfl⟩ := hminus
    exact ⟨.minus, t, rfl, nofun⟩
  · by_cases hplus : ∃ t, cs = '+' :: t
    · obtain ⟨t, rfl⟩ := hplus
      exact ⟨.plus, t, rfl, nofun⟩
    · exact ⟨.none, cs, rfl, fun _ t => ⟨fun heq => hminus ⟨t, heq⟩, fun heq => hplus ⟨t, heq⟩⟩⟩

theorem exists_exponent {cs rest : List Char} {e : Int} (h : exponent? cs = some (e, rest)) :
    ∃ x : Exponent, x.value = e ∧ cs = x.source ++ rest := by
  cases cs with
  | nil => cases h
  | cons c cs =>
    have hmark : c = 'e' ∨ c = 'E' := by
      by_contra hne
      simp [exponent?, hne] at h
    obtain ⟨capital, rfl⟩ : ∃ capital : Bool, c = if capital then 'E' else 'e' := by
      rcases hmark with rfl | rfl
      · exact ⟨false, rfl⟩
      · exact ⟨true, rfl⟩
    obtain ⟨sign, body, rfl, hunsigned⟩ := exists_sign cs
    rw [exponent?_sign capital hunsigned, exponentBehind?] at h
    split at h
    · cases h
    · rename_i ds after hne hspan
      cases h
      obtain ⟨digits, rfl, rfl⟩ := exists_digits hspan hne
      exact ⟨⟨capital, sign, digits⟩, rfl, by rw [Exponent.source, List.cons_append, List.append_assoc]⟩

theorem exponent?_source (x : Exponent) {rest : List Char} (h : Ends rest) :
    exponent? (x.source ++ rest) = some (x.value, rest) := by
  rw [Exponent.source, List.cons_append, List.append_assoc,
    exponent?_sign _ fun _ => unsigned_digits x.digits rest, exponentBehind?, spanDigits_digits x.digits h]
  split
  · rename_i heq
    exact absurd (Prod.mk.inj heq).1 x.digits.ne_nil
  · rename_i heq
    cases heq
    rfl

theorem exists_part {cs ds rest : List Char} (h : fraction? cs = some (ds, rest)) :
    ∃ part : Digits, part.text = ds ∧ cs = '.' :: (part.text ++ rest) := by
  unfold fraction? at h
  split at h
  · split at h
    · cases h
    · rename_i hne
      rw [Option.some.inj h] at hne
      obtain ⟨part, rfl, rfl⟩ := exists_digits (Option.some.inj h) fun hnil => hne rest (by rw [hnil])
      exact ⟨part, rfl, rfl⟩
  · cases h

theorem fraction?_digits (part : Digits) {rest : List Char} (h : ∀ c t, rest = c :: t → c.isDigit = false) :
    fraction? ('.' :: (part.text ++ rest)) = some (part.text, rest) := by
  rw [fraction?, spanDigits_append part.digits h]
  split
  · rename_i heq
    exact absurd (Prod.mk.inj heq).1 part.ne_nil
  · rfl

theorem exists_whole {cs ds rest : List Char} (h : wholePart? cs = some (ds, rest)) :
    ∃ whole : Digits, whole.text = ds ∧ (∀ more, whole.text = '0' :: more → more = []) ∧
      cs = whole.text ++ rest := by
  unfold wholePart? at h
  split at h
  · cases h
  · rename_i c cs
    split at h
    · rename_i hzero
      cases h
      rw [hzero]
      exact ⟨.zero, rfl, fun more hmore => (List.cons.inj hmore).2.symm, rfl⟩
    · split at h
      · rename_i hzero hdigit
        obtain ⟨more, rfl⟩ : ∃ more, ds = c :: more := by
          cases h
          exact ⟨_, List.takeWhile_cons_of_pos hdigit⟩
        obtain ⟨whole, hwhole, heq⟩ := exists_digits (Option.some.inj h) (List.cons_ne_nil _ _)
        refine ⟨whole, hwhole, fun _ hmore => ?_, heq⟩
        rw [hwhole] at hmore
        exact absurd (List.cons.inj hmore).1 hzero
      · cases h

/-! ## Literals -/

/-- The number behind a sign. -/
def readMagnitude (left : Nat) (negative : Bool) (body : List Char) :
    Except ReadError (Number × List Char) :=
  match wholePart? body with
  | none => .error (.at .value left)
  | some (whole, rest) =>
    let (part, rest) := (fraction? rest).getD ([], rest)
    match exponent? rest, part with
    | none, [] =>
      if digitLimit < whole.length then .error (.longInteger whole.length)
      else
        let n : Int := Nat.ofDigitChars 10 whole 0
        .ok (.int (if negative then -n else n), rest)
    | found, _ =>
      let (e, rest) := found.getD (0, rest)
      let digits := Nat.ofDigitChars 10 (whole ++ part) 0
      .ok (.float (Decimal.nearest negative digits (e - part.length)), rest)

theorem readNumber_sign {negative : Bool} {body : List Char} (h : negative = false → ∀ t, body ≠ '-' :: t) :
    ∃ left, readNumber ((if negative then ['-'] else []) ++ body) = readMagnitude left negative body := by
  cases negative with
  | true => exact ⟨_, rfl⟩
  | false =>
    refine ⟨body.length, ?_⟩
    rw [if_neg (by decide), List.nil_append, readNumber.eq_def]
    split
    rename_i hsplit
    split at hsplit
    · exact absurd rfl (h rfl _)
    · cases hsplit
      rfl

theorem Literal.number_of_part {l : Literal} (h : l.part ≠ none) :
    l.number = .float (Decimal.nearest l.negative l.figure.digits l.figure.exponent) :=
  if_neg fun hinteger => h hinteger.1

theorem Literal.number_of_exponent {l : Literal} (h : l.exponent ≠ none) :
    l.number = .float (Decimal.nearest l.negative l.figure.digits l.figure.exponent) :=
  if_neg fun hinteger => h hinteger.2

theorem readMagnitude_ok {left : Nat} {negative : Bool} {body rest : List Char} {n : Number}
    (h : readMagnitude left negative body = .ok (n, rest)) :
    ∃ l : Literal, l.negative = negative ∧ body = l.whole.text ++ (l.tail ++ rest) ∧ l.Short ∧ n = l.number := by
  unfold readMagnitude at h
  split at h
  · cases h
  · rename_i ds after hwhole
    obtain ⟨whole, rfl, hzero, rfl⟩ := exists_whole hwhole
    cases hpart : fraction? after with
    | none =>
      simp only [hpart, Option.getD_none] at h
      cases hexponent : exponent? after with
      | none =>
        simp only [hexponent] at h
        split at h
        · cases h
        · rename_i hlength
          cases h
          exact ⟨⟨negative, whole, none, none, hzero⟩, rfl, rfl, fun _ => Nat.not_lt.1 hlength, rfl⟩
      | some found =>
        simp only [hexponent, Option.getD_some] at h
        cases h
        obtain ⟨x, hx, rfl⟩ := exists_exponent hexponent
        refine ⟨⟨negative, whole, none, some x, hzero⟩, rfl, rfl, nofun, ?_⟩
        rw [← hx, Literal.number_of_exponent (Option.some_ne_none x)]
        rfl
    | some found =>
      obtain ⟨ds, behind⟩ := found
      obtain ⟨part, rfl, rfl⟩ := exists_part hpart
      simp only [hpart, Option.getD_some] at h
      cases hexponent : exponent? behind with
      | none =>
        simp only [hexponent] at h
        split at h
        · rename_i heq
          exact absurd heq part.ne_nil
        · cases h
          refine ⟨⟨negative, whole, some part, none, hzero⟩, rfl, ?_, nofun, ?_⟩
          · rw [Literal.tail, List.append_assoc]
            rfl
          · rw [Literal.number_of_part (Option.some_ne_none part)]
            rfl
      | some exponent =>
        simp only [hexponent, Option.getD_some] at h
        cases h
        obtain ⟨x, hx, rfl⟩ := exists_exponent hexponent
        refine ⟨⟨negative, whole, some part, some x, hzero⟩, rfl, ?_, nofun, ?_⟩
        · rw [Literal.tail, List.append_assoc]
          rfl
        · rw [← hx, Literal.number_of_part (Option.some_ne_none part)]
          rfl

/-- **What is read as a number is spelled by a literal.** -/
theorem exists_literal {cs rest : List Char} {n : Number} (h : readNumber cs = .ok (n, rest)) :
    ∃ l : Literal, cs = l.source ++ rest ∧ l.Short ∧ n = l.number := by
  obtain ⟨negative, body, rfl, hbody⟩ : ∃ negative body, cs = (if negative then ['-'] else []) ++ body ∧
      (negative = false → ∀ t, body ≠ '-' :: t) := by
    by_cases hminus : ∃ t, cs = '-' :: t
    · obtain ⟨t, rfl⟩ := hminus
      exact ⟨true, t, rfl, nofun⟩
    · exact ⟨false, cs, rfl, fun _ t heq => hminus ⟨t, heq⟩⟩
  obtain ⟨left, hmagnitude⟩ := readNumber_sign hbody
  rw [hmagnitude] at h
  obtain ⟨l, rfl, rfl, hshort, hn⟩ := readMagnitude_ok h
  exact ⟨l, by rw [Literal.source, List.append_assoc, List.append_assoc], hshort, hn⟩

theorem exponentSource_append {x : Option Exponent} {rest : List Char} (h : Ends rest) :
    exponent? (Literal.exponentSource x ++ rest) = x.map fun x => (x.value, rest) := by
  cases x with
  | none => exact h.exponent?_eq
  | some x => exact exponent?_source x h

/-- Behind the digits of a literal stands no digit and no point. -/
theorem exponentSource_head {x : Option Exponent} {rest : List Char} (h : Ends rest) :
    ∀ c t, Literal.exponentSource x ++ rest = c :: t → c.isDigit = false ∧ c ≠ '.' := by
  cases x with
  | none => exact fun c t heq => ⟨(h c t heq).1, (h c t heq).2.1⟩
  | some x =>
    intro c t heq
    rw [← (List.cons.inj heq).1]
    cases x.capital <;> decide

theorem partSource_append (part : Option Digits) {rest : List Char}
    (h : ∀ c t, rest = c :: t → c.isDigit = false ∧ c ≠ '.') :
    (fraction? (Literal.partSource part ++ rest)).getD ([], Literal.partSource part ++ rest) =
      (Literal.partDigits part, rest) := by
  cases part with
  | none =>
    have hnone : fraction? rest = none := by
      unfold fraction?
      split
      · exact absurd rfl (h _ _ rfl).2
      · rfl
    rw [Literal.partSource, List.nil_append, hnone]
    rfl
  | some part =>
    rw [Literal.partSource, List.cons_append, fraction?_digits part fun c t heq => (h c t heq).1]
    rfl

theorem tail_head {l : Literal} {rest : List Char} (h : Ends rest) :
    ∀ c t, l.tail ++ rest = c :: t → c.isDigit = false := by
  intro c t heq
  rw [Literal.tail, List.append_assoc] at heq
  cases hpart : l.part with
  | none =>
    rw [hpart] at heq
    exact (exponentSource_head h c t heq).1
  | some part =>
    rw [hpart] at heq
    rw [← (List.cons.inj heq).1]
    rfl

theorem readMagnitude_source {l : Literal} (hshort : l.Short) {rest : List Char} (h : Ends rest) (left : Nat) :
    readMagnitude left l.negative (l.whole.text ++ (l.tail ++ rest)) = .ok (l.number, rest) := by
  have hwhole := wholePart?_append l.whole.ne_nil l.whole.digits l.noLeadingZero (tail_head (l := l) h)
  have hpart := partSource_append l.part (exponentSource_head (x := l.exponent) h)
  have hexponent := exponentSource_append (x := l.exponent) h
  rw [readMagnitude, hwhole]
  dsimp only
  rw [Literal.tail, List.append_assoc, hpart]
  dsimp only
  rw [hexponent]
  obtain ⟨negative, whole, part, exponent, hzero⟩ := l
  cases exponent with
  | some x =>
    rw [Literal.number_of_exponent (Option.some_ne_none x)]
    rfl
  | none =>
    cases part with
    | some part =>
      obtain ⟨d, ds, hds⟩ := List.exists_cons_of_ne_nil part.ne_nil
      rw [Literal.number_of_part (Option.some_ne_none part)]
      simp only [Literal.partDigits, hds, Option.map_none]
      simp only [Literal.figure, Literal.partDigits, hds]
      rfl
    | none =>
      have hlength : ¬ digitLimit < whole.text.length := Nat.not_lt.2 (hshort ⟨rfl, rfl⟩)
      simp only [Literal.partDigits, Option.map_none]
      rw [if_neg hlength]
      rfl

/-- **A literal is read**, where no number goes on behind it. -/
theorem readNumber_source {l : Literal} (hshort : l.Short) {rest : List Char} (h : Ends rest) :
    readNumber (l.source ++ rest) = .ok (l.number, rest) := by
  have hsign : l.negative = false → ∀ t, l.whole.text ++ (l.tail ++ rest) ≠ '-' :: t :=
    fun _ t => (unsigned_digits l.whole _ t).1
  obtain ⟨left, hmagnitude⟩ := readNumber_sign hsign
  rw [Literal.source, List.append_assoc, List.append_assoc, hmagnitude, readMagnitude_source hshort h]

/-! ## Letters -/

/-- A second unit is seen where the next letter is one. -/
theorem not_low_of_none {cs rest : List Char} {m : Nat} {more : List Letter} (h : lowSurrogate? cs = none)
    (hletters : Letters cs (.unit m :: more) rest) : ¬ (0xDC00 ≤ m ∧ m < 0xE000) := by
  rintro ⟨hge, hlt⟩
  cases hletters with
  | unit digits letters =>
    have hne := List.ne_nil_of_length_pos (Nat.zero_lt_of_lt letters.length_lt)
    rw [lowSurrogate?] at h
    simp [digits, hge, hlt, hne] at h

theorem lowSurrogate?_spec {cs after : List Char} {m : Nat} (h : lowSurrogate? cs = some (m, after)) :
    (0xDC00 ≤ m ∧ m < 0xE000) ∧
      ∃ a b c d, cs = '\\' :: 'u' :: a :: b :: c :: d :: after ∧ Text.ofHex? [a, b, c, d] = some m := by
  unfold lowSurrogate? at h
  split at h
  · rename_i a b c d rest
    split at h
    · rename_i n hdigits
      split at h
      · rename_i hlow
        cases h
        exact ⟨⟨hlow.1, hlow.2.1⟩, a, b, c, d, rfl, hdigits⟩
      · cases h
    · cases h
  · cases h

theorem Grammar.Letters.of_unit {a b c d : Char} {m : Nat} {cs rest : List Char} {ls : List Letter}
    (digits : Text.ofHex? [a, b, c, d] = some m)
    (h : Letters ('\\' :: 'u' :: a :: b :: c :: d :: cs) ls rest) :
    ∃ more, ls = .unit m :: more ∧ Letters cs more rest := by
  cases h with
  | plain _ slash => exact absurd rfl slash
  | short escape => cases escape
  | unit found letters =>
    rw [digits] at found
    cases found
    exact ⟨_, rfl, letters⟩

theorem exists_more {n : Nat} {found : Except ReadError (Points × List Char)} {points : Points}
    {rest : List Char} (h : (do let (more, rest) ← found; return (n :: more, rest)) = Except.ok (points, rest)) :
    ∃ more, found = .ok (more, rest) ∧ points = n :: more := by
  obtain ⟨_, hfound, h⟩ := exists_of_bind_ok h
  cases h
  exact ⟨_, hfound, rfl⟩

theorem exists_letters {opening fuel : Nat} {cs rest : List Char} {points : Points}
    (h : readString opening fuel cs = .ok (points, rest)) : ∃ ls, Letters cs ls rest ∧ points = decode ls := by
  induction fuel generalizing cs points with
  | zero => cases h
  | succ fuel ih =>
    unfold readString at h
    dsimp only at h
    split at h
    · cases h
    · cases h
    · cases h
      exact ⟨[], .close, rfl⟩
    · split at h
      · rename_i a b c d e after
        split at h
        · cases h
        · rename_i n digits
          split at h
          · rename_i hhigh
            split at h
            · rename_i m behind hlow
              obtain ⟨_, hread, rfl⟩ := exists_more h
              obtain ⟨ls, hletters, rfl⟩ := ih hread
              obtain ⟨hm, a', b', c', d', hafter, digits'⟩ := lowSurrogate?_spec hlow
              refine ⟨.unit n :: .unit m :: ls, .unit digits (hafter ▸ .unit digits' hletters), ?_⟩
              rw [decode, if_pos ⟨hhigh, hm⟩]
              rfl
            · rename_i hnone
              obtain ⟨_, hread, rfl⟩ := exists_more h
              obtain ⟨ls, hletters, rfl⟩ := ih hread
              refine ⟨.unit n :: ls, .unit digits hletters, ?_⟩
              rw [decode_unit]
              rintro m more rfl ⟨_, hlow⟩
              exact not_low_of_none hnone hletters hlow
          · rename_i hhigh
            obtain ⟨_, hread, rfl⟩ := exists_more h
            obtain ⟨ls, hletters, rfl⟩ := ih hread
            refine ⟨.unit n :: ls, .unit digits hletters, ?_⟩
            rw [decode_unit]
            rintro m more rfl ⟨h, _⟩
            exact hhigh h
      · cases h
    · split at h
      · rename_i escape
        obtain ⟨_, hread, rfl⟩ := exists_more h
        obtain ⟨ls, hletters, rfl⟩ := ih hread
        exact ⟨_, .short escape hletters, rfl⟩
      · cases h
    · rename_i hquote _ hslash
      split at h
      · cases h
      · rename_i hcontrol
        obtain ⟨_, hread, rfl⟩ := exists_more h
        obtain ⟨ls, hletters, rfl⟩ := ih hread
        refine ⟨_, .plain ?_ ?_ (Nat.not_lt.1 hcontrol) hletters, rfl⟩
        · exact hquote
        · rintro rfl
          obtain ⟨e, after, rfl⟩ := List.exists_cons_of_ne_nil (List.ne_nil_of_length_pos
            (Nat.zero_lt_of_lt hletters.length_lt))
          exact hslash e after rfl rfl

theorem readString_letters {opening fuel : Nat} {cs rest : List Char} {ls : List Letter}
    (h : Letters cs ls rest) (hfuel : cs.length ≤ fuel + rest.length) :
    readString opening fuel cs = .ok (decode ls, rest) := by
  induction fuel generalizing cs ls with
  | zero =>
    have := h.length_lt
    omega
  | succ fuel ih =>
    cases h with
    | close => rfl
    | plain quote slash control more =>
      have hne := List.ne_nil_of_length_pos (Nat.zero_lt_of_lt more.length_lt)
      rw [List.length_cons] at hfuel
      have hread := self_reads quote slash (Nat.not_lt.2 control) opening fuel _ hne
      rw [List.singleton_append] at hread
      rw [hread, ih more (by omega)]
      rfl
    | short escape more =>
      have hne := List.ne_nil_of_length_pos (Nat.zero_lt_of_lt more.length_lt)
      simp only [List.length_cons] at hfuel
      have hread := escape_reads escape opening fuel _ hne
      simp only [List.cons_append, List.nil_append] at hread
      rw [hread, ih more (by omega)]
      rfl
    | @unit a b c d n cs _ ls digits more =>
      simp only [List.length_cons] at hfuel
      by_cases hpair : (0xD800 ≤ n ∧ n < 0xDC00) ∧ ∃ found, lowSurrogate? cs = some found
      · obtain ⟨hhigh, ⟨m, after⟩, hlow⟩ := hpair
        obtain ⟨hm, a', b', c', d', rfl, digits'⟩ := lowSurrogate?_spec hlow
        obtain ⟨ls, rfl, hafter⟩ := more.of_unit digits'
        simp only [List.length_cons] at hfuel
        rw [readString_pair digits hhigh hlow, ih hafter (by omega), decode, if_pos ⟨hhigh, hm⟩]
        rfl
      · have hne := List.ne_nil_of_length_pos (Nat.zero_lt_of_lt more.length_lt)
        have halone : 0xD800 ≤ n ∧ n < 0xDC00 → lowSurrogate? cs = none := fun hhigh =>
          Option.eq_none_iff_forall_ne_some.2 fun found hlow => hpair ⟨hhigh, found, hlow⟩
        rw [readString_unit digits halone hne, ih more (by omega), decode_unit]
        · rfl
        · rintro m more' rfl ⟨hhigh, hlow⟩
          exact not_low_of_none (halone hhigh) more hlow

end FormFlow.Json
