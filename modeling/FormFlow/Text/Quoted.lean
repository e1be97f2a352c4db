import FormFlow.Text.Hex
import FormFlow.Text.Printable

/-!
# Quoted texts

A quoted text is one that a message shows unambiguously: it stands between single quotes, or between
double quotes if it holds a single quote and no double one; the quote, the backslash and whatever is
not printable are escaped.

## Principal results

* `quoteMark_spec` — the double quote is chosen exactly when that saves an escape;
* `escapeChar_printable` — a printable character other than the quote and the backslash is shown as
  it is.
-/

namespace FormFlow.Text

/-- The quote that surrounds a text. -/
def quoteMark (cs : List Char) : Char :=
  if '\'' ∈ cs ∧ '"' ∉ cs then '"' else '\''

theorem quoteMark_spec (cs : List Char) : quoteMark cs = '"' ↔ '\'' ∈ cs ∧ '"' ∉ cs := by
  unfold quoteMark
  split <;> simp_all

/-- One character inside quotes: short escapes for the quote, the backslash, tab and the line ends,
numeric ones of two, four or eight digits for the rest of what is not printable. -/
def escapeChar (mark c : Char) : List Char :=
  if c = mark ∨ c = '\\' then ['\\', c]
  else if c = '\n' then ['\\', 'n']
  else if c = '\r' then ['\\', 'r']
  else if c = '\t' then ['\\', 't']
  else if isPrintable c then [c]
  else if c.toNat < 0x100 then ['\\', 'x'] ++ hex 2 c.toNat
  else if c.toNat < 0x10000 then ['\\', 'u'] ++ hex 4 c.toNat
  else ['\\', 'U'] ++ hex 8 c.toNat

theorem escapeChar_printable {mark c : Char} (h : isPrintable c = true) (hm : c ≠ mark)
    (hb : c ≠ '\\') : escapeChar mark c = [c] := by
  have hn : c ≠ '\n' := fun e => by rw [e] at h; exact absurd h (by decide +kernel)
  have hr : c ≠ '\r' := fun e => by rw [e] at h; exact absurd h (by decide +kernel)
  have ht : c ≠ '\t' := fun e => by rw [e] at h; exact absurd h (by decide +kernel)
  simp [escapeChar, h, hm, hb, hn, hr, ht]

/-- A text between quotes. -/
def quoted (s : String) : String :=
  let cs := s.toList
  let mark := quoteMark cs
  String.ofList ([mark] ++ cs.flatMap (escapeChar mark) ++ [mark])

end FormFlow.Text
