import FormFlow.Table
import FormFlow.Text.Blank

/-!
# Environments

An environment gives texts to variables.  A file of assignments can add variables to it: one assignment
`NAME=value` on a line, perhaps after the word `export`, with the value bare or between quotes, and
comments from a `#`.  Variables that the environment has already, even with an empty text, stay as they
are.

## Principal results

* `extend_get?_of_has` — a file does not change a variable that is set;
* `extend_get?_of_not_has` — any other variable has the text of its last assignment.
-/

namespace FormFlow

/-- The variables of an environment. -/
abbrev Environment := Table String

namespace Environment

/-! ## Reading assignments -/

/-- The lines of a text. -/
def lines : List Char → List (List Char)
  | [] => [[]]
  | c :: cs =>
    match lines cs with
    | [] => [[c]]
    | line :: rest => if c = '\n' ∨ c = '\r' then [] :: line :: rest else (c :: line) :: rest

/-- Drop the word `export` and the blanks after it. -/
def dropExport (cs : List Char) : List Char :=
  match cs with
  | 'e' :: 'x' :: 'p' :: 'o' :: 'r' :: 't' :: c :: rest =>
    if Text.isBlank c then rest.dropWhile Text.isBlank else cs
  | _ => cs

/-- A character that a bare name may hold. -/
def isNameChar (c : Char) : Bool := !(c = '=' || c = '#' || Text.isBlank c)

/-- Cut a bare value at a comment, which follows a blank. -/
def dropComment : List Char → List Char
  | [] => []
  | c :: cs =>
    if Text.isBlank c && (cs.dropWhile Text.isBlank).head? = some '#' then []
    else c :: dropComment cs

/-- Nothing but blanks and a comment. -/
def isIdle (cs : List Char) : Bool :=
  match cs.dropWhile Text.isBlank with
  | [] => true
  | c :: _ => c == '#'

/-- A value between quotes, with nothing but a comment after it. -/
def quotedValue? (quote : Char) (body : List Char) : Option (List Char) :=
  match body.dropWhile (· ≠ quote) with
  | [] => none
  | _ :: rest => if isIdle rest then some (body.takeWhile (· ≠ quote)) else none

/-- The value of an assignment, from the first character that is no blank. -/
def value? : List Char → Option (List Char)
  | '\'' :: body => quotedValue? '\'' body
  | '"' :: body => quotedValue? '"' body
  | cs => some (Text.dropRight Text.isBlank (dropComment cs))

/-- The assignment of a line. -/
def assignment? (line : List Char) : Option (String × String) :=
  let cs := dropExport (line.dropWhile Text.isBlank)
  match cs.takeWhile isNameChar, (cs.dropWhile isNameChar).dropWhile Text.isBlank with
  | [], _ => none
  | name, '=' :: rest =>
    (value? (rest.dropWhile Text.isBlank)).map fun value =>
      (String.ofList name, String.ofList value)
  | _, _ => none

/-- The variables that a file assigns; the last assignment to a name counts. -/
def ofFile (text : String) : Environment :=
  Table.ofPairs ((lines text.toList).filterMap assignment?)

/-! ## Adding assignments -/

/-- Add the variables of a file that are not set. -/
def extend (env : Environment) (text : String) : Environment :=
  env ++ (ofFile text).filter fun entry => !env.has entry.1

theorem get?_filter {env : Environment} {p : String → Bool} {name : String} (h : p name = true) :
    Table.get? (env.filter fun entry => p entry.1) name = env.get? name := by
  induction env with
  | nil => rfl
  | cons entry env ih =>
    obtain ⟨k, v⟩ := entry
    by_cases hk : k = name
    · subst hk
      simp [h, Table.get?]
    · by_cases hp : p k = true <;> simp [hp, Table.get?, hk, ih]

/-- A file does not change a variable that is set. -/
theorem extend_get?_of_has {env : Environment} {name : String} (text : String)
    (h : env.has name = true) : (env.extend text).get? name = env.get? name := by
  obtain ⟨v, hv⟩ := Option.isSome_iff_exists.1 h
  rw [extend, Table.get?_append, hv]
  rfl

/-- A variable that is not set has the text of its last assignment. -/
theorem extend_get?_of_not_has {env : Environment} {name : String} (text : String)
    (h : env.has name = false) : (env.extend text).get? name = (ofFile text).get? name := by
  have hn : env.get? name = none := by simpa [Table.has] using h
  rw [extend, Table.get?_append, hn, Option.none_or]
  exact get?_filter (p := fun k => !env.has k) (by simp [h])

end Environment

end FormFlow
