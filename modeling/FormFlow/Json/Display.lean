import FormFlow.Json.Printer
import FormFlow.Text.Quoted

/-!
# Values inside messages

A message shows a string as it is and any other value in a notation that tells the kinds apart:
`None`, `True` and `False`, integers and floats, quoted strings inside lists and mappings.

`inspect` and `display` are the notation alone, for integers of any length.  `display?` refuses integers with too
many digits; a message about a value that is not as expected names only the kind of one that holds such an integer.

## Principal results

* `display_str` — a string is shown verbatim;
* `display_eq_inspect` — every other value is shown as it is within a list.
-/

namespace FormFlow.Json

mutual
/-- A value within a list or mapping. -/
def inspect : Json → String
  | null => "None"
  | bool true => "True"
  | bool false => "False"
  | num (.int n) => String.ofList (intText n)
  | num (.float x) => String.ofList (floatText "inf" "nan" x)
  | str s => Text.quoted s
  | arr items => "[" ++ String.intercalate ", " (inspectItems items) ++ "]"
  | obj members => "\x7b" ++ String.intercalate ", " (inspectMembers members) ++ "\x7d"
/-- The items of a list. -/
def inspectItems : List Json → List String
  | [] => []
  | v :: items => inspect v :: inspectItems items
/-- The members of a mapping. -/
def inspectMembers : List (String × Json) → List String
  | [] => []
  | (k, v) :: members => (Text.quoted k ++ ": " ++ inspect v) :: inspectMembers members
end

/-- A value that a message names. -/
def display : Json → String
  | str s => s
  | v => inspect v

/-- A value that a message names, unless an integer inside it has too many digits. -/
def display? (v : Json) : Except ValueError String := if v.Writable then .ok v.display else .error .longInteger

/-- The name of a value's type. -/
def typeName : Json → String
  | null => "NoneType"
  | bool _ => "bool"
  | num (.int _) => "int"
  | num (.float _) => "float"
  | str _ => "str"
  | arr _ => "list"
  | obj _ => "dict"

/-- A value that is not as expected: if it has no text, the name of its type. -/
def shown (v : Json) : String := if v.Writable then v.display else "<unprintable " ++ v.typeName ++ " object>"

@[simp] theorem display_str (s : String) : display (str s) = s := rfl

theorem display_eq_inspect {v : Json} (h : ∀ s, v ≠ str s) : display v = inspect v := by
  cases v <;> simp_all [display]

end FormFlow.Json
