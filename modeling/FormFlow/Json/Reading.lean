import FormFlow.Json

/-!
# What a text is read as

A string in a text may hold a surrogate without its partner, which is no character.  What is read therefore has
code points for its strings and names: a `Reading`, in which two names are one exactly if their code points are.

The rest of the library knows characters only.  There, a surrogate without its partner becomes the replacement
character; two members whose names become one by this stay two members.
-/

namespace FormFlow.Json

/-- The code points of a string: those of its characters, and surrogates without a partner. -/
abbrev Points := List Nat

namespace Points

/-- The code points of a string of characters. -/
def ofString (s : String) : Points := s.toList.map Char.toNat

/-- The character of a code point; a surrogate becomes the replacement character. -/
def character (n : Nat) : Char := if 0xD800 ≤ n ∧ n < 0xE000 then '\ufffd' else Char.ofNat n

/-- Code points as characters. -/
def text (points : Points) : String := String.ofList (points.map character)

end Points

/-- What a text is read as. -/
inductive Reading where
  | null
  | bool (value : Bool)
  | num (value : Number)
  | str (points : Points)
  | arr (items : List Reading)
  | obj (members : List (Points × Reading))
deriving Inhabited

namespace Reading

/-- The value of a member, if what was read is an object that has it. -/
def get? : Reading → Points → Option Reading
  | obj members, name => Table.get? members name
  | _, _ => none

mutual
/-- What was read, with characters in its strings and names. -/
def toJson : Reading → Json
  | null => .null
  | bool b => .bool b
  | num n => .num n
  | str points => .str points.text
  | arr items => .arr (itemsToJson items)
  | obj members => .obj (membersToJson members)
/-- Each item with characters in its strings. -/
def itemsToJson : List Reading → List Json
  | [] => []
  | r :: items => toJson r :: itemsToJson items
/-- Each member with characters in its name and value. -/
def membersToJson : List (Points × Reading) → List (String × Json)
  | [] => []
  | (name, r) :: members => (Points.text name, toJson r) :: membersToJson members
end

end Reading

end FormFlow.Json
