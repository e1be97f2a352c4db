import FormFlow.Decimal.Notation
import FormFlow.Json.Numbers
import FormFlow.Json.Reading
import FormFlow.Text.Hex

/-!
# Reading JSON

A recursive-descent reader over the characters of a text.  Blanks are space, tab, carriage return and
line feed; strings hold no raw control characters, and two escapes of surrogates that follow each other
are one code point; numbers follow the JSON grammar, and a number without fraction and exponent is an
integer.  Of a repeated member name the first position and the last value count.  The strict dialect
refuses the constants `NaN`, `Infinity` and `-Infinity`.

A fault is reported with the number of characters that were left, from which `ReadError.message`
computes line, column and offset.

## Principal results

* `skipBlanks_append`, `spanDigits_append` — blanks and digits are taken greedily.
-/

namespace FormFlow.Json

/-! ## Faults -/

/-- What is wrong at a place of the text. -/
inductive Fault where
  | value | memberName | colon | comma | unterminatedString | controlCharacter | escape
  | unicodeEscape | extraData | byteOrderMark
deriving DecidableEq

/-- The wording of a fault. -/
def Fault.wording : Fault → String
  | value => "Expecting value"
  | memberName => "Expecting property name enclosed in double quotes"
  | colon => "Expecting ':' delimiter"
  | comma => "Expecting ',' delimiter"
  | unterminatedString => "Unterminated string starting at"
  | controlCharacter => "Invalid control character at"
  | escape => "Invalid \\escape"
  | unicodeEscape => "Invalid \\uXXXX escape"
  | extraData => "Extra data"
  | byteOrderMark => "Unexpected UTF-8 BOM (decode using utf-8-sig)"

/-- Why a text was refused. -/
inductive ReadError where
  /-- A fault in front of the last `left` characters. -/
  | at (fault : Fault) (left : Nat)
  /-- A constant that strict JSON does not have. -/
  | constant (name : String)
  /-- An integer with more digits than are read. -/
  | longInteger (digits : Nat)
deriving DecidableEq

/-- How many characters stand before the last `left` ones. -/
def offset (text : List Char) (left : Nat) : Nat := text.length - left

/-- A place in a text: line and column count from one, the offset from zero. -/
def placeText (text : List Char) (left : Nat) : String :=
  let before := text.take (offset text left)
  let line := before.count '\n' + 1
  let column := (before.reverse.takeWhile (· ≠ '\n')).length + 1
  s!"line {line} column {column} (char {before.length})"

/-- The message of a refused text. -/
def ReadError.message (text : List Char) : ReadError → String
  | .at fault left => s!"{fault.wording}: {placeText text left}"
  | .constant name => s!"{name} is not a valid JSON value"
  | .longInteger digits =>
    s!"Exceeds the limit ({digitLimit} digits) for integer string conversion: " ++
      s!"value has {digits} digits; use sys.set_int_max_str_digits() to increase the limit"

/-! ## Blanks and digits -/

/-- The white space of JSON. -/
def isGap (c : Char) : Bool := c = ' ' || c = '\t' || c = '\n' || c = '\r'

/-- Drop white space. -/
def skipBlanks (cs : List Char) : List Char := cs.dropWhile isGap

/-- The digits at the front and what follows them. -/
def spanDigits (cs : List Char) : List Char × List Char :=
  (cs.takeWhile Char.isDigit, cs.dropWhile Char.isDigit)

theorem skipBlanks_append {a b : List Char} (ha : ∀ c ∈ a, isGap c = true) :
    skipBlanks (a ++ b) = skipBlanks b := by
  induction a with
  | nil => rfl
  | cons c a ih =>
    have hc := ha c (by simp)
    have := ih fun d hd => ha d (by simp [hd])
    simpa [skipBlanks, hc] using this

theorem spanDigits_append {a b : List Char} (ha : ∀ c ∈ a, c.isDigit = true)
    (hb : ∀ c rest, b = c :: rest → c.isDigit = false) : spanDigits (a ++ b) = (a, b) := by
  induction a with
  | nil =>
    cases b with
    | nil => rfl
    | cons c rest => simp [spanDigits, hb c rest rfl]
  | cons c a ih =>
    have hc := ha c (by simp)
    have := ih fun d hd => ha d (by simp [hd])
    simp only [spanDigits, Prod.mk.injEq] at this
    simp [spanDigits, hc, this.1, this.2]

/-! ## Strings -/

/-- The character that a one-letter escape stands for. -/
def unescape? : Char → Option Char
  | '"' => some '"'
  | '\\' => some '\\'
  | '/' => some '/'
  | 'b' => some '\u0008'
  | 'f' => some '\u000c'
  | 'n' => some '\n'
  | 'r' => some '\r'
  | 't' => some '\t'
  | _ => none

/-- The second unit of a surrogate pair at the front, if a character follows it. -/
def lowSurrogate? : List Char → Option (Nat × List Char)
  | '\\' :: 'u' :: a :: b :: c :: d :: rest =>
    match Text.ofHex? [a, b, c, d] with
    | some n => if 0xDC00 ≤ n ∧ n < 0xE000 ∧ rest ≠ [] then some (n, rest) else none
    | none => none
  | _ => none

/-- The code points of a string after its opening quote, with the given fuel; `opening` counts the
characters from that quote on. -/
def readString (opening : Nat) : Nat → List Char → Except ReadError (Points × List Char)
  | 0, _ => .error (.at .unterminatedString opening)
  | fuel + 1, cs =>
    let continueWith (n : Nat) (rest : List Char) : Except ReadError (Points × List Char) := do
      let (more, rest) ← readString opening fuel rest
      return (n :: more, rest)
    match cs with
    | [] | ['\\'] => .error (.at .unterminatedString opening)
    | '"' :: rest => .ok ([], rest)
    | '\\' :: 'u' :: rest =>
      match rest with
      | a :: b :: c :: d :: e :: after =>
        match Text.ofHex? [a, b, c, d] with
        | none => .error (.at .unicodeEscape (rest.length + 1))
        | some n =>
          if 0xD800 ≤ n ∧ n < 0xDC00 then
            match lowSurrogate? (e :: after) with
            | some (m, after) =>
              continueWith (0x10000 + (n - 0xD800) * 0x400 + (m - 0xDC00)) after
            | none => continueWith n (e :: after)
          else continueWith n (e :: after)
      | _ => .error (.at .unicodeEscape (rest.length + 1))
    | '\\' :: c :: rest =>
      match unescape? c with
      | some c => continueWith c.toNat rest
      | none => .error (.at .escape (rest.length + 2))
    | c :: rest =>
      if c.toNat < 0x20 then .error (.at .controlCharacter (rest.length + 1))
      else continueWith c.toNat rest

/-! ## Numbers -/

/-- The digits after a point at the front, if there are any. -/
def fraction? : List Char → Option (List Char × List Char)
  | '.' :: cs => match spanDigits cs with
    | ([], _) => none
    | found => some found
  | _ => none

/-- An exponent at the front, if it is complete. -/
def exponent? : List Char → Option (Int × List Char)
  | c :: cs =>
    if c = 'e' ∨ c = 'E' then
      let (negative, cs) := match cs with
        | '-' :: cs => (true, cs)
        | '+' :: cs => (false, cs)
        | cs => (false, cs)
      match spanDigits cs with
      | ([], _) => none
      | (ds, rest) =>
        let n : Int := Nat.ofDigitChars 10 ds 0
        some (if negative then -n else n, rest)
    else none
  | [] => none

/-- The integer part at the front: a single zero, or digits that do not start with a zero. -/
def wholePart? : List Char → Option (List Char × List Char)
  | [] => none
  | c :: cs =>
    if c = '0' then some (['0'], cs)
    else if c.isDigit then some (spanDigits (c :: cs))
    else none

/-- A number at the front. -/
def readNumber (cs : List Char) : Except ReadError (Number × List Char) :=
  let (negative, body) := match cs with
    | '-' :: body => (true, body)
    | body => (false, body)
  match wholePart? body with
  | none => .error (.at .value cs.length)
  | some (whole, rest) =>
    let (part, rest) := (fraction? rest).getD ([], rest)
    match exponent? rest, part with
    | none, [] =>
      if digitLimit < whole.length then .error (.longInteger whole.length)
      else
        let n : Int := Nat.ofDigitChars 10 whole 0
        .ok (.int (if negative then -n else n), rest)
    | found, _ =>
      let (e, rest) := found.getD (0, rest)
      let digits := Nat.ofDigitChars 10 (whole ++ part) 0
      .ok (.float (Decimal.nearest negative digits (e - part.length)), rest)

/-! ## Values -/

/-- Whether the constants that JSON does not have are read. -/
inductive Dialect where
  | strict | lenient
deriving DecidableEq

/-- The constants beyond JSON, and the doubles that they name. -/
def constants : List (String × Float) :=
  [("NaN", .ofBits 0x7FF8000000000000), ("Infinity", .ofBits 0x7FF0000000000000),
   ("-Infinity", .ofBits 0xFFF0000000000000)]

/-- A constant at the front, and what follows it. -/
def constant? (cs : List Char) : Option ((String × Float) × List Char) :=
  constants.findSome? fun entry =>
    if entry.1.toList.isPrefixOf cs then some (entry, cs.drop entry.1.length) else none

mutual
/-- A value at the front, with the given fuel. -/
def readValue (dialect : Dialect) : Nat → List Char → Except ReadError (Reading × List Char)
  | 0, cs => .error (.at .value cs.length)
  | fuel + 1, cs =>
    match cs with
    | '"' :: rest => do
      let (points, rest) ← readString cs.length cs.length rest
      return (.str points, rest)
    | '{' :: rest =>
      match skipBlanks rest with
      | '}' :: rest => .ok (.obj [], rest)
      | rest => do
        let (members, rest) ← readMembers dialect fuel rest
        return (.obj (Table.ofPairs members), rest)
    | '[' :: rest =>
      match skipBlanks rest with
      | ']' :: rest => .ok (.arr [], rest)
      | rest => do
        let (items, rest) ← readItems dialect fuel rest
        return (.arr items, rest)
    | 'n' :: 'u' :: 'l' :: 'l' :: rest => .ok (.null, rest)
    | 't' :: 'r' :: 'u' :: 'e' :: rest => .ok (.bool true, rest)
    | 'f' :: 'a' :: 'l' :: 's' :: 'e' :: rest => .ok (.bool false, rest)
    | cs =>
      match constant? cs with
      | some ((name, x), rest) =>
        match dialect with
        | .strict => .error (.constant name)
        | .lenient => .ok (.num (.float x), rest)
      | none => do
        let (n, rest) ← readNumber cs
        return (.num n, rest)
/-- The members of an object from a member name on, up to the closing brace. -/
def readMembers (dialect : Dialect) : Nat → List Char →
    Except ReadError (List (Points × Reading) × List Char)
  | 0, cs => .error (.at .memberName cs.length)
  | fuel + 1, cs =>
    match cs with
    | '"' :: rest => do
      let (name, rest) ← readString cs.length cs.length rest
      match skipBlanks rest with
      | ':' :: rest =>
        let (v, rest) ← readValue dialect fuel (skipBlanks rest)
        match skipBlanks rest with
        | '}' :: rest => return ([(name, v)], rest)
        | ',' :: rest =>
          let (members, rest) ← readMembers dialect fuel (skipBlanks rest)
          return ((name, v) :: members, rest)
        | rest => .error (.at .comma rest.length)
      | rest => .error (.at .colon rest.length)
    | cs => .error (.at .memberName cs.length)
/-- The items of an array from a value on, up to the closing bracket. -/
def readItems (dialect : Dialect) : Nat → List Char → Except ReadError (List Reading × List Char)
  | 0, cs => .error (.at .value cs.length)
  | fuel + 1, cs => do
    let (v, rest) ← readValue dialect fuel cs
    match skipBlanks rest with
    | ']' :: rest => return ([v], rest)
    | ',' :: rest =>
      let (items, rest) ← readItems dialect fuel (skipBlanks rest)
      return (v :: items, rest)
    | rest => .error (.at .comma rest.length)
end

/-- Read a whole text. -/
def readText (dialect : Dialect) (text : List Char) : Except ReadError Reading :=
  match text with
  | '\ufeff' :: _ => .error (.at .byteOrderMark text.length)
  | _ => do
    let (v, rest) ← readValue dialect (text.length + 1) (skipBlanks text)
    match skipBlanks rest with
    | [] => return v
    | rest => .error (.at .extraData rest.length)

/-- Read a whole text as a value, with characters in its strings. -/
def read (dialect : Dialect) (text : List Char) : Except ReadError Json :=
  (readText dialect text).map Reading.toJson

end FormFlow.Json
