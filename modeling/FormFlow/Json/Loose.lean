import FormFlow.Json.Canonical
import FormFlow.Json.Display

/-!
# Loose values

A loose value is what a caller may hand over for a JSON value: mappings may have any plain value as a
key, and something without a JSON form may stand inside.  Keys that compare equal are one key, and
numbers compare by value: true, `1` and `1.0` are one key, which keeps its first spelling.  Then each key
becomes its text, and keys with one text are one member.

## Principal results

* `length_itemsToJson`, `keys_entriesToJson` — no item is lost, and each key becomes its text.
-/

namespace FormFlow

/-- A value without a full JSON form. -/
inductive Loose where
  | plain (value : Json)
  | list (items : List Loose)
  | mapping (entries : List (Json × Loose))
  /-- Something of a type without a JSON form. -/
  | foreign (typeName : String)
deriving Inhabited

namespace Loose

/-! ## Keys -/

/-- The number that a key compares as: booleans are zero and one. -/
def number? : Json → Option Number
  | .num n => some n
  | .bool b => some (.int (if b then 1 else 0))
  | _ => none

/-- An integer and a float of equal value. -/
def sameValue (n : Int) (x : Float) : Bool :=
  match Decimal.Parts.ofFloat x with
  | .zero _ => n == 0
  | .finite negative m => decide (n < 0) == negative && m.scaled.cmp ⟨n.natAbs, 0, 0⟩ == .eq
  | .infinite _ | .notANumber => false

/-- Numbers of equal value. -/
def sameNumber : Number → Number → Bool
  | .int m, .int n => m == n
  | .float x, .float y => x == y
  | .int n, .float x | .float x, .int n => sameValue n x

/-- Plain values that are one key. -/
def sameKey (a b : Json) : Bool :=
  match number? a, number? b with
  | some m, some n => sameNumber m n
  | _, _ => a = b

/-- Write an entry: in place if its key is present, at the end if not. -/
def putEntry (key : Json) (value : Loose) : List (Json × Loose) → List (Json × Loose)
  | [] => [(key, value)]
  | (k, v) :: rest =>
    if sameKey k key then (k, value) :: rest else (k, v) :: putEntry key value rest

/-- The entries of a mapping from pairs in which keys may repeat. -/
def ofPairs (pairs : List (Json × Loose)) : Loose :=
  mapping (pairs.foldl (fun entries p => putEntry p.1 p.2 entries) [])

/-! ## JSON forms -/

/-- Why a value has no canonical form. -/
inductive FormError where
  | foreign (typeName : String)
  /-- A key has no text. -/
  | key (error : ValueError)
  | domain (error : Json.DomainError)
deriving DecidableEq

/-- The wording of a fault, if it does not fall to a value without a text. -/
def FormError.message : FormError → Except ValueError String
  | foreign typeName =>
    .ok s!"Cannot serialize type {typeName} to canonical JSON. Convert to a JSON-compatible type first."
  | key error => .error error
  | domain error => error.message

mutual
/-- The JSON form of a value, or the first fault. -/
def toJson : Loose → Except FormError Json
  | plain v => .ok v
  | list items => (itemsToJson items).map .arr
  | mapping entries => (entriesToJson entries).map fun members => .obj (Table.ofPairs members)
  | foreign typeName => .error (.foreign typeName)
/-- The JSON forms of items. -/
def itemsToJson : List Loose → Except FormError (List Json)
  | [] => .ok []
  | v :: items => do
    let first ← toJson v
    let rest ← itemsToJson items
    return first :: rest
/-- The members that entries become. -/
def entriesToJson : List (Json × Loose) → Except FormError (List (String × Json))
  | [] => .ok []
  | (k, v) :: entries => do
    let name ← k.display?.mapError .key
    let first ← toJson v
    let rest ← entriesToJson entries
    return (name, first) :: rest
end

theorem length_itemsToJson {items : List Loose} {vs : List Json} (h : itemsToJson items = .ok vs) :
    vs.length = items.length := by
  induction items generalizing vs with
  | nil =>
    simp only [itemsToJson, Except.ok.injEq] at h
    simp [← h]
  | cons v items ih =>
    rw [itemsToJson] at h
    cases hv : toJson v with
    | error e => simp [hv, bind, Except.bind] at h
    | ok first =>
      cases hrest : itemsToJson items with
      | error e => simp [hv, hrest, bind, Except.bind] at h
      | ok rest =>
        simp only [hv, hrest, bind, Except.bind, pure, Except.pure, Except.ok.injEq] at h
        simp [← h, ih hrest]

/-- Each key becomes its text, in order. -/
theorem keys_entriesToJson {entries : List (Json × Loose)} {members : List (String × Json)}
    (h : entriesToJson entries = .ok members) :
    members.map (·.1) = entries.map fun entry => entry.1.display := by
  induction entries generalizing members with
  | nil =>
    simp only [entriesToJson, Except.ok.injEq] at h
    simp [← h]
  | cons entry entries ih =>
    obtain ⟨k, v⟩ := entry
    rw [entriesToJson, Json.display?] at h
    split at h
    · change (do
        let first ← toJson v
        let rest ← entriesToJson entries
        return (k.display, first) :: rest) = Except.ok members at h
      cases hv : toJson v with
      | error e => simp [hv, bind, Except.bind] at h
      | ok first =>
        cases hrest : entriesToJson entries with
        | error e => simp [hv, hrest, bind, Except.bind] at h
        | ok rest =>
          simp only [hv, hrest, bind, Except.bind, pure, Except.pure, Except.ok.injEq] at h
          simp [← h, ih hrest]
    · cases h

/-- The canonical text of a value. -/
def canonicalText (v : Loose) : Except FormError String :=
  match v.toJson with
  | .error e => .error e
  | .ok v =>
    match v.canonicalText with
    | .ok text => .ok text
    | .error e => .error (.domain e)

end Loose

end FormFlow
