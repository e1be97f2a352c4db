import FormFlow.Proofs.MemberOrder
import FormFlow.Proofs.StrictReading

/-!
# Written values are spelled

In a style with legible strings and gaps, the text of a value spells the document of the value, if the style writes
each number inside it as a literal.

## Principal results

* `value_document` — a document whose literals write the numbers of a value has that value;
* `spelled_write` — what a value is written as is spelled, at any depth and in front of any text.
-/

namespace FormFlow.Json

open Grammar

/-! ## Values as they are read -/

namespace Points

theorem character_toNat (c : Char) : character c.toNat = c := by
  have hvalid : c.toNat < 0xD800 ∨ 0xDFFF < c.toNat ∧ c.toNat < 0x110000 := c.valid
  rw [character, if_neg (by omega), Char.ofNat_toNat]

/-- Characters are kept as code points. -/
@[simp] theorem text_ofString (s : String) : text (ofString s) = s := by
  have hsame : s.toList.map (character ∘ Char.toNat) = s.toList.map id :=
    List.map_congr_left fun c _ => character_toNat c
  rw [text, ofString, List.map_map, hsame, List.map_id, String.ofList_toList]

theorem ofString_injective : Function.Injective ofString := fun s t h => by
  rw [← text_ofString s, h, text_ofString]

end Points

namespace Reading

mutual
/-- A value as it is read: each string and name by its code points. -/
def ofJson : Json → Reading
  | .null => null
  | .bool b => bool b
  | .num n => num n
  | .str s => str (.ofString s)
  | .arr items => arr (ofItems items)
  | .obj members => obj (ofMembers members)
/-- Each item as it is read. -/
def ofItems : List Json → List Reading
  | [] => []
  | v :: items => ofJson v :: ofItems items
/-- Each member as it is read. -/
def ofMembers : List (String × Json) → List (Points × Reading)
  | [] => []
  | (k, v) :: members => (.ofString k, ofJson v) :: ofMembers members
end

theorem ofItems_eq (items : List Json) : ofItems items = items.map ofJson := by
  induction items with
  | nil => rfl
  | cons v items ih => rw [ofItems, ih, List.map_cons]

theorem ofMembers_eq (members : List (String × Json)) :
    ofMembers members = members.map fun m => (.ofString m.1, ofJson m.2) := by
  induction members with
  | nil => rfl
  | cons m members ih =>
    obtain ⟨k, v⟩ := m
    rw [ofMembers, ih, List.map_cons]

theorem itemsToJson_eq (items : List Reading) : itemsToJson items = items.map toJson := by
  induction items with
  | nil => rfl
  | cons r items ih => rw [itemsToJson, ih, List.map_cons]

theorem membersToJson_eq (members : List (Points × Reading)) :
    membersToJson members = members.map fun m => (m.1.text, m.2.toJson) := by
  induction members with
  | nil => rfl
  | cons m members ih =>
    obtain ⟨name, r⟩ := m
    rw [membersToJson, ih, List.map_cons]

/-- Names that differ have different code points. -/
theorem nodup_keys_ofMembers {members : List (String × Json)} (h : (Table.keys members).Nodup) :
    (Table.keys (members.map fun m => (Points.ofString m.1, ofJson m.2))).Nodup := by
  have hkeys := h.map Points.ofString_injective
  simpa only [Table.keys, List.map_map, Function.comp_def] using hkeys

/-- A value is kept as it is read. -/
theorem toJson_ofJson (v : Json) : (ofJson v).toJson = v := by
  induction v using valueInduction with
  | null | bool b | num n => rfl
  | str s => rw [ofJson, toJson, Points.text_ofString]
  | arr items ih =>
    have hsame : items.map (toJson ∘ ofJson) = items.map id := List.map_congr_left fun v hv => ih v hv
    rw [ofJson, toJson, ofItems_eq, itemsToJson_eq, List.map_map, hsame, List.map_id]
  | obj members ih =>
    have hsame : members.map ((fun m => (m.1.text, m.2.toJson)) ∘ fun m => (Points.ofString m.1, ofJson m.2)) =
        members.map id := List.map_congr_left fun m hm =>
      Prod.ext (Points.text_ofString m.1) (ih m hm)
    rw [ofJson, toJson, ofMembers_eq, membersToJson_eq, List.map_map, hsame, List.map_id]

end Reading

/-! ## Documents of values -/

section

variable (literal : Number → Literal)

mutual
/-- The document that a value is written as, with a literal for each number. -/
def document : Json → Document
  | null => .null
  | bool b => .bool b
  | num n => .num (literal n)
  | str s => .str (.ofString s)
  | arr items => .arr (documentItems items)
  | obj members => .obj (documentMembers members)
/-- The document of each item. -/
def documentItems : List Json → List Document
  | [] => []
  | v :: items => document v :: documentItems items
/-- The document of each member. -/
def documentMembers : List (String × Json) → List (Points × Document)
  | [] => []
  | (k, v) :: members => (.ofString k, document v) :: documentMembers members
end

theorem documentItems_eq (items : List Json) : documentItems literal items = items.map (document literal) := by
  induction items with
  | nil => rfl
  | cons v items ih => rw [documentItems, ih, List.map_cons]

theorem documentMembers_eq (members : List (String × Json)) :
    documentMembers literal members = members.map fun m => (.ofString m.1, document literal m.2) := by
  induction members with
  | nil => rfl
  | cons m members ih =>
    obtain ⟨k, v⟩ := m
    rw [documentMembers, ih, List.map_cons]

mutual
theorem literals_document : (v : Json) → (v.document literal).literals = v.numbers.map literal
  | null | bool _ | str _ | num _ => rfl
  | arr items => literals_documentItems items
  | obj members => literals_documentMembers members
theorem literals_documentItems : (items : List Json) →
    Document.literalsOfItems (documentItems literal items) = (numbersOfItems items).map literal
  | [] => rfl
  | v :: items => by
    rw [documentItems, Document.literalsOfItems, numbersOfItems, List.map_append, literals_document v,
      literals_documentItems items]
theorem literals_documentMembers : (members : List (String × Json)) →
    Document.literalsOfMembers (documentMembers literal members) = (numbersOfMembers members).map literal
  | [] => rfl
  | (k, v) :: members => by
    rw [documentMembers, Document.literalsOfMembers, numbersOfMembers, List.map_append, literals_document v,
      literals_documentMembers members]
end

end

section

variable {literal : Number → Literal} {v : Json}

theorem short_document (h : ∀ n ∈ v.numbers, (literal n).Short) : (v.document literal).Short := by
  unfold Document.Short
  rw [literals_document]
  exact List.forall_mem_map.2 h

/-- **A document whose literals write the numbers of a value is read as that value**, if the value repeats no
key. -/
theorem value_document (hkeys : v.Distinct) (h : ∀ n ∈ v.numbers, (literal n).number = n) :
    (v.document literal).value = .ofJson v := by
  induction v using valueInduction with
  | null | bool b | str s => rfl
  | num n => exact congrArg Reading.num (h n (List.mem_singleton_self n))
  | arr items ih =>
    have hsame : items.map (Document.value ∘ document literal) = items.map Reading.ofJson :=
      List.map_congr_left fun v hv => ih v hv (hkeys.of_mem_items hv) (forall_numbers_arr.1 h v hv)
    rw [document, Document.value, Document.valueItems_eq, documentItems_eq, List.map_map, hsame, Reading.ofJson,
      Reading.ofItems_eq]
  | obj members ih =>
    obtain ⟨hnodup, hmembers⟩ := distinct_obj_iff.1 hkeys
    have hsame : members.map ((fun m => (m.1, m.2.value)) ∘ fun m => (Points.ofString m.1, document literal m.2)) =
        members.map fun m => (Points.ofString m.1, Reading.ofJson m.2) := List.map_congr_left fun m hm =>
      Prod.ext rfl (ih m hm (hmembers m hm) (forall_numbers_obj.1 h m hm))
    rw [document, Document.value, Document.valueMembers_eq, documentMembers_eq, List.map_map, hsame, Reading.ofJson,
      Reading.ofMembers_eq, Table.ofPairs_eq_self (Reading.nodup_keys_ofMembers hnodup)]

end

/-! ## Texts of values -/

/-- A style writes a number as its literal. -/
def Style.Writes (style : Style) (literal : Number → Literal) (n : Number) : Prop :=
  write style 0 (.num n) = (literal n).source

theorem write_num (style : Style) (depth : Nat) (n : Number) :
    write style depth (.num n) = write style 0 (.num n) := by
  cases n <;> rfl

/-- The letters of a string in a legible style. -/
theorem exists_letters_string {style : Style} (h : style.Legible) (s : String) (rest : List Char) :
    ∃ body ls, style.string s ++ rest = '"' :: body ∧ Letters body ls rest ∧ decode ls = .ofString s := by
  obtain ⟨body, hbody, hread⟩ := readString_string h s rest
  obtain ⟨ls, hletters, hs⟩ := exists_letters hread
  exact ⟨body, ls, hbody, hletters, hs.symm⟩

/-- What stands behind the first item of an array, and behind the array. -/
def itemsTail (style : Style) (depth : Nat) (items : List Json) (rest : List Char) : List Char :=
  writeItems style (depth + 1) items ++ (style.inside depth ++ ']' :: rest)

/-- What stands behind the first member of an object, and behind the object. -/
def membersTail (style : Style) (depth : Nat) (members : List (String × Json)) (rest : List Char) : List Char :=
  writeMembers style (depth + 1) members ++ (style.inside depth ++ '}' :: rest)

section

variable {style : Style} {literal : Number → Literal} {depth : Nat} {rest : List Char} {k : String} {v : Json}
  {items : List Json} {members : List (String × Json)}

theorem itemsTail_nil : itemsTail style depth [] rest = style.inside depth ++ ']' :: rest := rfl

theorem membersTail_nil : membersTail style depth [] rest = style.inside depth ++ '}' :: rest := rfl

theorem itemsTail_cons : itemsTail style depth (v :: items) rest =
    ',' :: (style.afterComma (depth + 1) ++
      (write style (depth + 1) v ++ itemsTail style depth items rest)) := by
  simp only [itemsTail, writeItems, List.cons_append, List.append_assoc]

theorem membersTail_cons : membersTail style depth ((k, v) :: members) rest =
    ',' :: (style.afterComma (depth + 1) ++ (style.string k ++ ':' :: (style.afterColon ++
      (write style (depth + 1) v ++ membersTail style depth members rest)))) := by
  simp only [membersTail, writeMembers, List.cons_append, List.append_assoc]

theorem write_arr_append : write style depth (arr (v :: items)) ++ rest =
    '[' :: (style.inside (depth + 1) ++ (write style (depth + 1) v ++ itemsTail style depth items rest)) := by
  simp only [itemsTail, write, List.cons_append, List.append_assoc, List.nil_append]

theorem write_obj_append : write style depth (obj ((k, v) :: members)) ++ rest =
    '{' :: (style.inside (depth + 1) ++ (style.string k ++ ':' :: (style.afterColon ++
      (write style (depth + 1) v ++ membersTail style depth members rest)))) := by
  simp only [membersTail, write, List.cons_append, List.append_assoc, List.nil_append]

/-- A value is spelled as its document, at any depth and in front of any text. -/
def Spelled (style : Style) (literal : Number → Literal) (v : Json) : Prop :=
  ∀ depth rest, Value (write style depth v ++ rest) (v.document literal) rest

theorem items_spelled (h : style.Legible) (hspelled : ∀ w ∈ v :: items, Spelled style literal w) :
    Items (write style (depth + 1) v ++ itemsTail style depth items rest)
      (documentItems literal (v :: items)) rest := by
  induction items generalizing v with
  | nil => exact .last (hspelled v (List.mem_cons_self ..) _ _) ⟨_, h.inside depth, rfl⟩
  | cons w items ih =>
    obtain ⟨hv, hspelled⟩ := List.forall_mem_cons.1 hspelled
    rw [itemsTail_cons]
    exact .more (hv _ _) ⟨[], List.forall_mem_nil _, rfl⟩ ⟨_, h.afterComma _, rfl⟩ (ih hspelled)

theorem member_spelled (h : style.Legible) (hv : Spelled style literal v) :
    Member (style.string k ++ ':' :: (style.afterColon ++ (write style depth v ++ rest)))
      (.ofString k, v.document literal) rest := by
  obtain ⟨body, ls, hbody, hletters, hname⟩ := exists_letters_string h k
    (':' :: (style.afterColon ++ (write style depth v ++ rest)))
  rw [hbody, ← hname]
  exact .mk hletters ⟨[], List.forall_mem_nil _, rfl⟩ ⟨_, h.afterColon, rfl⟩ (hv _ _)

theorem members_spelled (h : style.Legible) (hspelled : ∀ m ∈ (k, v) :: members, Spelled style literal m.2) :
    Members (style.string k ++ ':' :: (style.afterColon ++
        (write style (depth + 1) v ++ membersTail style depth members rest)))
      (documentMembers literal ((k, v) :: members)) rest := by
  induction members generalizing k v with
  | nil => exact .last (member_spelled h (hspelled (k, v) (List.mem_cons_self ..))) ⟨_, h.inside depth, rfl⟩
  | cons m members ih =>
    obtain ⟨hv, hspelled⟩ := List.forall_mem_cons.1 hspelled
    rw [membersTail_cons]
    exact .more (member_spelled h hv) ⟨[], List.forall_mem_nil _, rfl⟩ ⟨_, h.afterComma _, rfl⟩ (ih hspelled)

/-- **What a value is written as is spelled**, if each number inside it is written as a literal. -/
theorem spelled_write (h : style.Legible) (hnumbers : ∀ n ∈ v.numbers, style.Writes literal n) :
    Spelled style literal v := by
  induction v using valueInduction with
  | null => exact fun _ _ => .nullWord
  | bool b => cases b <;> intro depth rest <;> constructor
  | num n =>
    intro depth rest
    rw [write_num, hnumbers n (List.mem_singleton_self n)]
    exact .number (literal n)
  | str s =>
    intro depth rest
    obtain ⟨body, ls, hbody, hletters, heq⟩ := exists_letters_string h s rest
    rw [write, hbody, document, ← heq]
    exact .string hletters
  | arr items ih =>
    intro depth rest
    replace ih := fun v hv => ih v hv (forall_numbers_arr.1 hnumbers v hv)
    cases items with
    | nil => exact .emptyArray ⟨[], List.forall_mem_nil _, rfl⟩
    | cons v items =>
      rw [write_arr_append]
      exact .array ⟨_, h.inside _, rfl⟩ (items_spelled h ih)
  | obj members ih =>
    intro depth rest
    replace ih := fun m hm => ih m hm (forall_numbers_obj.1 hnumbers m hm)
    cases members with
    | nil => exact .emptyObject ⟨[], List.forall_mem_nil _, rfl⟩
    | cons m members =>
      obtain ⟨k, v⟩ := m
      rw [write_obj_append]
      exact .object ⟨_, h.inside _, rfl⟩ (members_spelled h ih)

end

end FormFlow.Json
