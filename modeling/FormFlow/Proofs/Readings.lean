import FormFlow.App.Reading

/-!
# What readings make

A reading of a value is put together from readings of what the value holds.  So what is known of values and
passes to what they hold is known wherever a part is read.  `Keeps` says that a reading makes only results of
a kind from such values, and has a rule for each way in which readings are put together.

A reading that refuses a value says why: `Tells` says that there is always a result or an issue, and has the
same rules.

## Principal results

* `Keeps.model`, `Keeps.list`, `Keeps.tagged`, `Keeps.required` — the rules;
* `App.ofJson_keepsNodes` — what all nodes of an application have in common that is read;
* `App.ofJson_tells` — a value that is not read as an application has an issue.
-/

namespace FormFlow

namespace Schema

variable {α β : Type}

/-! ## Kinds of results -/

/-- What is known of a value is known of what it holds. -/
structure Hereditary (Q : Json → Prop) : Prop where
  item : ∀ {items : List Json} {v : Json}, Q (.arr items) → v ∈ items → Q v
  member : ∀ {members : Table Json} {m : String × Json}, Q (.obj members) → m ∈ members → Q m.2

theorem Hereditary.distinct : Hereditary Json.Distinct where
  item := Json.Distinct.of_mem_items
  member {_ m} h hm := h.of_mem (k := m.1) hm

theorem Hereditary.any : Hereditary fun _ => True := ⟨fun _ _ => trivial, fun _ _ => trivial⟩

theorem Hereditary.field {Q : Json → Prop} (hQ : Hereditary Q) {members : Table Json}
    {name second : String} {v : Json} (h : Q (.obj members)) (hv : field? members name second = some v) :
    Q v := by
  unfold field? at hv
  split at hv
  · rename_i w hname
    cases hv
    exact hQ.member h (Table.mem_of_get? hname)
  · exact hQ.member h (Table.mem_of_get? hv)

/-- From values of which `Q` is known a reading makes only results of a kind. -/
def Keeps (Q : Json → Prop) (read : Json → Checked α) (P : α → Prop) : Prop :=
  ∀ v a, Q v → read v = .ok a → P a

/-- The same of a reading of members. -/
def KeepsMembers (Q : Json → Prop) (read : Table Json → Checked α) (P : α → Prop) : Prop :=
  ∀ members a, Q (.obj members) → read members = .ok a → P a

namespace Keeps

variable {Q : Json → Prop} {read : Json → Checked α} {P : α → Prop}

theorem required (h : Keeps Q read P) (hQ : Hereditary Q) {members : Table Json}
    (hmembers : Q (.obj members)) {name second : String} {a : α}
    (ha : Schema.required members name second read = .ok a) : P a := by
  obtain ⟨v, hv, hread⟩ := required_ok_iff.1 ha
  exact h v a (hQ.field hmembers hv) hread

theorem defaulted (h : Keeps Q read P) (hQ : Hereditary Q) {members : Table Json}
    (hmembers : Q (.obj members)) {name second : String} {default a : α} (hdefault : P default)
    (ha : Schema.defaulted members name second default read = .ok a) : P a := by
  unfold Schema.defaulted at ha
  split at ha
  · rename_i v hv
    exact h v a (hQ.field hmembers hv) (Checked.under_ok_iff.1 ha)
  · cases ha
    exact hdefault

/-- What a field that may be absent holds was read from a value other than null. -/
theorem optional (h : Keeps Q read P) (hQ : Hereditary Q) {members : Table Json}
    (hmembers : Q (.obj members)) {name second : String} {found : Option α}
    (ha : Schema.optional members name second read = .ok found) : ∀ a ∈ found, P a := by
  unfold Schema.optional at ha
  split at ha
  · cases ha
    simp
  · cases ha
    simp
  · rename_i v _ hv
    obtain ⟨a, hread, rfl⟩ := Checked.map_ok_iff.1 (Checked.under_ok_iff.1 ha)
    simpa using h v a (hQ.field hmembers hv) hread

theorem model {read : Table Json → Checked α} (h : KeepsMembers Q read P) (typeName : String) :
    Keeps Q (readModel typeName read) P := by
  intro v a hv hread
  obtain ⟨members, rfl, hmembers⟩ := readModel_ok_iff.1 hread
  exact h members a hv hmembers

theorem list (h : Keeps Q read P) (hQ : Hereditary Q) : Keeps Q (readList read) fun as => ∀ a ∈ as, P a := by
  intro v as hv hread a ha
  cases v with
  | arr items =>
    have hitems : items.map read = as.map .ok := Checked.each_ok_iff.1 hread
    have hmem : Checked.ok a ∈ items.map read := hitems ▸ List.mem_map_of_mem ha
    obtain ⟨item, hitem, hok⟩ := List.mem_map.1 hmem
    exact h item a (hQ.item hv hitem) hok
  | _ => cases hread

theorem nonEmptyList (h : Keeps Q read P) (hQ : Hereditary Q) :
    Keeps Q (readNonEmptyList read) fun as => as ≠ [] ∧ ∀ a ∈ as, P a := by
  intro v as hv hread
  obtain ⟨items, hitems, hne⟩ := Checked.andThen_ok_iff.1 hread
  refine ⟨readNonEmptyList_ne_nil hread, ?_⟩
  split at hne
  · cases hne
  · cases hne
    exact h.list hQ v as hv hitems

theorem mapping (h : Keeps Q read P) (hQ : Hereditary Q) :
    Keeps Q (readMapping read) fun t => ∀ e ∈ t, P e.2 := by
  intro v t hv hread e he
  cases v with
  | obj members =>
    have hmem := Checked.eachMember_ok_iff.1 hread ▸
      List.mem_map_of_mem (f := fun e : String × α => (e.1, Checked.ok e.2)) he
    obtain ⟨m, hm, hok⟩ := List.mem_map.1 hmem
    exact h m.2 e.2 (hQ.member hv hm) (Prod.mk.inj hok).2
  | _ => cases hread

theorem freeMapping : Keeps Q readFreeMapping fun t => Q (.obj t) := by
  intro v t hv hread
  cases v with
  | obj members =>
    cases hread
    exact hv
  | _ => cases hread

theorem tagged {variants : List (String × (Table Json → Checked α))}
    (h : ∀ variant ∈ variants, KeepsMembers Q variant.2 P) (discriminator : String) :
    Keeps Q (readTagged discriminator variants) P := by
  intro v a hv hread
  obtain ⟨members, tag, read, rfl, -, hvariant, hok⟩ := readTagged_ok_iff.1 hread
  exact h _ (Table.mem_of_get? hvariant) members a hv hok

end Keeps

/-! ## Refusals -/

/-- A reading has a result or an issue. -/
def Checked.Told : Checked α → Prop
  | .ok _ => True
  | .issues found => found ≠ []

namespace Checked

@[simp] theorem told_ok (a : α) : (ok a).Told := trivial

@[simp] theorem told_fail (problem : Problem) : (fail problem : Checked α).Told := List.cons_ne_nil _ _

theorem Told.under {x : Checked α} (h : x.Told) (step : PathStep) : (x.under step).Told := by
  cases x with
  | ok a => trivial
  | issues found => exact fun heq => h (List.map_eq_nil_iff.1 heq)

theorem Told.map {x : Checked α} (h : x.Told) (f : α → β) : (x.map f).Told := by
  cases x with
  | ok a => trivial
  | issues found => exact h

theorem Told.fmap {x : Checked α} (h : x.Told) (f : α → β) : (f <$> x).Told := h.map f

theorem Told.ap {f : Checked (α → β)} {x : Checked α} (hf : f.Told) (hx : x.Told) : (f.ap x).Told := by
  cases f <;> cases x
  · trivial
  · exact hx
  · exact hf
  · exact fun heq => hf (List.append_eq_nil_iff.1 heq).1

theorem Told.seq {f : Checked (α → β)} {x : Checked α} (hf : f.Told) (hx : x.Told) : (f <*> x).Told :=
  hf.ap hx

theorem Told.andThen {x : Checked α} {f : α → Checked β} (hx : x.Told) (hf : ∀ a, (f a).Told) :
    (x.andThen f).Told := by
  cases x with
  | ok a => exact hf a
  | issues found => exact hx

theorem told_each {read : α → Checked β} (h : ∀ a, (read a).Told) (start : Nat) (as : List α) :
    (each read start as).Told := by
  induction as generalizing start with
  | nil => trivial
  | cons a as ih => exact (((h a).under _).map _).ap (ih _)

theorem told_eachMember {read : α → Checked β} (h : ∀ a, (read a).Told) (members : List (String × α)) :
    (eachMember read members).Told := by
  induction members with
  | nil => trivial
  | cons m members ih => exact (((h m.2).under _).map _).ap ih

end Checked

/-- A reading has a result or an issue for every value. -/
def Tells (read : Json → Checked α) : Prop := ∀ v, (read v).Told

namespace Tells

variable {read : Json → Checked α}

theorem required (h : Tells read) (members : Table Json) (name second : String) :
    (Schema.required members name second read).Told := by
  unfold Schema.required
  refine Checked.Told.under ?_ _
  cases field? members name second with
  | some v => exact h v
  | none => exact Checked.told_fail _

theorem defaulted (h : Tells read) (members : Table Json) (name second : String) (default : α) :
    (Schema.defaulted members name second default read).Told := by
  unfold Schema.defaulted
  cases field? members name second with
  | some v => exact (h v).under _
  | none => trivial

theorem optional (h : Tells read) (members : Table Json) (name second : String) :
    (Schema.optional members name second read).Told := by
  unfold Schema.optional
  split
  · trivial
  · trivial
  · rename_i v _ _
    exact ((h v).map _).under _

theorem model {read : Table Json → Checked α} (h : ∀ members, (read members).Told) (typeName : String) :
    Tells (readModel typeName read) := by
  intro v
  cases v with
  | obj members => exact h members
  | _ => exact Checked.told_fail _

theorem list (h : Tells read) : Tells (readList read) := by
  intro v
  cases v with
  | arr items => exact Checked.told_each h 0 items
  | _ => exact Checked.told_fail _

theorem nonEmptyList (h : Tells read) : Tells (readNonEmptyList read) := by
  intro v
  refine (h.list v).andThen fun items => ?_
  split
  · exact Checked.told_fail _
  · trivial

theorem mapping (h : Tells read) : Tells (readMapping read) := by
  intro v
  cases v with
  | obj members => exact Checked.told_eachMember h members
  | _ => exact Checked.told_fail _

theorem freeMapping : Tells readFreeMapping := by
  intro v
  cases v with
  | obj members => trivial
  | _ => exact Checked.told_fail _

theorem word (words : List (String × α)) : Tells (readWord words) := by
  intro v
  unfold readWord
  split
  · split
    · trivial
    · exact Checked.told_fail _
  · exact Checked.told_fail _

theorem tagged {variants : List (String × (Table Json → Checked α))}
    (h : ∀ variant ∈ variants, ∀ members, (variant.2 members).Told) (discriminator : String) :
    Tells (readTagged discriminator variants) := by
  intro v
  unfold readTagged
  split
  · split
    · exact Checked.told_fail _
    · dsimp only
      split
      · split
        · rename_i read hread
          exact (h _ (Table.mem_of_get? hread) _).under _
        · exact Checked.told_fail _
      · exact Checked.told_fail _
  · exact Checked.told_fail _

end Tells

end Schema

open Schema

/-! ## Scalars -/

theorem readString_tells : Tells readString := by
  intro v
  unfold readString
  split <;> simp

theorem readText_tells : Tells readText :=
  fun v => (readString_tells v).andThen fun _ => by split <;> simp

theorem integerOfText_told (s : String) : (integerOfText s).Told := by
  unfold integerOfText
  dsimp only
  split
  · split <;> simp
  · simp

theorem integerOfFloat_told (x : Float) : (integerOfFloat x).Told := by
  unfold integerOfFloat
  split
  · split
    · split <;> simp
    · simp
  · simp

theorem readInteger_tells : Tells readInteger := by
  intro v
  unfold readInteger
  split <;> simp [integerOfText_told, integerOfFloat_told]

theorem readCount_tells : Tells readCount :=
  fun v => (readInteger_tells v).andThen fun _ => by split <;> simp

theorem readPositive_tells : Tells readPositive :=
  fun v => (readInteger_tells v).andThen fun _ => by split <;> simp

theorem numberOfText_told (s : String) : (numberOfText s).Told := by
  unfold numberOfText
  dsimp only
  split
  · simp
  · split
    · simp
    · split <;> simp

theorem readNumber_tells : Tells readNumber := by
  intro v
  unfold readNumber
  split <;> simp [numberOfText_told]
  split <;> simp

theorem readTemperature_tells : Tells readTemperature := by
  refine fun v => (readNumber_tells v).andThen fun x => ?_
  split
  · simp
  · split <;> simp

theorem booleanOfInteger_told (n : Int) : (booleanOfInteger n).Told := by
  unfold booleanOfInteger
  split
  · simp
  · split
    · simp
    · split <;> simp

theorem readBoolean_tells : Tells readBoolean := by
  intro v
  unfold readBoolean
  split
  · simp
  · exact booleanOfInteger_told _
  · split <;> simp [booleanOfInteger_told]
  · unfold booleanOfText
    split <;> simp
  · simp

/-! ## Applications -/

theorem readShape_tells (typeName : String) : Tells (readShape typeName) :=
  .model (fun m => ((Tells.word _).required m _ _ |>.fmap _).seq (Tells.freeMapping.required m _ _)) _

theorem readStateField_tells : Tells readStateField := by
  have hprimitive (kind : PrimitiveKind) (m : Table Json) : (readPrimitive kind m).Told :=
    ((((readString_tells.optional m _ _).fmap _).seq (readString_tells.list.optional m _ _)).seq
      (readCount_tells.optional m _ _)).seq (readCount_tells.optional m _ _)
  refine .tagged (fun variant hvariant m => ?_) "type"
  simp only [List.mem_cons, List.not_mem_nil, or_false] at hvariant
  rcases hvariant with rfl | rfl | rfl | rfl
  · exact hprimitive .string m
  · exact hprimitive .number m
  · exact hprimitive .boolean m
  · exact ((readString_tells.optional m _ _).fmap _).seq ((readShape_tells _).required m _ _)

theorem readTextAreaProps_tells : Tells readTextAreaProps :=
  .model (fun m => ((readBoolean_tells.optional m _ _).fmap _).seq (readPositive_tells.optional m _ _)) _

theorem readComponent_tells : Tells readComponent := by
  refine .tagged (fun variant hvariant m => ?_) "type"
  simp only [List.mem_cons, List.not_mem_nil, or_false] at hvariant
  have hhead {α : Type} (f : String → String → α) :
      (f <$> required m "id" "id" readText <*> required m "label" "label" readText).Told :=
    ((readText_tells.required m _ _).fmap _).seq (readText_tells.required m _ _)
  rcases hvariant with rfl | rfl | rfl
  · exact ((hhead _).seq (readText_tells.required m _ _)).seq (readTextAreaProps_tells.defaulted m _ _ _)
  · exact (hhead _).seq (readString_tells.mapping.defaulted m _ _ _)
  · exact (hhead _).seq (readText_tells.required m _ _)

theorem readPromptSpec_tells : Tells readPromptSpec := by
  have hpolicy : Tells readPolicy :=
    .model (fun m => (((Tells.word _).required m _ _ |>.fmap _).seq (readText_tells.required m _ _)).seq
      (readTemperature_tells.optional m _ _)) _
  exact .model (fun m => ((((readText_tells.required m _ _).fmap _).seq
    (readText_tells.list.defaulted m _ _ _)).seq (hpolicy.required m _ _)).seq
      ((readShape_tells _).required m _ _)) _

theorem readNode_tells : Tells readNode := by
  have hinput : Tells readValidateInput := .model (fun m => readText_tells.nonEmptyList.required m _ _) _
  refine .tagged (fun variant hvariant m => ?_) "kind"
  simp only [List.mem_cons, List.not_mem_nil, or_false] at hvariant
  have hid {α : Type} (f : String → α) : (f <$> required m "id" "id" readText).Told :=
    (readText_tells.required m _ _).fmap _
  rcases hvariant with rfl | rfl | rfl
  · exact (hid _).seq (hinput.required m _ _)
  · exact (hid _).seq (readPromptSpec_tells.required m _ _)
  · exact (hid _).seq (readString_tells.mapping.required m _ _)

theorem readEvent_tells : Tells readEvent := by
  have hedge : Tells readEdge :=
    .model (fun m => ((readText_tells.required m _ _).fmap _).seq (readText_tells.required m _ _)) _
  have hgraph : Tells readGraph :=
    .model (fun m => ((readNode_tells.nonEmptyList.required m _ _).fmap _).seq
      (hedge.list.required m _ _)) _
  have htrigger : Tells readTrigger :=
    .model (fun m => ((readText_tells.required m _ _).fmap _).seq ((Tells.word _).required m _ _)) _
  exact .model (fun m => (((readText_tells.required m _ _).fmap _).seq (htrigger.required m _ _)).seq
    (hgraph.required m _ _)) _

/-- **A value that is not read as an application has an issue.** -/
theorem App.ofJson_tells : Tells App.ofJson := by
  have hlayout : Tells readLayout := .model (fun m => readComponent_tells.nonEmptyList.required m _ _) _
  exact .model (fun m => (((((readText_tells.required m _ _).fmap _).seq
    (readText_tells.required m _ _)).seq (hlayout.required m _ _)).seq
      (readStateField_tells.mapping.required m _ _)).seq (readEvent_tells.list.required m _ _)) _

/-- What is known of a value is known of a shape in it. -/
theorem readShape_keeps {Q : Json → Prop} (hQ : Hereditary Q) (typeName : String) :
    Keeps Q (readShape typeName) fun shape => Q (.obj shape) := by
  refine .model (fun members shape hmembers hread => ?_) typeName
  simp only [Checked.seq_ok_iff, Checked.fmap_ok_iff] at hread
  obtain ⟨_, _, ⟨_, _, rfl⟩, hshape, rfl⟩ := hread
  exact Keeps.freeMapping.required hQ hmembers hshape

/-- What is so of every node that is read is so of all nodes of an application that is read. -/
theorem App.ofJson_keepsNodes {Q : Json → Prop} (hQ : Hereditary Q) {P : Node → Prop}
    (h : Keeps Q readNode P) :
    Keeps Q App.ofJson fun app => ∀ e ∈ app.events, ∀ node ∈ e.graph.nodes, P node := by
  have hgraph : Keeps Q readGraph fun g => ∀ node ∈ g.nodes, P node := by
    refine .model (fun members g hmembers hread => ?_) "ActionGraph"
    simp only [Checked.seq_ok_iff, Checked.fmap_ok_iff] at hread
    obtain ⟨_, _, ⟨nodes, hnodes, rfl⟩, _, rfl⟩ := hread
    exact ((h.nonEmptyList hQ).required hQ hmembers hnodes).2
  have hevent : Keeps Q readEvent fun e => ∀ node ∈ e.graph.nodes, P node := by
    refine .model (fun members e hmembers hread => ?_) "EventDefinition"
    simp only [Checked.seq_ok_iff, Checked.fmap_ok_iff] at hread
    obtain ⟨_, _, ⟨_, _, ⟨_, _, rfl⟩, _, rfl⟩, hgraphs, rfl⟩ := hread
    exact hgraph.required hQ hmembers hgraphs
  refine .model (fun members app hmembers hread => ?_) "AppDefinition"
  simp only [Checked.seq_ok_iff, Checked.fmap_ok_iff] at hread
  obtain ⟨_, _, ⟨_, _, ⟨_, _, ⟨_, _, ⟨_, _, rfl⟩, _, rfl⟩, _, rfl⟩, _, rfl⟩, hevents, rfl⟩ := hread
  exact (hevent.list hQ).required hQ hmembers hevents

end FormFlow
