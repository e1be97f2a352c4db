import FormFlow.Proofs.NumbersInside
import FormFlow.Proofs.Readings

/-!
# Reading back what is written

An application that was read is written with its fields under their first names, without what is absent, and
with values in one form where a reading accepts several.  Reading that again gives the same application.
`RoundTrips` says so of a reading and a writing, for what is read from values with finite numbers, and has a
rule for each way in which readings are put together.

## Principal results

* `RoundTrips.list`, `RoundTrips.mapping`, `RoundTrips.tagged`, `RoundTrips.model` — the rules;
* `required_written`, `optional_written` — a field is read again from where it is written;
* `App.ofJson_toJson` — what is written of an application is read as that application.
-/

namespace FormFlow

namespace Schema

variable {α β : Type}

theorem Hereditary.finite : Hereditary Json.Finite := ⟨Json.Finite.of_mem_items, Json.Finite.of_mem⟩

/-! ## Rules -/

/-- What is read from a value with finite numbers is read again from what is written of it. -/
def RoundTrips (read : Json → Checked α) (write : α → Json) : Prop :=
  Keeps Json.Finite read fun a => read (write a) = .ok a

/-- The same of a reading of members. -/
def RoundTripsMembers (read : Table Json → Checked α) (write : α → Json) : Prop :=
  KeepsMembers Json.Finite read fun a => ∃ written, write a = .obj written ∧ read written = .ok a

theorem required_written {members : Table Json} {name second : String} {read : Json → Checked α}
    {v : Json} {a : α} (hwritten : members.get? name = some v) (h : read v = .ok a) :
    required members name second read = .ok a :=
  required_ok_iff.2 ⟨v, field?_of_name hwritten, h⟩

theorem defaulted_written {members : Table Json} {name second : String} {default : α}
    {read : Json → Checked α} {v : Json} {a : α} (hwritten : members.get? name = some v)
    (h : read v = .ok a) : defaulted members name second default read = .ok a := by
  unfold defaulted
  rw [field?_of_name hwritten]
  exact Checked.under_ok_iff.2 h

/-- A field that may be absent is read again, if no member has its second name and nothing is written as
null. -/
theorem optional_written {members : Table Json} {name second : String} {read : Json → Checked α}
    {write : α → Json} {found : Option α} (hwritten : members.get? name = found.map write)
    (hsecond : found = none → members.get? second = none) (hnull : ∀ a, write a ≠ .null)
    (h : ∀ a ∈ found, read (write a) = .ok a) : optional members name second read = .ok found := by
  cases found with
  | none => simp [optional, field?, hwritten, hsecond rfl]
  | some a =>
    have hread := h a rfl
    have hnull := hnull a
    unfold optional
    rw [field?_of_name hwritten]
    cases hvalue : write a with
    | null => exact absurd hvalue hnull
    | _ =>
      rw [hvalue] at hread
      simp [hread, Checked.map, Checked.under]

namespace RoundTrips

variable {read : Json → Checked α} {write : α → Json}

theorem model {read : Table Json → Checked α} (h : RoundTripsMembers read write) (typeName : String) :
    RoundTrips (readModel typeName read) write := by
  refine Keeps.model (fun members a hmembers hread => ?_) typeName
  obtain ⟨written, hwritten, hagain⟩ := h members a hmembers hread
  rw [hwritten]
  exact hagain

theorem readList_written {as : List α} (h : ∀ a ∈ as, read (write a) = .ok a) :
    readList read (.arr (as.map write)) = .ok as := by
  refine Checked.each_ok_iff.2 ?_
  rw [List.map_map]
  exact List.map_congr_left h

theorem list (h : RoundTrips read write) : RoundTrips (readList read) fun as => .arr (as.map write) :=
  fun v as hv hread => readList_written (Keeps.list h .finite v as hv hread)

theorem nonEmptyList (h : RoundTrips read write) :
    RoundTrips (readNonEmptyList read) fun as => .arr (as.map write) := by
  intro v as hv hread
  obtain ⟨hne, has⟩ := Keeps.nonEmptyList h .finite v as hv hread
  refine Checked.andThen_ok_iff.2 ⟨as, readList_written has, ?_⟩
  rw [if_neg (by simpa using hne)]

theorem mapping (h : RoundTrips read write) :
    RoundTrips (readMapping read) fun t => .obj (t.map fun e => (e.1, write e.2)) := by
  intro v t hv hread
  have ht := Keeps.mapping h .finite v t hv hread
  refine Checked.eachMember_ok_iff.2 ?_
  rw [List.map_map]
  exact List.map_congr_left fun e he => congrArg (e.1, ·) (ht e he)

/-- A variant is read again if it is written as an object with its tag. -/
theorem tagged {discriminator : String} {variants : List (String × (Table Json → Checked α))}
    (h : ∀ variant ∈ variants, KeepsMembers Json.Finite variant.2 fun a =>
      ∃ written, write a = .obj written ∧
        Table.get? written discriminator = some (.str variant.1) ∧ variant.2 written = .ok a) :
    RoundTrips (readTagged discriminator variants) write := by
  intro v a hv hread
  obtain ⟨members, tag, read, rfl, -, hvariant, hok⟩ := readTagged_ok_iff.1 hread
  obtain ⟨written, hwritten, htag, hagain⟩ := h _ (Table.mem_of_get? hvariant) members a hv hok
  exact readTagged_ok_iff.2 ⟨written, tag, read, hwritten, htag, hvariant, hagain⟩

/-! ## Scalars -/

theorem string : RoundTrips readString .str := by
  intro v s _ hread
  rfl

theorem strings : RoundTrips (readList readString) Json.ofStrings := string.list

theorem text : RoundTrips readText .str := by
  intro v s _ hread
  obtain ⟨rfl, hne⟩ := readText_ok_iff.1 hread
  exact hread

theorem word (words : List (String × α)) (write : α → String)
    (h : ∀ entry ∈ words, Table.get? words (write entry.2) = some entry.2) :
    RoundTrips (readWord words) fun a => .str (write a) := by
  intro v a _ hread
  unfold readWord at hread
  split at hread
  · split at hread
    · rename_i hfound
      cases hread
      have hagain := h _ (Table.mem_of_get? hfound)
      dsimp only at hagain
      simp only [readWord, hagain]
    · cases hread
  · cases hread

theorem count : RoundTrips readCount .ofNat := by
  intro v n _ hread
  have hcast : ¬ (n : Int) < 0 := by omega
  refine Checked.andThen_ok_iff.2 ⟨n, rfl, ?_⟩
  rw [if_neg hcast, Int.toNat_natCast]

theorem positive : RoundTrips readPositive .ofNat := by
  intro v n _ hread
  obtain ⟨i, _, hi⟩ := Checked.andThen_ok_iff.1 hread
  have hpos : ¬ (n : Int) ≤ 0 := by
    split at hi
    · cases hi
    · cases hi
      omega
  refine Checked.andThen_ok_iff.2 ⟨n, rfl, ?_⟩
  rw [if_neg hpos, Int.toNat_natCast]

theorem boolean : RoundTrips readBoolean .bool := by
  intro v b _ hread
  rfl

theorem temperature : RoundTrips readTemperature .ofFloat := by
  intro v x _ hread
  obtain ⟨y, _, hy⟩ := Checked.andThen_ok_iff.1 hread
  have hxy : y = x := by
    split at hy
    · cases hy
    · split at hy
      · cases hy
      · cases hy
        rfl
  rw [hxy] at hy
  exact hy

end RoundTrips

end Schema

open Schema Json

/-! ## State fields -/

theorem readShape_roundTrips (typeName : String) : RoundTrips (readShape typeName) shapeJson := by
  refine .model (fun members shape hmembers hread => ⟨_, rfl, ?_⟩) typeName
  simp only [Checked.seq_ok_iff, Checked.fmap_ok_iff] at hread ⊢
  obtain ⟨_, _, ⟨_, _, rfl⟩, hshape, rfl⟩ := hread
  have hfinite := Keeps.freeMapping.required .finite hmembers hshape
  rw [finiteMembers_of_finite hfinite]
  exact ⟨_, _, ⟨(), required_written rfl rfl, rfl⟩, required_written rfl rfl, rfl⟩

theorem readPrimitive_roundTrips (kind : PrimitiveKind) :
    KeepsMembers Json.Finite (readPrimitive kind) fun field =>
      ∃ written, field.toJson = .obj written ∧ Table.get? written "type" = some (.str kind.text) ∧
        readPrimitive kind written = .ok field := by
  intro members field hmembers hread
  simp only [readPrimitive, Checked.seq_ok_iff, Checked.fmap_ok_iff] at hread ⊢
  obtain ⟨_, most, ⟨_, least, ⟨_, allowed, ⟨source, hsource, rfl⟩, hallowed, rfl⟩, hleast, rfl⟩, hmost,
    rfl⟩ := hread
  have hother := @get?_optionalMember_of_ne
  refine ⟨_, rfl, rfl, _, _, ⟨_, _, ⟨_, _, ⟨_, optional_written ?_ ?_ ?_
    (RoundTrips.string.optional .finite hmembers hsource), rfl⟩, optional_written ?_ ?_ ?_
    (RoundTrips.strings.optional .finite hmembers hallowed), rfl⟩, optional_written ?_ ?_ ?_
    (RoundTrips.count.optional .finite hmembers hleast), rfl⟩, optional_written ?_ ?_ ?_
    (RoundTrips.count.optional .finite hmembers hmost), rfl⟩
  -- Every name is looked up among the written members, past those that may be absent.
  all_goals simp [Table.get?, Table.get?_append, get?_optionalMember, hother, ofStrings, ofNat]

theorem readArrayField_roundTrips :
    KeepsMembers Json.Finite readArrayField fun field =>
      ∃ written, field.toJson = .obj written ∧ Table.get? written "type" = some (.str "array") ∧
        readArrayField written = .ok field := by
  intro members field hmembers hread
  simp only [readArrayField, Checked.seq_ok_iff, Checked.fmap_ok_iff] at hread ⊢
  obtain ⟨_, shape, ⟨source, hsource, rfl⟩, hshape, rfl⟩ := hread
  have hother := @get?_optionalMember_of_ne
  refine ⟨_, rfl, rfl, _, _, ⟨_, optional_written ?_ ?_ ?_
    (RoundTrips.string.optional .finite hmembers hsource), rfl⟩, required_written ?_
    ((readShape_roundTrips _).required .finite hmembers hshape), rfl⟩
  all_goals simp [Table.get?, Table.get?_append, get?_optionalMember, hother]

theorem readStateField_roundTrips : RoundTrips readStateField StateField.toJson := by
  refine .tagged fun variant hvariant => ?_
  simp only [List.mem_cons, List.not_mem_nil, or_false] at hvariant
  rcases hvariant with rfl | rfl | rfl | rfl
  · exact readPrimitive_roundTrips .string
  · exact readPrimitive_roundTrips .number
  · exact readPrimitive_roundTrips .boolean
  · exact readArrayField_roundTrips

/-! ## Components -/

theorem readTextAreaProps_roundTrips :
    RoundTrips readTextAreaProps fun props =>
      obj (optionalMember "required" (props.required.map bool) ++
        optionalMember "maxLength" (props.maxLength.map ofNat)) := by
  refine .model (fun members props hmembers hread => ⟨_, rfl, ?_⟩) "TextAreaProps"
  simp only [Checked.seq_ok_iff, Checked.fmap_ok_iff] at hread ⊢
  obtain ⟨_, most, ⟨needed, hneeded, rfl⟩, hmost, rfl⟩ := hread
  have hother := @get?_optionalMember_of_ne
  refine ⟨_, _, ⟨_, optional_written ?_ ?_ ?_ (RoundTrips.boolean.optional .finite hmembers hneeded), rfl⟩,
    optional_written ?_ ?_ ?_ (RoundTrips.positive.optional .finite hmembers hmost), rfl⟩
  all_goals simp [Table.get?_append, get?_optionalMember, hother, ofNat]

theorem readComponent_roundTrips : RoundTrips readComponent Component.toJson := by
  refine .tagged fun variant hvariant => ?_
  simp only [List.mem_cons, List.not_mem_nil, or_false] at hvariant
  have htext {members : Table Json} (hmembers : (obj members).Finite) {name second text : String}
      (h : required members name second readText = .ok text) : readText (str text) = .ok text :=
    RoundTrips.text.required .finite hmembers h
  rcases hvariant with rfl | rfl | rfl <;> intro members c hmembers hread
  · simp only [readTextArea, Checked.seq_ok_iff, Checked.fmap_ok_iff] at hread ⊢
    obtain ⟨_, props, ⟨_, key, ⟨_, label, ⟨id, hid, rfl⟩, hlabel, rfl⟩, hkey, rfl⟩, hprops, rfl⟩ := hread
    have hprops := readTextAreaProps_roundTrips.defaulted .finite hmembers rfl hprops
    exact ⟨_, rfl, rfl, _, _, ⟨_, _, ⟨_, _, ⟨_, required_written rfl (htext hmembers hid), rfl⟩,
      required_written rfl (htext hmembers hlabel), rfl⟩, required_written rfl (htext hmembers hkey), rfl⟩,
      defaulted_written rfl hprops, rfl⟩
  · simp only [readButton, Checked.seq_ok_iff, Checked.fmap_ok_iff] at hread ⊢
    obtain ⟨_, events, ⟨_, label, ⟨id, hid, rfl⟩, hlabel, rfl⟩, hevents, rfl⟩ := hread
    have hevents := RoundTrips.string.mapping.defaulted .finite hmembers rfl hevents
    exact ⟨_, rfl, rfl, _, _, ⟨_, _, ⟨_, required_written rfl (htext hmembers hid), rfl⟩,
      required_written rfl (htext hmembers hlabel), rfl⟩, defaulted_written rfl hevents, rfl⟩
  · simp only [readDataTable, Checked.seq_ok_iff, Checked.fmap_ok_iff] at hread ⊢
    obtain ⟨_, key, ⟨_, label, ⟨id, hid, rfl⟩, hlabel, rfl⟩, hkey, rfl⟩ := hread
    exact ⟨_, rfl, rfl, _, _, ⟨_, _, ⟨_, required_written rfl (htext hmembers hid), rfl⟩,
      required_written rfl (htext hmembers hlabel), rfl⟩, required_written rfl (htext hmembers hkey), rfl⟩

theorem readLayout_roundTrips :
    RoundTrips readLayout fun components => obj [("components", arr (components.map Component.toJson))] := by
  refine .model (fun members components hmembers hread => ⟨_, rfl, ?_⟩) "UILayout"
  have hcomponents := readComponent_roundTrips.nonEmptyList.required .finite hmembers hread
  exact required_written rfl hcomponents

/-! ## Action graphs -/

theorem readPolicy_roundTrips : RoundTrips readPolicy ModelPolicy.toJson := by
  refine .model (fun members policy hmembers hread => ⟨_, rfl, ?_⟩) "ModelPolicy"
  simp only [Checked.seq_ok_iff, Checked.fmap_ok_iff] at hread ⊢
  obtain ⟨_, temperature, ⟨_, model, ⟨provider, hprovider, rfl⟩, hmodel, rfl⟩, htemperature, rfl⟩ := hread
  have hword := RoundTrips.word
    [("openai", .openai), ("anthropic", .anthropic), ("mock", .mock)] ProviderName.text (by decide)
  have hprovider := hword.required .finite hmembers hprovider
  have hmodel := RoundTrips.text.required .finite hmembers hmodel
  have htemperature := RoundTrips.temperature.optional .finite hmembers htemperature
  refine ⟨_, _, ⟨_, _, ⟨_, required_written rfl hprovider, rfl⟩, required_written rfl hmodel, rfl⟩,
    optional_written ?_ ?_ ?_ htemperature, rfl⟩
  all_goals simp [Table.get?, get?_optionalMember, ofFloat]

theorem readPromptSpec_roundTrips : RoundTrips readPromptSpec PromptSpec.toJson := by
  refine .model (fun members spec hmembers hread => ⟨_, rfl, ?_⟩) "PromptSpec"
  simp only [Checked.seq_ok_iff, Checked.fmap_ok_iff] at hread ⊢
  obtain ⟨_, shape, ⟨_, policy, ⟨_, declared, ⟨template, htemplate, rfl⟩, hdeclared, rfl⟩, hpolicy, rfl⟩,
    hshape, rfl⟩ := hread
  have htemplate := RoundTrips.text.required .finite hmembers htemplate
  have hdeclared := RoundTrips.text.list.defaulted .finite hmembers rfl hdeclared
  have hpolicy := readPolicy_roundTrips.required .finite hmembers hpolicy
  have hshape := (readShape_roundTrips _).required .finite hmembers hshape
  exact ⟨_, _, ⟨_, _, ⟨_, _, ⟨_, required_written rfl htemplate, rfl⟩, defaulted_written rfl hdeclared, rfl⟩,
    required_written rfl hpolicy, rfl⟩, required_written rfl hshape, rfl⟩

theorem readValidateInput_roundTrips :
    RoundTrips readValidateInput fun keys => obj [("stateKeys", ofStrings keys)] := by
  refine .model (fun members keys hmembers hread => ⟨_, rfl, ?_⟩) "ValidateInput"
  have hkeys := RoundTrips.text.nonEmptyList.required .finite hmembers hread
  exact required_written rfl hkeys

theorem readNode_roundTrips : RoundTrips readNode Node.toJson := by
  refine .tagged fun variant hvariant => ?_
  simp only [List.mem_cons, List.not_mem_nil, or_false] at hvariant
  rcases hvariant with rfl | rfl | rfl <;> intro members node hmembers hread <;>
    simp only [Checked.seq_ok_iff, Checked.fmap_ok_iff] at hread ⊢
  · obtain ⟨_, keys, ⟨id, hid, rfl⟩, hkeys, rfl⟩ := hread
    have hid := RoundTrips.text.required .finite hmembers hid
    have hkeys := readValidateInput_roundTrips.required .finite hmembers hkeys
    exact ⟨_, rfl, rfl, _, _, ⟨_, required_written rfl hid, rfl⟩, required_written rfl hkeys, rfl⟩
  · obtain ⟨_, spec, ⟨id, hid, rfl⟩, hspec, rfl⟩ := hread
    have hid := RoundTrips.text.required .finite hmembers hid
    have hspec := readPromptSpec_roundTrips.required .finite hmembers hspec
    exact ⟨_, rfl, rfl, _, _, ⟨_, required_written rfl hid, rfl⟩, required_written rfl hspec, rfl⟩
  · obtain ⟨_, targets, ⟨id, hid, rfl⟩, htargets, rfl⟩ := hread
    have hid := RoundTrips.text.required .finite hmembers hid
    have htargets := RoundTrips.string.mapping.required .finite hmembers htargets
    exact ⟨_, rfl, rfl, _, _, ⟨_, required_written rfl hid, rfl⟩, required_written rfl htargets, rfl⟩

theorem readEdge_roundTrips : RoundTrips readEdge Edge.toJson := by
  refine .model (fun members edge hmembers hread => ⟨_, rfl, ?_⟩) "ActionEdge"
  simp only [Checked.seq_ok_iff, Checked.fmap_ok_iff] at hread ⊢
  obtain ⟨_, target, ⟨source, hsource, rfl⟩, htarget, rfl⟩ := hread
  have hsource := RoundTrips.text.required .finite hmembers hsource
  have htarget := RoundTrips.text.required .finite hmembers htarget
  exact ⟨_, _, ⟨_, required_written rfl hsource, rfl⟩, required_written rfl htarget, rfl⟩

theorem readGraph_roundTrips :
    RoundTrips readGraph fun g =>
      obj [("nodes", arr (g.nodes.map Node.toJson)), ("edges", arr (g.edges.map Edge.toJson))] := by
  refine .model (fun members g hmembers hread => ⟨_, rfl, ?_⟩) "ActionGraph"
  simp only [Checked.seq_ok_iff, Checked.fmap_ok_iff] at hread ⊢
  obtain ⟨_, edges, ⟨nodes, hnodes, rfl⟩, hedges, rfl⟩ := hread
  have hnodes := readNode_roundTrips.nonEmptyList.required .finite hmembers hnodes
  have hedges := readEdge_roundTrips.list.required .finite hmembers hedges
  exact ⟨_, _, ⟨_, required_written rfl hnodes, rfl⟩, required_written rfl hedges, rfl⟩

/-! ## Events -/

theorem readTrigger_roundTrips :
    RoundTrips readTrigger fun trigger =>
      obj [("componentId", str trigger.componentId), ("event", str trigger.kind.text)] := by
  refine .model (fun members trigger hmembers hread => ⟨_, rfl, ?_⟩) "Trigger"
  simp only [Checked.seq_ok_iff, Checked.fmap_ok_iff] at hread ⊢
  obtain ⟨_, kind, ⟨id, hid, rfl⟩, hkind, rfl⟩ := hread
  have hword := RoundTrips.word
    [("onClick", .onClick), ("onChange", .onChange), ("onSubmit", .onSubmit)] TriggerKind.text (by decide)
  have hid := RoundTrips.text.required .finite hmembers hid
  have hkind := hword.required .finite hmembers hkind
  exact ⟨_, _, ⟨_, required_written rfl hid, rfl⟩, required_written rfl hkind, rfl⟩

theorem readEvent_roundTrips : RoundTrips readEvent EventDefinition.toJson := by
  refine .model (fun members e hmembers hread => ⟨_, rfl, ?_⟩) "EventDefinition"
  simp only [Checked.seq_ok_iff, Checked.fmap_ok_iff] at hread ⊢
  obtain ⟨_, graph, ⟨_, trigger, ⟨id, hid, rfl⟩, htrigger, rfl⟩, hgraph, rfl⟩ := hread
  have hid := RoundTrips.text.required .finite hmembers hid
  have htrigger := readTrigger_roundTrips.required .finite hmembers htrigger
  have hgraph := readGraph_roundTrips.required .finite hmembers hgraph
  exact ⟨_, _, ⟨_, _, ⟨_, required_written rfl hid, rfl⟩, required_written rfl htrigger, rfl⟩,
    required_written rfl hgraph, rfl⟩

/-! ## Applications -/

theorem readApp_roundTrips : RoundTrips App.ofJson App.toJson := by
  refine .model (fun members app hmembers hread => ⟨_, rfl, ?_⟩) "AppDefinition"
  simp only [Checked.seq_ok_iff, Checked.fmap_ok_iff] at hread ⊢
  obtain ⟨_, events, ⟨_, stateModel, ⟨_, components, ⟨_, version, ⟨appId, hid, rfl⟩, hversion, rfl⟩, hui,
    rfl⟩, hmodel, rfl⟩, hevents, rfl⟩ := hread
  have hid := RoundTrips.text.required .finite hmembers hid
  have hversion := RoundTrips.text.required .finite hmembers hversion
  have hui := readLayout_roundTrips.required .finite hmembers hui
  have hmodel := readStateField_roundTrips.mapping.required .finite hmembers hmodel
  have hevents := readEvent_roundTrips.list.required .finite hmembers hevents
  exact ⟨_, _, ⟨_, _, ⟨_, _, ⟨_, _, ⟨_, required_written rfl hid, rfl⟩, required_written rfl hversion, rfl⟩,
    required_written rfl hui, rfl⟩, required_written rfl hmodel, rfl⟩, required_written rfl hevents, rfl⟩

/-- **What is written of an application is read as that application**, whatever value with finite numbers it
was read from: fields under either name, fields absent or null, further members, values that were converted,
and any values inside the free-form shapes. -/
theorem App.ofJson_toJson {raw : Json} {app : App} (hfinite : raw.Finite) (h : App.ofJson raw = .ok app) :
    App.ofJson app.toJson = .ok app :=
  readApp_roundTrips raw app hfinite h

/-- A survey whose value has second names, nulls, a member that no field has, and values to convert. -/
def looseSurvey : Json :=
  obj [("app_id", str "survey"), ("version", str "1"), ("author", null),
    ("ui", obj [("components", arr [
      obj [("type", str "TextArea"), ("id", str "input"), ("label", str "Answer"), ("state_key", str "answer"),
        ("props", obj [("required", str "yes"), ("max_length", str " 200.0 ")])],
      obj [("type", str "Button"), ("id", str "go"), ("label", str "Go"),
        ("events", obj [("onClick", str "send")])],
      obj [("id", str "rows"), ("type", str "DataTable"), ("label", str "Rows"), ("dataKey", str "rows")]])]),
    ("stateModel", obj [
      ("answer", obj [("type", str "string"), ("source", null), ("enum", arr [str "a", str "b"]),
        ("min_length", bool true), ("minLength", null)]),
      ("rows", obj [("type", str "array"),
        ("items", obj [("type", str "object"), ("shape", obj [("name", null), ("rate", ofInt (-1))])])])]),
    ("events", arr [obj [("id", str "send"),
      ("trigger", obj [("component_id", str "go"), ("event", str "onClick")]),
      ("action_graph", obj [
        ("nodes", arr [
          obj [("kind", str "Validate"), ("id", str "check"),
            ("input", obj [("state_keys", arr [str "answer"])])],
          obj [("kind", str "PromptTask"), ("id", str "ask"), ("prompt_spec", obj [
            ("template", str "Sort {{Answer}}"), ("variables", arr [str "answer"]),
            ("model_policy", obj [("provider", str "mock"), ("model", str "m"), ("temperature", str "0.5")]),
            ("output_schema", obj [("type", str "object"), ("shape", obj [("kept", arr [null])])])])],
          obj [("kind", str "Transform"), ("id", str "keep"), ("map_to_state", obj [])]]),
        ("edges", arr [obj [("from_", str "check"), ("to", str "ask")]])])]])]

/-- The survey that is read. -/
def survey : App where
  appId := "survey"
  version := "1"
  components := [
    .textArea ⟨"input", "Answer", "answer", ⟨some true, some 200⟩⟩,
    .button ⟨"go", "Go", [("onClick", "send")]⟩,
    .dataTable ⟨"rows", "Rows", "rows"⟩]
  stateModel := [
    ("answer", .primitive ⟨.string, none, some ["a", "b"], none, none⟩),
    ("rows", .array ⟨none, [("name", null), ("rate", ofInt (-1))]⟩)]
  events := [⟨"send", ⟨"go", .onClick⟩, {
    nodes := [
      .validate "check" ["answer"],
      .prompt "ask" ⟨"Sort {{Answer}}", ["answer"], ⟨.mock, "m", some (Decimal.nearest false 5 (-1))⟩,
        [("kept", arr [null])]⟩,
      .transform "keep" []]
    edges := [⟨"check", "ask"⟩] }⟩]

theorem App.ofJson_toJson_survey :
    looseSurvey.Finite ∧ App.ofJson looseSurvey = .ok survey ∧ App.ofJson survey.toJson = .ok survey := by
  have hfinite : looseSurvey.Finite := by decide +kernel
  have hread : App.ofJson looseSurvey = .ok survey := by decide +kernel
  exact ⟨hfinite, hread, App.ofJson_toJson hfinite hread⟩

end FormFlow
