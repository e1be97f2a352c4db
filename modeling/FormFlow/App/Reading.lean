import FormFlow.App
import FormFlow.Schema.Fields
import FormFlow.Schema.Scalar

/-!
# Reading applications

`App.ofJson` reads an application from an untyped value.  Every issue is reported, with the path to
it, in the order of the fields.

## Principal results

* `ofJson_named` — an application that is read has an id, a version and at least one component.
-/

namespace FormFlow

open Schema

/-! ## Shapes -/

/-- The free-form shape of an object type. -/
def readShape (typeName : String) : Json → Checked (Table Json) :=
  readModel typeName fun m =>
    (fun _ shape => shape) <$> required m "type" "type" (readWord [("object", ())])
      <*> required m "shape" "shape" readFreeMapping

/-! ## State fields -/

/-- A plain state field of a kind. -/
def readPrimitive (kind : PrimitiveKind) (m : Table Json) : Checked StateField :=
  (fun source allowed least most => .primitive ⟨kind, source, allowed, least, most⟩)
    <$> optional m "source" "source" readString
    <*> optional m "enum" "enum" (readList readString)
    <*> optional m "minLength" "min_length" readCount
    <*> optional m "maxLength" "max_length" readCount

/-- A state field that holds a list. -/
def readArrayField (m : Table Json) : Checked StateField :=
  (fun source shape => .array ⟨source, shape⟩)
    <$> optional m "source" "source" readString
    <*> required m "items" "items" (readShape "ObjectShape")

/-- A field of the state model. -/
def readStateField : Json → Checked StateField :=
  readTagged "type" [("string", readPrimitive .string), ("number", readPrimitive .number),
    ("boolean", readPrimitive .boolean), ("array", readArrayField)]

/-! ## Components -/

/-- The limits of a text area. -/
def readTextAreaProps : Json → Checked TextAreaProps :=
  readModel "TextAreaProps" fun m =>
    TextAreaProps.mk <$> optional m "required" "required" readBoolean
      <*> optional m "maxLength" "max_length" readPositive

/-- A text area. -/
def readTextArea (m : Table Json) : Checked Component :=
  (fun id label key props => .textArea ⟨id, label, key, props⟩)
    <$> required m "id" "id" readText
    <*> required m "label" "label" readText
    <*> required m "stateKey" "state_key" readText
    <*> defaulted m "props" "props" ⟨none, none⟩ readTextAreaProps

/-- A button. -/
def readButton (m : Table Json) : Checked Component :=
  (fun id label events => .button ⟨id, label, events⟩)
    <$> required m "id" "id" readText
    <*> required m "label" "label" readText
    <*> defaulted m "events" "events" [] (readMapping readString)

/-- A data table. -/
def readDataTable (m : Table Json) : Checked Component :=
  (fun id label key => .dataTable ⟨id, label, key⟩)
    <$> required m "id" "id" readText
    <*> required m "label" "label" readText
    <*> required m "dataKey" "data_key" readText

/-- A component. -/
def readComponent : Json → Checked Component :=
  readTagged "type" [("TextArea", readTextArea), ("Button", readButton),
    ("DataTable", readDataTable)]

/-- The components of a page. -/
def readLayout : Json → Checked (List Component) :=
  readModel "UILayout" fun m =>
    required m "components" "components" (readNonEmptyList readComponent)

/-! ## Action graphs -/

/-- A model policy. -/
def readPolicy : Json → Checked ModelPolicy :=
  readModel "ModelPolicy" fun m =>
    ModelPolicy.mk
      <$> required m "provider" "provider"
        (readWord [("openai", .openai), ("anthropic", .anthropic), ("mock", .mock)])
      <*> required m "model" "model" readText
      <*> optional m "temperature" "temperature" readTemperature

/-- The shape that a prompt's answer must have. -/
def readOutputShape : Json → Checked (Table Json) := readShape "PromptOutputSchema"

/-- A prompt. -/
def readPromptSpec : Json → Checked PromptSpec :=
  readModel "PromptSpec" fun m =>
    PromptSpec.mk <$> required m "template" "template" readText
      <*> defaulted m "variables" "variables" [] (readList readText)
      <*> required m "modelPolicy" "model_policy" readPolicy
      <*> required m "outputSchema" "output_schema" readOutputShape

/-- The keys that a validation node checks. -/
def readValidateInput : Json → Checked (List String) :=
  readModel "ValidateInput" fun m =>
    required m "stateKeys" "state_keys" (readNonEmptyList readText)

/-- A node of an action graph. -/
def readNode : Json → Checked Node :=
  readTagged "kind" [
    ("Validate", fun m =>
      Node.validate <$> required m "id" "id" readText
        <*> required m "input" "input" readValidateInput),
    ("PromptTask", fun m =>
      Node.prompt <$> required m "id" "id" readText
        <*> required m "promptSpec" "prompt_spec" readPromptSpec),
    ("Transform", fun m =>
      Node.transform <$> required m "id" "id" readText
        <*> required m "mapToState" "map_to_state" (readMapping readString))]

/-- An edge of an action graph. -/
def readEdge : Json → Checked Edge :=
  readModel "ActionEdge" fun m =>
    Edge.mk <$> required m "from" "from_" readText <*> required m "to" "to" readText

/-- An action graph. -/
def readGraph : Json → Checked ActionGraph :=
  readModel "ActionGraph" fun m =>
    ActionGraph.mk <$> required m "nodes" "nodes" (readNonEmptyList readNode)
      <*> required m "edges" "edges" (readList readEdge)

/-- What triggers an event. -/
def readTrigger : Json → Checked Trigger :=
  readModel "Trigger" fun m =>
    Trigger.mk <$> required m "componentId" "component_id" readText
      <*> required m "event" "event"
        (readWord [("onClick", .onClick), ("onChange", .onChange), ("onSubmit", .onSubmit)])

/-- An event. -/
def readEvent : Json → Checked EventDefinition :=
  readModel "EventDefinition" fun m =>
    EventDefinition.mk <$> required m "id" "id" readText
      <*> required m "trigger" "trigger" readTrigger
      <*> required m "actionGraph" "action_graph" readGraph

/-! ## Applications -/

/-- Read an application. -/
def App.ofJson : Json → Checked App :=
  readModel "AppDefinition" fun m =>
    App.mk <$> required m "appId" "app_id" readText
      <*> required m "version" "version" readText
      <*> required m "ui" "ui" readLayout
      <*> required m "stateModel" "state_model" (readMapping readStateField)
      <*> required m "events" "events" (readList readEvent)

/-- An application that is read has an id, a version and at least one component. -/
theorem App.ofJson_named {raw : Json} {app : App} (h : App.ofJson raw = .ok app) :
    app.appId ≠ "" ∧ app.version ≠ "" ∧ app.components ≠ [] := by
  obtain ⟨m, rfl, hm⟩ := readModel_ok_iff.1 h
  simp only [Checked.seq_ok_iff, Checked.fmap_ok_iff, required_ok_iff] at hm
  obtain ⟨_, _, ⟨_, _, ⟨_, components, ⟨_, version, ⟨appId, ⟨_, _, hid⟩, rfl⟩,
    ⟨_, _, hversion⟩, rfl⟩, ⟨_, _, hui⟩, rfl⟩, _, rfl⟩, _, rfl⟩ := hm
  obtain ⟨_, rfl, hlayout⟩ := readModel_ok_iff.1 hui
  obtain ⟨_, _, hlist⟩ := required_ok_iff.1 hlayout
  exact ⟨(readText_ok_iff.1 hid).2, (readText_ok_iff.1 hversion).2, readNonEmptyList_ne_nil hlist⟩

end FormFlow
