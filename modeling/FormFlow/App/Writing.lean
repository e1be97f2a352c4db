import FormFlow.App
import FormFlow.Decimal.Notation

/-!
# Writing applications

`App.toJson` is the value that an application is read from: fields in the order of the model, under
their names, absent optional fields left out.  Free-form shapes are kept as they are, except that a
float that is not finite has no written form and becomes null.

## Principal results

* `get?_optionalMember` — a field that may be absent is found again, or found absent.
-/

namespace FormFlow

namespace Json

mutual
/-- A value with null in the place of floats that are not finite. -/
def finitePart : Json → Json
  | num (.float x) => if Decimal.isFinite x then num (.float x) else null
  | arr items => arr (finiteItems items)
  | obj members => obj (finiteMembers members)
  | v => v
/-- The finite part of each item. -/
def finiteItems : List Json → List Json
  | [] => []
  | v :: items => finitePart v :: finiteItems items
/-- The finite part of each member. -/
def finiteMembers : List (String × Json) → List (String × Json)
  | [] => []
  | (k, v) :: members => (k, finitePart v) :: finiteMembers members
end

/-- A member for a field that may be absent. -/
def optionalMember (name : String) : Option Json → List (String × Json)
  | some v => [(name, v)]
  | none => []

theorem get?_optionalMember (name : String) (v : Option Json) :
    Table.get? (optionalMember name v) name = v := by
  cases v <;> simp [optionalMember, Table.get?]

theorem get?_optionalMember_of_ne {name key : String} (h : name ≠ key) (v : Option Json) :
    Table.get? (optionalMember name v) key = none := by
  cases v <;> simp [optionalMember, Table.get?, h]

/-- A table of strings. -/
def ofStringTable (t : Table String) : Json := obj (t.map fun e => (e.1, str e.2))

end Json

open Json

/-- A shape under its object type. -/
def shapeJson (shape : Table Json) : Json :=
  obj [("type", str "object"), ("shape", obj (finiteMembers shape))]

/-- The name of a kind of plain field. -/
def PrimitiveKind.text : PrimitiveKind → String
  | string => "string"
  | number => "number"
  | boolean => "boolean"

/-- A state field. -/
def StateField.toJson : StateField → Json
  | primitive f =>
    obj (("type", str f.kind.text) :: optionalMember "source" (f.source.map str) ++
      optionalMember "enum" (f.allowed.map ofStrings) ++
      optionalMember "minLength" (f.minLength.map ofNat) ++
      optionalMember "maxLength" (f.maxLength.map ofNat))
  | array f =>
    obj (("type", str "array") :: optionalMember "source" (f.source.map str) ++
      [("items", shapeJson f.shape)])

/-- A component. -/
def Component.toJson : Component → Json
  | textArea a =>
    obj [("type", str "TextArea"), ("id", str a.id), ("label", str a.label),
      ("stateKey", str a.stateKey),
      ("props", obj (optionalMember "required" (a.props.required.map bool) ++
        optionalMember "maxLength" (a.props.maxLength.map ofNat)))]
  | button b =>
    obj [("type", str "Button"), ("id", str b.id), ("label", str b.label),
      ("events", ofStringTable b.events)]
  | dataTable t =>
    obj [("type", str "DataTable"), ("id", str t.id), ("label", str t.label),
      ("dataKey", str t.dataKey)]

/-- A model policy. -/
def ModelPolicy.toJson (p : ModelPolicy) : Json :=
  obj ([("provider", str p.provider.text), ("model", str p.model)] ++
    optionalMember "temperature" (p.temperature.map ofFloat))

/-- A prompt. -/
def PromptSpec.toJson (p : PromptSpec) : Json :=
  obj [("template", str p.template), ("variables", ofStrings p.declared),
    ("modelPolicy", p.policy.toJson), ("outputSchema", shapeJson p.shape)]

/-- A node. -/
def Node.toJson : Node → Json
  | validate id keys =>
    obj [("kind", str "Validate"), ("id", str id), ("input", obj [("stateKeys", ofStrings keys)])]
  | prompt id spec =>
    obj [("kind", str "PromptTask"), ("id", str id), ("promptSpec", spec.toJson)]
  | transform id targets =>
    obj [("kind", str "Transform"), ("id", str id), ("mapToState", ofStringTable targets)]

/-- An edge. -/
def Edge.toJson (e : Edge) : Json := obj [("from", str e.source), ("to", str e.target)]

/-- An event. -/
def EventDefinition.toJson (e : EventDefinition) : Json :=
  obj [("id", str e.id),
    ("trigger", obj [("componentId", str e.trigger.componentId),
      ("event", str e.trigger.kind.text)]),
    ("actionGraph", obj [("nodes", arr (e.graph.nodes.map Node.toJson)),
      ("edges", arr (e.graph.edges.map Edge.toJson))])]

namespace App

/-- The components of an application under their layout. -/
def uiJson (app : App) : Json := obj [("components", arr (app.components.map Component.toJson))]

/-- The state model of an application. -/
def stateModelJson (app : App) : Json := obj (app.stateModel.map fun e => (e.1, e.2.toJson))

/-- An application. -/
def toJson (app : App) : Json :=
  obj [("appId", str app.appId), ("version", str app.version), ("ui", app.uiJson),
    ("stateModel", app.stateModelJson), ("events", arr (app.events.map EventDefinition.toJson))]

end App

end FormFlow
