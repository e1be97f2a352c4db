import FormFlow.Alias

/-!
# The normal form of an application

In normal form prompts name the state by its keys: every template token and every declared variable is
replaced by the state key that it stands for.  A name that stands for no state key stays as it is.

## Principal results

* `normalize_nodeIds` — a graph keeps its node ids, and its edges.
-/

namespace FormFlow

/-- A prompt with state keys in place of their aliases. -/
def PromptSpec.normalize (aliases : Table String) (spec : PromptSpec) : PromptSpec :=
  { spec with
    template := Template.rekey (resolve aliases) spec.template
    declared := spec.declared.map (resolve aliases) }

/-- A node with its prompt in normal form, if it has one. -/
def Node.normalize (aliases : Table String) : Node → Node
  | .prompt id spec => .prompt id (spec.normalize aliases)
  | node => node

@[simp] theorem Node.normalize_id (aliases : Table String) (node : Node) :
    (node.normalize aliases).id = node.id := by
  cases node <;> rfl

/-- A graph with its nodes in normal form. -/
def ActionGraph.normalize (aliases : Table String) (g : ActionGraph) : ActionGraph :=
  { g with nodes := g.nodes.map (Node.normalize aliases) }

theorem ActionGraph.normalize_nodeIds (aliases : Table String) (g : ActionGraph) :
    (g.normalize aliases).nodeIds = g.nodeIds := by
  simp [ActionGraph.normalize, ActionGraph.nodeIds, Function.comp_def]

/-- An event with its graph in normal form. -/
def EventDefinition.normalize (aliases : Table String) (e : EventDefinition) : EventDefinition :=
  { e with graph := e.graph.normalize aliases }

/-- The normal form of an application. -/
def App.normalize (app : App) : App :=
  { app with events := app.events.map (EventDefinition.normalize (aliasTable app.components)) }

end FormFlow
