import FormFlow.Proofs.RunSteps

/-!
# Outputs and the patch of a run

The output of a prompt is written once, under its id, and stays as it is where ids are distinct.  A
transform therefore finds the same outputs when it runs as at the end of the run, and the value of a key
in the patch is what the last node that writes to the key makes of the final outputs.

## Principal results

* `mapTargets_ok_iff`, `mapTargets_get?` — when a transform passes, and what it leaves in the patch;
* `Passes.get?_outputs_iff` — the outputs at the end of a run;
* `Passes.get?_patch` — the patch at the end of a run.
-/

namespace FormFlow

/-! ## Transforms -/

/-- The expression that a transform maps to a key; the last one counts. -/
def expressionFor? (targets : Table String) (key : String) : Option String :=
  (targets.reverse.find? fun target => target.1 = key).map Prod.snd

/-- The value that a node writes under a key over given outputs. -/
def Node.written? (outputs : Table Json) (key : String) : Node → Option Json
  | .transform _ targets =>
    (expressionFor? targets key).bind fun text => ((Expression.parse text).evaluate outputs).toOption
  | _ => none

theorem expressionFor?_cons (target : String × String) (targets : Table String) (key : String) :
    expressionFor? (target :: targets) key =
      (expressionFor? targets key).or (if target.1 = key then some target.2 else none) := by
  unfold expressionFor?
  rw [List.reverse_cons, List.find?_append]
  cases targets.reverse.find? fun target => target.1 = key with
  | some found => rfl
  | none => by_cases h : target.1 = key <;> simp [h]

theorem mem_of_expressionFor? {targets : Table String} {key text : String}
    (h : expressionFor? targets key = some text) : (key, text) ∈ targets := by
  obtain ⟨⟨found, _⟩, hfind, rfl⟩ := Option.map_eq_some_iff.1 h
  have hkey : found = key := by simpa using List.find?_some hfind
  rw [← hkey]
  exact List.mem_reverse.1 (List.mem_of_find?_eq_some hfind)

/-- A transform passes when each of its expressions has a value. -/
theorem mapTargets_ok_iff {outputs : Table Json} {targets : Table String} {patch : Table Json} :
    (∃ result, mapTargets outputs targets patch = .ok result) ↔
      ∀ target ∈ targets, ∃ v, (Expression.parse target.2).evaluate outputs = .ok v := by
  induction targets generalizing patch with
  | nil => simp [mapTargets]
  | cons target targets ih =>
    obtain ⟨key, text⟩ := target
    rw [List.forall_mem_cons, mapTargets]
    cases hvalue : (Expression.parse text).evaluate outputs with
    | error nodeId => simp
    | ok v => simp [ih]

/-- A transform leaves its values under its keys, and elsewhere what was there before. -/
theorem mapTargets_get? {outputs : Table Json} {targets : Table String} {patch result : Table Json}
    (h : mapTargets outputs targets patch = .ok result) (id key : String) :
    result.get? key = ((Node.transform id targets).written? outputs key).or (patch.get? key) := by
  induction targets generalizing patch with
  | nil =>
    cases h
    rfl
  | cons target targets ih =>
    obtain ⟨name, text⟩ := target
    rw [mapTargets] at h
    cases hvalue : (Expression.parse text).evaluate outputs with
    | error nodeId =>
      rw [hvalue] at h
      cases h
    | ok v =>
      rw [hvalue] at h
      have htail := ih h
      have hall := mapTargets_ok_iff.1 ⟨_, h⟩
      rw [htail, Node.written?, Node.written?, expressionFor?_cons]
      cases hlast : expressionFor? targets key with
      | some last =>
        obtain ⟨w, hw⟩ := hall _ (mem_of_expressionFor? hlast)
        have hw : ((Expression.parse last).evaluate outputs).toOption = some w := congrArg Except.toOption hw
        simp [hw]
      | none =>
        by_cases hname : name = key
        · subst hname
          have hv : ((Expression.parse text).evaluate outputs).toOption = some v :=
            congrArg Except.toOption hvalue
          simp [hv, Table.get?_put_self]
        · rw [Table.get?_put_of_ne _ _ (Ne.symm hname)]
          simp [hname]

/-- An expression keeps its value when outputs are added. -/
theorem Expression.evaluate_of_kept {outputs later : Table Json} {expression : Expression} {v : Json}
    (h : expression.evaluate outputs = .ok v)
    (hkept : ∀ id w, outputs.get? id = some w → later.get? id = some w) :
    expression.evaluate later = .ok v := by
  cases expression with
  | literal text => exact h
  | reference nodeId =>
    rw [evaluate] at h ⊢
    cases hget : outputs.get? nodeId with
    | none =>
      rw [hget] at h
      cases h
    | some w =>
      rw [hget] at h
      rw [hkept nodeId w hget]
      exact h

/-- What a node writes depends on what the outputs hold, not on how they are listed. -/
theorem Node.written?_congr {outputs later : Table Json} (h : ∀ id, outputs.get? id = later.get? id)
    (node : Node) (key : String) : node.written? outputs key = node.written? later key := by
  have hvalue : ∀ expression : Expression, expression.evaluate outputs = expression.evaluate later := by
    intro expression
    cases expression with
    | literal text => rfl
    | reference nodeId => rw [Expression.evaluate, Expression.evaluate, h nodeId]
  cases node with
  | transform id targets => simp only [written?, hvalue]
  | _ => rfl

section

variable {s : Setting} {earlier : List Request} {p q : Progress} {node : Node}

/-! ## One step -/

theorem Step.get?_outputs_of_ne (h : Step s earlier p node q) {id : String} (hne : id ≠ node.id) :
    q.outputs.get? id = p.outputs.get? id := by
  cases h with
  | prompt answered => exact Table.get?_put_of_ne _ _ hne
  | validate held => rfl
  | transform mapped => rfl

theorem Step.get?_patch (h : Step s earlier p node q) (key : String) :
    q.patch.get? key = (node.written? p.outputs key).or (p.patch.get? key) := by
  cases h with
  | transform mapped => exact mapTargets_get? mapped _ key
  | validate held => rfl
  | prompt answered => rfl

/-- A node that passed would write the same over outputs that were added since. -/
theorem Step.written?_of_kept (h : Step s earlier p node q) {later : Table Json}
    (hkept : ∀ id w, p.outputs.get? id = some w → later.get? id = some w) (key : String) :
    node.written? later key = node.written? p.outputs key := by
  cases h with
  | validate held => rfl
  | prompt answered => rfl
  | transform mapped =>
    have hall := mapTargets_ok_iff.1 ⟨_, mapped⟩
    rw [Node.written?, Node.written?]
    refine Option.bind_congr fun text htext => ?_
    obtain ⟨v, hv⟩ := hall _ (mem_of_expressionFor? htext)
    rw [hv, Expression.evaluate_of_kept hv hkept]

/-! ## Runs -/

/-- None of the nodes that are left has an output yet, and their ids are distinct. -/
structure Awaits (p : Progress) (nodes : List Node) : Prop where
  nodup : (nodes.map Node.id).Nodup
  fresh : ∀ id ∈ nodes.map Node.id, p.outputs.get? id = none

theorem Awaits.start {nodes : List Node} (h : (nodes.map Node.id).Nodup) : Awaits .start nodes :=
  ⟨h, fun _ _ => rfl⟩

theorem Awaits.step {nodes : List Node} (h : Awaits p (node :: nodes)) (hstep : Step s earlier p node q) :
    Awaits q nodes := by
  obtain ⟨hnode, hnodup⟩ := List.nodup_cons.1 h.nodup
  refine ⟨hnodup, fun id hid => ?_⟩
  have hne : id ≠ node.id := fun heq => hnode (heq ▸ hid)
  rw [hstep.get?_outputs_of_ne hne]
  exact h.fresh id (List.mem_cons_of_mem _ hid)

theorem Awaits.step_kept {nodes : List Node} (h : Awaits p (node :: nodes))
    (hstep : Step s earlier p node q) {id : String} {w : Json} (hget : p.outputs.get? id = some w) :
    q.outputs.get? id = some w := by
  have hne : id ≠ node.id := by
    rintro rfl
    rw [h.fresh node.id (List.mem_cons_self ..)] at hget
    cases hget
  rw [hstep.get?_outputs_of_ne hne, hget]

namespace Passes

variable {nodes front back : List Node}

theorem get?_outputs_of_not_mem (h : Passes s nodes earlier p q) {id : String}
    (hid : id ∉ nodes.map Node.id) : q.outputs.get? id = p.outputs.get? id := by
  induction h with
  | nil earlier p => rfl
  | cons step rest ih =>
    rw [List.map_cons, List.mem_cons, not_or] at hid
    rw [ih hid.2, step.get?_outputs_of_ne hid.1]

/-- Outputs that are there stay as they are. -/
theorem outputs_kept (h : Passes s nodes earlier p q) (hawaits : Awaits p nodes) {id : String} {w : Json}
    (hget : p.outputs.get? id = some w) : q.outputs.get? id = some w := by
  induction h with
  | nil earlier p => exact hget
  | cons step rest ih => exact ih (hawaits.step step) (hawaits.step_kept step hget)

/-- **The patch of a run.**  A key has the value that the last node to write to it makes of the final
outputs. -/
theorem get?_patch (h : Passes s nodes earlier p q) (hawaits : Awaits p nodes) (key : String) :
    q.patch.get? key =
      ((nodes.filterMap (Node.written? q.outputs key)).getLast?).or (p.patch.get? key) := by
  induction h with
  | nil earlier p => rfl
  | @cons node nodes earlier p q r step rest ih =>
    -- The node saw some of the final outputs, and all that it refers to.
    have hwritten : node.written? r.outputs key = node.written? p.outputs key :=
      step.written?_of_kept (fun id w hget =>
        rest.outputs_kept (hawaits.step step) (hawaits.step_kept step hget)) key
    rw [ih (hawaits.step step), step.get?_patch, ← hwritten, List.filterMap_cons]
    cases hhead : node.written? r.outputs key with
    | none => rfl
    | some v =>
      rw [List.getLast?_cons]
      cases (nodes.filterMap (Node.written? r.outputs key)).getLast? <;> rfl

/-- A prompt that passed has left its answer. -/
theorem get?_outputs_of_prompt {id : String} {spec : PromptSpec}
    (h : Passes s (front ++ .prompt id spec :: back) earlier p q) (hback : id ∉ back.map Node.id) :
    ∃ output, spec.answer s (earlier ++ front.filterMap (Node.request? s)) = .ok output ∧
      q.outputs.get? id = some output := by
  obtain ⟨between, _, hrest⟩ := h.split
  cases hrest with
  | cons step rest =>
    rw [rest.get?_outputs_of_not_mem hback]
    cases step with
    | prompt answered => exact ⟨_, answered, Table.get?_put_self _ _ _⟩

/-- Only prompts leave outputs. -/
theorem prompt_of_get?_outputs {id : String} {v : Json} (h : Passes s nodes earlier p q)
    (hget : q.outputs.get? id = some v) :
    p.outputs.get? id = some v ∨ ∃ spec, .prompt id spec ∈ nodes := by
  induction h with
  | nil earlier p => exact .inl hget
  | cons step rest ih =>
    rcases ih hget with hget | ⟨spec, hspec⟩
    · cases step with
      | @prompt name spec output answered =>
        by_cases hname : id = name
        · exact .inr ⟨spec, hname ▸ List.mem_cons_self ..⟩
        · rw [Table.get?_put_of_ne _ _ hname] at hget
          exact .inl hget
      | validate held => exact .inl hget
      | transform mapped => exact .inl hget
    · exact .inr ⟨spec, List.mem_cons_of_mem _ hspec⟩

/-- **The outputs of a run** are the answers to its prompts, each after the requests made before it. -/
theorem get?_outputs_iff (h : Passes s nodes earlier .start q) (hnodup : (nodes.map Node.id).Nodup)
    {id : String} {v : Json} :
    q.outputs.get? id = some v ↔
      ∃ front spec back, nodes = front ++ .prompt id spec :: back ∧
        spec.answer s (earlier ++ front.filterMap (Node.request? s)) = .ok v := by
  have hlast : ∀ front spec back, nodes = front ++ .prompt id spec :: back →
      ∃ output, spec.answer s (earlier ++ front.filterMap (Node.request? s)) = .ok output ∧
        q.outputs.get? id = some output := by
    rintro front spec back rfl
    rw [List.map_append, List.nodup_append, List.map_cons, List.nodup_cons] at hnodup
    exact h.get?_outputs_of_prompt hnodup.2.1.1
  constructor
  · intro hget
    rcases h.prompt_of_get?_outputs hget with hstart | ⟨spec, hspec⟩
    · cases hstart
    · obtain ⟨front, back, heq⟩ := List.append_of_mem hspec
      obtain ⟨output, hanswer, houtput⟩ := hlast front spec back heq
      rw [hget, Option.some.injEq] at houtput
      exact ⟨front, spec, back, heq, houtput ▸ hanswer⟩
  · rintro ⟨front, spec, back, heq, hanswer⟩
    obtain ⟨output, hother, houtput⟩ := hlast front spec back heq
    rw [hanswer, Except.ok.injEq] at hother
    rw [houtput, hother]

end Passes

end

end FormFlow
