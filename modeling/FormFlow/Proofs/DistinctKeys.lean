import FormFlow.Proofs.Readings

/-!
# Distinct keys in what is read

A reading of a value takes over the members of a mapping as they are.  So from a value in which no object repeats
a key it makes mappings without repeated keys.

## Principal results

* `readMapping_keys` — a mapping has the keys of the object that it is read from;
* `App.ofJson_distinctKeys` — the shapes and targets of an application that is read.
-/

namespace FormFlow

/-! ## Readings -/

open Schema

theorem Schema.Checked.keys_eachMember {α β : Type} {read : α → Checked β} {members : Table α} {t : Table β}
    (h : eachMember read members = .ok t) : t.keys = members.keys := by
  have hkeys := congrArg (List.map (·.1)) (Checked.eachMember_ok_iff.1 h)
  simpa [Table.keys, Function.comp_def] using hkeys.symm

/-- A mapping has the keys of the object that it is read from. -/
theorem readMapping_keys {α : Type} {read : Json → Checked α} {v : Json} {t : Table α}
    (h : readMapping read v = .ok t) : ∃ members, v = .obj members ∧ t.keys = Table.keys members := by
  cases v with
  | obj members => exact ⟨members, rfl, Checked.keys_eachMember h⟩
  | _ => cases h

theorem readMapping_keeps {α : Type} (read : Json → Checked α) :
    Keeps Json.Distinct (readMapping read) fun t => t.keys.Nodup := by
  intro v t hv hread
  obtain ⟨members, rfl, hkeys⟩ := readMapping_keys hread
  rw [hkeys]
  rw [Json.Distinct] at hv
  exact hv.1

/-! ## Applications -/

/-- The mappings of a node repeat no key. -/
def Node.DistinctKeys : Node → Prop
  | .validate .. => True
  | .prompt _ spec => (Json.obj spec.shape).Distinct
  | .transform _ targets => targets.keys.Nodup

theorem readPromptSpec_keeps :
    Keeps Json.Distinct readPromptSpec fun spec => (Json.obj spec.shape).Distinct := by
  refine .model (fun members spec hmembers hread => ?_) "PromptSpec"
  simp only [Checked.seq_ok_iff, Checked.fmap_ok_iff] at hread
  obtain ⟨_, shape, ⟨_, _, ⟨_, _, ⟨_, _, rfl⟩, _, rfl⟩, _, rfl⟩, hshape, rfl⟩ := hread
  exact (readShape_keeps .distinct _).required .distinct hmembers hshape

theorem readNode_keeps : Keeps Json.Distinct readNode Node.DistinctKeys := by
  refine .tagged (fun variant hvariant => ?_) "kind"
  simp only [List.mem_cons, List.not_mem_nil, or_false] at hvariant
  rcases hvariant with rfl | rfl | rfl
  · intro members node hmembers hread
    simp only [Checked.seq_ok_iff, Checked.fmap_ok_iff] at hread
    obtain ⟨_, _, ⟨_, _, rfl⟩, _, rfl⟩ := hread
    trivial
  · intro members node hmembers hread
    simp only [Checked.seq_ok_iff, Checked.fmap_ok_iff] at hread
    obtain ⟨_, spec, ⟨_, _, rfl⟩, hspec, rfl⟩ := hread
    exact readPromptSpec_keeps.required .distinct hmembers hspec
  · intro members node hmembers hread
    simp only [Checked.seq_ok_iff, Checked.fmap_ok_iff] at hread
    obtain ⟨_, targets, ⟨_, _, rfl⟩, htargets, rfl⟩ := hread
    exact (readMapping_keeps readString).required .distinct hmembers htargets

/-- An application that is read from a value without repeated keys has none in its nodes. -/
theorem App.ofJson_distinctKeys {raw : Json} {app : App} (hraw : raw.Distinct)
    (h : App.ofJson raw = .ok app) :
    ∀ e ∈ app.events, ∀ node ∈ e.graph.nodes, node.DistinctKeys :=
  App.ofJson_keepsNodes .distinct readNode_keeps raw app hraw h

end FormFlow
