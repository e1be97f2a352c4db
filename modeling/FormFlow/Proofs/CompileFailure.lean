import FormFlow.Proofs.NumbersInside
import FormFlow.Proofs.Readings
import FormFlow.Proofs.CompiledRun
import FormFlow.Proofs.WellFormed

/-!
# When compiling has no outcome

A value that is no application, or an application that is not well-formed, is refused with an error among
its findings.  A well-formed application has a release unless a number in it has no canonical form.  A
reading lets no float in that is not finite, so that the number is an integer beyond the range in which
doubles are exact.

## Principal results

* `App.mem_numbers_normalize` — the normal form has the numbers of the application;
* `App.finite_toJson` — what is written of an application that was read has finite numbers;
* `release_error_iff` — a release fails exactly when the application has no canonical form;
* `compile_total` — when compiling has an outcome, what it says of a refusal, and what its error says.
-/

namespace FormFlow

open Json Schema

/-! ## The numbers of an application -/

theorem Node.mem_numbers_prompt {id : String} {spec : PromptSpec} {n : Number} :
    n ∈ (Node.prompt id spec).toJson.numbers ↔
      n ∈ spec.policy.toJson.numbers ∨ n ∈ (shapeJson spec.shape).numbers := by
  simp [Node.toJson, PromptSpec.toJson, not_mem_numbers_ofStrings]

theorem Node.mem_numbers_normalize {aliases : Table String} {node : Node} {n : Number} :
    n ∈ (node.normalize aliases).toJson.numbers ↔ n ∈ node.toJson.numbers := by
  cases node with
  | validate id keys => rfl
  | prompt id spec =>
    rw [Node.normalize, mem_numbers_prompt, mem_numbers_prompt]
    rfl
  | transform id targets => rfl

theorem EventDefinition.mem_numbers {e : EventDefinition} {n : Number} :
    n ∈ e.toJson.numbers ↔ ∃ node ∈ e.graph.nodes, n ∈ node.toJson.numbers := by
  simp [EventDefinition.toJson, Edge.toJson]

theorem App.mem_numbers {app : App} {n : Number} :
    n ∈ app.toJson.numbers ↔ n ∈ app.uiJson.numbers ∨ n ∈ app.stateModelJson.numbers ∨
      ∃ e ∈ app.events, n ∈ e.toJson.numbers := by
  simp [App.toJson]

/-- The normal form has the numbers of the application. -/
theorem App.mem_numbers_normalize {app : App} {n : Number} :
    n ∈ app.normalize.toJson.numbers ↔ n ∈ app.toJson.numbers := by
  rw [mem_numbers, mem_numbers]
  refine or_congr_right (or_congr_right ?_)
  simp [normalize, EventDefinition.normalize, ActionGraph.normalize, EventDefinition.mem_numbers,
    Node.mem_numbers_normalize]

/-! ## Finite numbers -/

@[simp] theorem finite_shapeJson (shape : Table Json) : (shapeJson shape).Finite := by
  have hshape := finite_finitePart (.obj shape)
  rw [finitePart] at hshape
  simp [shapeJson, hshape]

@[simp] theorem Component.finite_toJson (c : Component) : c.toJson.Finite := by
  cases c <;> simp [Component.toJson]

@[simp] theorem StateField.finite_toJson (field : StateField) : field.toJson.Finite := by
  cases field <;> simp [StateField.toJson]

theorem readTemperature_finite {v : Json} {x : Float} (h : readTemperature v = .ok x) :
    (ofFloat x).Finite := by
  obtain ⟨y, _, hy⟩ := Checked.andThen_ok_iff.1 h
  split at hy
  · cases hy
  · rename_i htwo
    split at hy
    · cases hy
    · rename_i hzero
      cases hy
      have hfinite := Decimal.finite_of_le (Decidable.not_not.1 hzero) (Decidable.not_not.1 htwo)
      simp [Json.Finite, ofFloat, Number.isFinite, hfinite]

theorem readPolicy_finite : Keeps (fun _ => True) readPolicy fun policy => policy.toJson.Finite := by
  refine .model (fun members policy hmembers hread => ?_) "ModelPolicy"
  simp only [Checked.seq_ok_iff, Checked.fmap_ok_iff] at hread
  obtain ⟨_, temperature, ⟨_, model, ⟨provider, _, rfl⟩, _, rfl⟩, htemperature, rfl⟩ := hread
  have hkeeps : Keeps (fun _ => True) readTemperature fun x => (ofFloat x).Finite :=
    fun _ _ _ h => readTemperature_finite h
  have hfinite := hkeeps.optional .any hmembers htemperature
  simpa [ModelPolicy.toJson] using hfinite

theorem readNode_finite : Keeps (fun _ => True) readNode fun node => node.toJson.Finite := by
  have hspec : Keeps (fun _ => True) readPromptSpec fun spec => spec.policy.toJson.Finite := by
    refine .model (fun members spec hmembers hread => ?_) "PromptSpec"
    simp only [Checked.seq_ok_iff, Checked.fmap_ok_iff] at hread
    obtain ⟨_, shape, ⟨_, policy, ⟨_, _, ⟨_, _, rfl⟩, _, rfl⟩, hpolicy, rfl⟩, _, rfl⟩ := hread
    exact readPolicy_finite.required .any hmembers hpolicy
  refine .tagged (fun variant hvariant => ?_) "kind"
  simp only [List.mem_cons, List.not_mem_nil, or_false] at hvariant
  rcases hvariant with rfl | rfl | rfl <;> intro members node hmembers hread <;>
    simp only [Checked.seq_ok_iff, Checked.fmap_ok_iff] at hread
  · obtain ⟨_, keys, ⟨id, _, rfl⟩, _, rfl⟩ := hread
    simp [Node.toJson]
  · obtain ⟨_, spec, ⟨id, _, rfl⟩, hread, rfl⟩ := hread
    have hpolicy := hspec.required .any hmembers hread
    simp [Node.toJson, PromptSpec.toJson, hpolicy]
  · obtain ⟨_, targets, ⟨id, _, rfl⟩, _, rfl⟩ := hread
    simp [Node.toJson]

/-- What is written of an application that was read has finite numbers. -/
theorem App.finite_toJson {raw : Json} {app : App} (h : App.ofJson raw = .ok app) : app.toJson.Finite := by
  have hnodes := App.ofJson_keepsNodes .any readNode_finite raw app trivial h
  have hui : app.uiJson.Finite := by simp [uiJson, finite_arr]
  have hmodel : app.stateModelJson.Finite := by
    rw [stateModelJson, finite_obj, List.forall_mem_map]
    exact fun e _ => e.2.finite_toJson
  intro n hn
  rcases App.mem_numbers.1 hn with hn | hn | ⟨e, he, hn⟩
  · exact hui n hn
  · exact hmodel n hn
  · obtain ⟨node, hnode, hn⟩ := EventDefinition.mem_numbers.1 hn
    exact hnodes e he node hnode n hn

/-! ## Releases -/

theorem App.not_mem_numbers_manifest {app : App} {n : Number} : n ∉ app.manifest.numbers := by
  have hentry (e : EventDefinition) : n ∉ (app.manifestEntry e).numbers := by
    cases hbutton : app.boundButton? e.id <;> simp [manifestEntry, hbutton]
  simp [manifest, not_mem_numbers_ofStrings, hentry]

theorem App.mem_numbers_of_interface {app : App} {n : Number} (h : n ∈ app.interface.numbers) :
    n ∈ app.toJson.numbers := by
  have hparts : n ∈ app.uiJson.numbers ∨ n ∈ app.stateModelJson.numbers := by
    simpa [interface] using h
  exact App.mem_numbers.2 (hparts.imp_right .inl)

theorem writeArtifact_ok {path : String} {v w : Json} (h : canonical? v = .ok w) :
    writeArtifact (path, v) = .ok ⟨path, render indented w ++ "\n"⟩ := by
  simp [writeArtifact, prettyText, h, Except.map]

/-- **A release fails exactly when the application has no canonical form.**  The other files hold no
further number. -/
theorem release_error_iff {settings : Settings} {app : App} {e : DomainError} :
    release settings app = .error e ↔ canonical? app.toJson = .error e := by
  cases hwhole : canonical? app.toJson with
  | error found =>
    -- The file of the whole application is the first to be written.
    simp [release, artifactSources, writeArtifact, prettyText, hwhole, Except.map, firstError, bind,
      Except.bind]
  | ok whole =>
    have hnumbers := canonicalNumber_of_canonical? hwhole
    obtain ⟨page, hpage⟩ : ∃ page, canonical? app.interface = .ok page :=
      canonical?_ok_iff.2 fun n hn => hnumbers n (App.mem_numbers_of_interface hn)
    obtain ⟨events, hevents⟩ : ∃ events, canonical? app.manifest = .ok events :=
      canonical?_ok_iff.2 fun n hn => absurd hn App.not_mem_numbers_manifest
    simp [release, artifactSources, writeArtifact_ok hwhole, writeArtifact_ok hpage,
      writeArtifact_ok hevents, firstError, fingerprint, canonicalText, hwhole, Except.map, bind, Except.bind,
      pure, Except.pure]

/-- A number that is finite has no canonical form only as an integer beyond the range in which doubles are
exact. -/
theorem canonicalNumber_error_iff {n : Number} (hfinite : n.isFinite = true) {e : DomainError} :
    canonicalNumber n = .error e ↔ ∃ i, n = .int i ∧ exactLimit.toNat < i.natAbs ∧ e = .integer i := by
  cases n with
  | int i =>
    by_cases hi : i.natAbs ≤ exactLimit.toNat
    · simp only [canonicalNumber, if_pos hi, reduceCtorEq, false_iff]
      rintro ⟨j, hj, hbeyond, _⟩
      cases hj
      exact Nat.not_lt.2 hi hbeyond
    · simp only [canonicalNumber, if_neg hi, Except.error.injEq]
      constructor
      · rintro rfl
        exact ⟨i, rfl, Nat.not_le.1 hi, rfl⟩
      · rintro ⟨j, hj, _, rfl⟩
        cases hj
        rfl
  | float x =>
    have hx : Decimal.isFinite x = true := hfinite
    simp only [canonicalNumber, if_pos hx, reduceCtorEq, false_and, exists_false, iff_false]
    cases wholeValue? x <;> simp

/-! ## Compiling -/

/-- Every integer in an application is in the range in which doubles are exact. -/
def App.Exact (app : App) : Prop := ∀ i : Int, .int i ∈ app.toJson.numbers → i.natAbs ≤ exactLimit.toNat

theorem compile_error_iff {settings : Settings} {raw : Json} {e : DomainError} :
    compile settings raw = .error e ↔
      ∃ app, App.ofJson raw = .ok app ∧ app.Accepted ∧ canonical? app.normalize.toJson = .error e := by
  cases haccepted : (validate raw).accepted? with
  | none =>
    rw [compile_refused_iff.2 haccepted]
    simp only [reduceCtorEq, false_iff]
    rintro ⟨app, hread, hclean, _⟩
    rw [accepted?_eq_some_iff.2 ⟨hread, hclean⟩] at haccepted
    cases haccepted
  | some app =>
    obtain ⟨hread, hclean⟩ := accepted?_eq_some_iff.1 haccepted
    rw [compile_of_accepted hread hclean]
    constructor
    · intro h
      exact ⟨app, hread, hclean, release_error_iff.1 (error_of_map h)⟩
    · rintro ⟨found, hfound, _, herror⟩
      rw [hread] at hfound
      cases hfound
      rw [release_error_iff.2 herror]
      rfl

/-- What stands in the way of a release is an integer beyond the exact range. -/
theorem App.exists_beyond {raw : Json} {app : App} (hread : App.ofJson raw = .ok app) {e : DomainError}
    (h : canonical? app.normalize.toJson = .error e) :
    ∃ i : Int, .int i ∈ app.toJson.numbers ∧ exactLimit.toNat < i.natAbs ∧ e = .integer i := by
  obtain ⟨n, hn, herror⟩ := canonical?_error h
  rw [App.mem_numbers_normalize] at hn
  obtain ⟨i, rfl, hbeyond, rfl⟩ := (canonicalNumber_error_iff (App.finite_toJson hread n hn)).1 herror
  exact ⟨i, hn, hbeyond, rfl⟩

/-- A refusal has an error among its findings, and a release has none. -/
theorem release?_eq_none_iff {settings : Settings} {raw : Json} {c : Compilation}
    (h : compile settings raw = .ok c) : c.release? = none ↔ ∃ d ∈ c.diagnostics, d.isError = true := by
  cases hread : App.ofJson raw with
  | issues found =>
    rw [compile_of_issues hread, validate_issues hread] at h
    cases h
    have htold := App.ofJson_tells raw
    rw [hread] at htold
    obtain ⟨issue, hissue⟩ := List.exists_mem_of_ne_nil found htold
    exact ⟨fun _ => ⟨.schema issue, List.mem_map_of_mem hissue, rfl⟩, fun _ => rfl⟩
  | ok app =>
    have hfindings : (validate raw).diagnostics = checkApp app := by simp [validate, hread]
    by_cases hclean : app.Accepted
    · rw [compile_of_accepted hread hclean, hfindings] at h
      obtain ⟨r, _, rfl⟩ := ok_of_map h
      simp only [reduceCtorEq, false_iff]
      rintro ⟨d, hd, herror⟩
      rw [hclean d hd] at herror
      cases herror
    · rw [compile_of_not_accepted hread hclean, hfindings] at h
      cases h
      refine ⟨fun _ => ?_, fun _ => rfl⟩
      simpa [App.Accepted, Harmless] using hclean

/-- **When compiling has an outcome**, for all settings and values: unless a well-formed application holds
an integer beyond the range in which doubles are exact.  The outcome is a release, or a refusal with an error
among its findings.  There is no other failure than that of such an integer. -/
theorem compile_total (settings : Settings) (raw : Json) :
    ((∃ c, compile settings raw = .ok c) ↔
        ∀ app, App.ofJson raw = .ok app → app.WellFormed → app.Exact) ∧
      (∀ c, compile settings raw = .ok c → (c.release? = none ↔ ∃ d ∈ c.diagnostics, d.isError = true)) ∧
      ∀ e, compile settings raw = .error e →
        ∃ app i, App.ofJson raw = .ok app ∧ app.WellFormed ∧ .int i ∈ app.toJson.numbers ∧
          exactLimit.toNat < i.natAbs ∧ e = .integer i := by
  have hbeyond (e : DomainError) (h : compile settings raw = .error e) :
      ∃ app i, App.ofJson raw = .ok app ∧ app.WellFormed ∧ .int i ∈ app.toJson.numbers ∧
        exactLimit.toNat < i.natAbs ∧ e = .integer i := by
    obtain ⟨app, hread, hclean, herror⟩ := compile_error_iff.1 h
    obtain ⟨i, hi, hfar, rfl⟩ := App.exists_beyond hread herror
    exact ⟨app, i, hread, accepted_iff_wellFormed.1 hclean, hi, hfar, rfl⟩
  refine ⟨⟨?_, ?_⟩, fun c => release?_eq_none_iff, hbeyond⟩
  · rintro ⟨c, hc⟩ app hread hformed i hi
    -- Without a canonical form of the integer there would be an error.
    cases hwhole : canonical? app.normalize.toJson with
    | error e =>
      rw [compile_error_iff.2 ⟨app, hread, accepted_iff_wellFormed.2 hformed, hwhole⟩] at hc
      cases hc
    | ok w =>
      exact canonicalNumber_ok_iff_int.1
        (canonicalNumber_of_canonical? hwhole (.int i) (App.mem_numbers_normalize.2 hi))
  · intro hexact
    cases hc : compile settings raw with
    | ok c => exact ⟨c, rfl⟩
    | error e =>
      obtain ⟨app, i, hread, hformed, hi, hfar, _⟩ := hbeyond e hc
      exact absurd (hexact app hread hformed i hi) (Nat.not_le.2 hfar)

/-- A form with a length bound of two to the fifty-third. -/
def longForm : App :=
  { summaryForm "notes" with
    stateModel := [("notes", .primitive ⟨.string, none, none, some 0x20000000000000, none⟩)] }

/-- The form is accepted, and compiling it ends with an error. -/
theorem compile_longForm :
    (validate longForm.toJson).ok = true ∧ (validate longForm.toJson).errors = [] ∧
      compile Settings.default longForm.toJson = .error (.integer 0x20000000000000) := by
  decide +kernel

end FormFlow
