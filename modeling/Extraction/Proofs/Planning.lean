import Extraction.Plan
import Extraction.Proofs.Slices
import Extraction.Proofs.TemplateTexts
/-!
What a plan that was made, and what a selection that was accepted or refused, say about the request.
-/

namespace Extraction

theorem exists_of_isSome {ε α : Type} {result : Except ε α}
    (h : result.toOption.isSome = true) : ∃ a, result = .ok a := by
  cases result with
  | error err => cases h
  | ok a => exact ⟨a, rfl⟩

theorem exists_of_toOption {ε α β : Type} {result : Except ε α} {read : α → β} {b : β}
    (h : result.toOption.map read = some b) : ∃ a, result = .ok a ∧ read a = b := by
  cases result with
  | error err => cases h
  | ok a => exact ⟨a, rfl, Option.some.inj h⟩

theorem Selection.of_ofBuffer_error {buffer : Bytes} {span : Span} {err : ExtractError}
    (h : Selection.ofBuffer buffer span = .error err) :
    err = .invalidSelection span buffer.length := by
  unfold ofBuffer at h
  split at h
  · cases h
  · cases h
    rfl

theorem Selection.of_validate_ok {buffer : Bytes} {given : Option Selection}
    {selection : Selection} (h : Selection.validate buffer given = .ok selection) :
    given = some selection ∧ buffer.slice? selection.span = some selection.text := by
  unfold Selection.validate at h
  split at h
  · cases h
  · split at h
    · cases h
    · split at h
      · next hcheck =>
          cases h
          unfold checkAgainst at hcheck
          split at hcheck
          · next hslice => exact ⟨rfl, hslice⟩
          · cases hcheck
      · cases h

theorem Selection.of_validate_error {buffer : Bytes} {selection : Option Selection}
    {err : ExtractError} (h : Selection.validate buffer selection = .error err) :
    err = .noSelection ∨ ∃ span, err = .invalidSelection span buffer.length := by
  unfold Selection.validate checkAgainst at h
  split at h
  · cases h
    exact .inl rfl
  split at h
  · cases h
    exact .inl rfl
  split at h
  · cases h
  next hcheck =>
  cases h
  split at hcheck
  · cases hcheck
  · cases hcheck
    exact .inr ⟨_, rfl⟩

theorem Selection.isSilent_of_validate_error {buffer : Bytes} {selection : Option Selection}
    {err : ExtractError} (h : Selection.validate buffer selection = .error err) :
    err.isSilent = false := by
  rcases of_validate_error h with rfl | ⟨span, rfl⟩
  · rfl
  · rfl

theorem Identifier.of_parse_ok {raw : String} {identifier : Identifier}
    (h : Identifier.parse raw = .ok identifier) : identifier.text = trimmed raw := by
  unfold Identifier.parse at h
  split at h
  · cases h
  · cases h
    rfl

theorem Identifier.of_parse_error {raw : String} {err : ExtractError}
    (h : Identifier.parse raw = .error err) : err = .emptyIdentifier := by
  unfold Identifier.parse at h
  split at h
  · cases h
    rfl
  · cases h

namespace Extractor

variable {extractor : Extractor} {request : ExtractRequest}

theorem of_plan_ok {plan : ExtractionPlan} (h : extractor.plan request = .ok plan) :
    ∃ selection identifier,
      Selection.validate request.buffer request.selection = .ok selection ∧
      Identifier.parse (request.identifier.getD "") = .ok identifier ∧
      plan.names = extractor.options.naming.derive identifier ∧
      plan.modulePath = plan.names.modulePath ∧
      plan.selectionEdit = ⟨selection.span, utf8 plan.names.referenceTag⟩ ∧
      plan.rewire = extractor.planRewire plan.names (plan.selectionEdit.apply request.buffer) := by
  unfold Extractor.plan at h
  split at h
  · cases h
  · next selection hselection =>
      split at h
      · cases h
      · next identifier hidentifier =>
          simp only at h
          split at h
          · cases h
          · cases h
            exact ⟨selection, identifier, hselection, hidentifier, rfl, rfl, rfl, rfl⟩

theorem exists_synthesizeFile_of_plan_ok {plan : ExtractionPlan}
    (h : extractor.plan request = .ok plan) :
    ∃ selection, Selection.validate request.buffer request.selection = .ok selection ∧
      extractor.synthesizeFile plan.names selection.text request.enclosingPath =
        .ok plan.file := by
  unfold Extractor.plan at h
  split at h
  · cases h
  next selection hselection =>
  split at h
  · cases h
  simp only at h
  split at h
  · cases h
  next hfile =>
  cases h
  exact ⟨selection, hselection, hfile⟩

theorem rewire_of_plan_ok {plan : ExtractionPlan} {outcome : RewireOutcome} {keep : Bool}
    (h : extractor.plan request = .ok plan) (hrewire : plan.rewire = some ⟨outcome, keep⟩) :
    rewire (plan.selectionEdit.apply request.buffer) plan.names.symbolicName plan.modulePath
      extractor.options.blockScan = outcome := by
  obtain ⟨_, _, -, -, -, hmodule, -, hplanned⟩ := of_plan_ok h
  rw [hplanned, planRewire] at hrewire
  split at hrewire
  · rw [hmodule]
    exact congrArg RewirePlan.outcome (Option.some.inj hrewire)
  · cases hrewire

theorem of_synthesizeFile_error {names : ComponentNames} {selectedText : Bytes}
    {enclosingPath : String} {err : ExtractError}
    (h : extractor.synthesizeFile names selectedText enclosingPath = .error err) :
    ∃ cause, err = .template cause := by
  unfold synthesizeFile at h
  simp only at h
  split at h
  · next hcontent =>
      cases h
      exact of_synthesize_error hcontent
  · cases h

/-- No plan is made for a blank name, for a fault in the selection or for one in the template. -/
theorem of_plan_error {err : ExtractError} (h : extractor.plan request = .error err) :
    err = .emptyIdentifier ∨ err = .noSelection ∨
      (∃ span, err = .invalidSelection span request.buffer.length) ∨
      ∃ cause, err = .template cause := by
  unfold Extractor.plan at h
  split at h
  · next hselection =>
      cases h
      exact .inr ((Selection.of_validate_error hselection).imp_right .inl)
  split at h
  · next hidentifier =>
      cases h
      exact .inl (Identifier.of_parse_error hidentifier)
  simp only at h
  split at h
  · next hfile =>
      cases h
      exact .inr (.inr (.inr (of_synthesizeFile_error hfile)))
  · cases h

theorem plan_of_blank {selection : Selection}
    (hselection : Selection.validate request.buffer request.selection = .ok selection)
    (hblank : trimmed (request.identifier.getD "") = "") :
    extractor.plan request = .error .emptyIdentifier := by
  rw [Extractor.plan, hselection]
  simp only [Identifier.parse, dif_pos hblank]

theorem fits_of_plan_ok {plan : ExtractionPlan}
    (hplan : extractor.plan request = .ok plan) :
    plan.selectionEdit.span.fits request.buffer = true := by
  obtain ⟨selection, identifier, hselection, -, -, -, hedit, -⟩ := of_plan_ok hplan
  obtain ⟨-, hslice⟩ := Selection.of_validate_ok hselection
  rw [hedit]
  exact (Bytes.slice?_eq_some_iff.mp hslice).1

end Extractor

end Extraction
