import Mathlib.Data.List.TakeWhile
import Extraction.Proofs.CheckedPlan
import Extraction.Proofs.HostRun
/-!
What planning accepts. The checks come in a fixed order, and the first that fails decides the
answer: that there is a selection, that it describes the buffer, that the component has a name and
that its template can be loaded and rendered. A request that passes them is planned, and its edit
applies to the buffer as it does on a host.
-/

namespace Extraction

open Byte Bytes

/-- The text and the range of a selection are those of some characters of a string. -/
structure Selection.Describes (selection : Selection) (source : String) : Prop where
  start_le_stop : selection.span.start ≤ selection.span.stop
  stop_le_length : selection.span.stop ≤ (utf8 source).length
  start_between : IsCharOffset source selection.span.start
  stop_between : IsCharOffset source selection.span.stop
  text_eq : (utf8 source).slice selection.span = selection.text

/-- The selection that a request brings, if it has a text that describes the buffer. -/
structure Selection.Accepted (source : String) (given : Option Selection)
    (selection : Selection) : Prop where
  given : given = some selection
  text_ne : selection.text ≠ []
  describes : selection.Describes source

def IsBlankName (name : Option String) : Prop :=
  ∀ raw, name = some raw → ∀ c ∈ raw.toList, isWhiteSpace c = true

/-- The template of a component can be loaded and rendered around a text. -/
def Extractor.CanRender (extractor : Extractor) (names : ComponentNames)
    (selectedText : Bytes) : Prop :=
  let options := extractor.options.synthesis
  ∃ text template content, options.Loads (extractor.templateFile options.template) text ∧
    Template.parse? text = some template ∧
    template.render .none (names.context options.importSource selectedText) = .ok content

def Identifier.IsGiven (name : Option String) (identifier : Identifier) : Prop :=
  ∃ raw, name = some raw ∧ identifier.text = trimmed raw

/-- The answer to a request, by the first check that fails. -/
inductive Extractor.Answers (extractor : Extractor) (source : String)
    (selection : Option Selection) (name : Option String) :
    Except ExtractError ExtractionPlan → Prop
  | noSelection (hempty : ∀ given, selection = some given → given.text = []) :
      Answers extractor source selection name (.error .noSelection)
  | invalidSelection {given : Selection} (hgiven : selection = some given)
      (htext : given.text ≠ []) (hstale : ¬ given.Describes source) :
      Answers extractor source selection name
        (.error (.invalidSelection given.span (utf8 source).length))
  | emptyIdentifier {given : Selection} (haccepted : given.Accepted source selection)
      (hblank : IsBlankName name) :
      Answers extractor source selection name (.error .emptyIdentifier)
  | template {given : Selection} {identifier : Identifier} {cause : TemplateError}
      (haccepted : given.Accepted source selection) (hidentifier : identifier.IsGiven name)
      (hrender : ¬ extractor.CanRender (extractor.options.naming.derive identifier) given.text) :
      Answers extractor source selection name (.error (.template cause))
  | planned {given : Selection} {identifier : Identifier} {plan : ExtractionPlan}
      (haccepted : given.Accepted source selection) (hidentifier : identifier.IsGiven name)
      (hrender : extractor.CanRender (extractor.options.naming.derive identifier) given.text) :
      Answers extractor source selection name (.ok plan)

/-! The checks. -/

theorem Selection.describes_iff {selection : Selection} {source : String} :
    selection.Describes source ↔
      (utf8 source).slice? selection.span = some selection.text := by
  rw [slice?_eq_some_iff, Span.fits, Bool.and_eq_true, Bool.and_eq_true, decide_eq_true_eq,
    isBoundary_utf8_iff, isBoundary_utf8_iff]
  constructor
  · rintro ⟨hle, -, hstart, hstop, htext⟩
    exact ⟨⟨⟨hle, hstart⟩, hstop⟩, htext⟩
  · rintro ⟨⟨⟨hle, hstart⟩, hstop⟩, htext⟩
    exact ⟨hle, le_length_of_isBoundary (isBoundary_utf8_iff.mpr hstop), hstart, hstop, htext⟩

theorem Selection.checkAgainst_eq_ok_iff {selection : Selection} {buffer : Bytes} :
    selection.checkAgainst buffer = .ok () ↔
      buffer.slice? selection.span = some selection.text := by
  unfold checkAgainst
  split <;> simp_all

theorem Selection.ofBuffer_eq_ok_iff {selection : Selection} {buffer : Bytes} {span : Span} :
    Selection.ofBuffer buffer span = .ok selection ↔
      selection.span = span ∧ selection.checkAgainst buffer = .ok () := by
  rw [checkAgainst_eq_ok_iff]
  unfold ofBuffer
  constructor
  · intro h
    split at h
    · next hslice =>
        cases h
        exact ⟨rfl, hslice⟩
    · cases h
  · rintro ⟨rfl, hslice⟩
    rw [hslice]

theorem trimChars_eq_nil_iff {cs : List Char} :
    trimChars cs = [] ↔ ∀ c ∈ cs, isWhiteSpace c = true := by
  rw [trimChars, List.reverse_eq_nil_iff, List.dropWhile_eq_nil_iff]
  constructor
  · intro hall
    rw [← List.dropWhile_eq_nil_iff]
    cases hrest : cs.dropWhile isWhiteSpace with
    | nil => rfl
    | cons c rest =>
        have hfirst := List.head?_dropWhile_not isWhiteSpace cs
        rw [hrest] at hfirst hall
        have hspace := hall c (by simp)
        rw [show isWhiteSpace c = false from hfirst] at hspace
        cases hspace
  · intro hall c hc
    rw [List.dropWhile_eq_nil_iff.mpr hall] at hc
    cases hc

theorem trimmed_eq_empty_iff {s : String} :
    trimmed s = "" ↔ ∀ c ∈ s.toList, isWhiteSpace c = true := by
  rw [← trimChars_eq_nil_iff, trimmed]
  constructor
  · intro h
    have hlist := congrArg String.toList h
    rwa [String.toList_ofList] at hlist
  · intro h
    rw [h]

theorem Identifier.parse_eq_ok_iff {raw : String} {identifier : Identifier} :
    Identifier.parse raw = .ok identifier ↔ identifier.text = trimmed raw := by
  constructor
  · exact of_parse_ok
  · intro htext
    have hne : trimmed raw ≠ "" := htext ▸ identifier.ne_empty
    obtain ⟨text, hne'⟩ := identifier
    obtain rfl : text = trimmed raw := htext
    rw [parse, dif_neg hne]

theorem Extractor.canRender_iff {extractor : Extractor} {names : ComponentNames}
    {selectedText : Bytes} (enclosingPath : String) :
    extractor.CanRender names selectedText ↔
      ∃ file, extractor.synthesizeFile names selectedText enclosingPath = .ok file := by
  let options := extractor.options.synthesis
  have hcontent : extractor.CanRender names selectedText ↔
      ∃ content, synthesize options (extractor.templateFile options.template) names selectedText =
        .ok content := by
    simp only [synthesize_eq_ok_iff]
    exact ⟨fun ⟨text, template, content, h⟩ => ⟨content, text, template, h⟩,
      fun ⟨content, text, template, h⟩ => ⟨text, template, content, h⟩⟩
  rw [hcontent, synthesizeFile]
  constructor
  · rintro ⟨content, hmade⟩
    simp only [options, hmade]
    exact ⟨_, rfl⟩
  · rintro ⟨file, hfile⟩
    split at hfile
    · cases hfile
    · next content hmade => exact ⟨content, hmade⟩

/-! The name of a request. -/

theorem isBlankName_iff {name : Option String} :
    IsBlankName name ↔ trimmed (name.getD "") = "" := by
  rw [trimmed_eq_empty_iff]
  cases name with
  | none => simp [IsBlankName]
  | some raw => simp [IsBlankName]

theorem Identifier.isGiven_iff {name : Option String} {identifier : Identifier} :
    identifier.IsGiven name ↔ Identifier.parse (name.getD "") = .ok identifier := by
  rw [parse_eq_ok_iff]
  cases name with
  | none =>
      refine iff_of_false (fun ⟨_, hnone, _⟩ => nomatch hnone) fun htext => ?_
      exact identifier.ne_empty (htext.trans (isBlankName_iff.mp (by simp [IsBlankName])))
  | some raw => simp [IsGiven]

theorem Identifier.exists_isGiven {name : Option String} (hname : ¬ IsBlankName name) :
    ∃ identifier : Identifier, identifier.IsGiven name := by
  rw [isBlankName_iff] at hname
  exact ⟨⟨_, hname⟩, isGiven_iff.mpr (parse_eq_ok_iff.mpr rfl)⟩

/-! What each check answers. -/

section Answers

variable {source : String} {selection : Option Selection} {given : Selection}

theorem Selection.validate_of_empty
    (hempty : ∀ given, selection = some given → given.text = []) (buffer : Bytes) :
    Selection.validate buffer selection = .error .noSelection := by
  cases selection with
  | none => rfl
  | some given => simp [validate, hempty given rfl]

theorem Selection.validate_of_stale (htext : given.text ≠ []) (hstale : ¬ given.Describes source) :
    Selection.validate (utf8 source) (some given) =
      .error (.invalidSelection given.span (utf8 source).length) := by
  rw [describes_iff] at hstale
  simp [validate, checkAgainst, htext, hstale]

theorem Selection.Accepted.validate_eq (haccepted : given.Accepted source selection) :
    Selection.validate (utf8 source) selection = .ok given := by
  obtain ⟨rfl, htext, hdescribes⟩ := haccepted
  rw [describes_iff] at hdescribes
  simp [validate, checkAgainst, htext, hdescribes]

namespace Extractor

variable {extractor : Extractor} {path : String} {name : Option String} {identifier : Identifier}

theorem plan_of_empty (hempty : ∀ given, selection = some given → given.text = []) :
    extractor.plan ⟨path, utf8 source, selection, name⟩ = .error .noSelection := by
  rw [plan, Selection.validate_of_empty hempty]

theorem plan_of_stale (hgiven : selection = some given) (htext : given.text ≠ [])
    (hstale : ¬ given.Describes source) :
    extractor.plan ⟨path, utf8 source, selection, name⟩ =
      .error (.invalidSelection given.span (utf8 source).length) := by
  rw [plan, hgiven, Selection.validate_of_stale htext hstale]

theorem plan_of_blankName (haccepted : given.Accepted source selection)
    (hblank : IsBlankName name) :
    extractor.plan ⟨path, utf8 source, selection, name⟩ = .error .emptyIdentifier :=
  plan_of_blank haccepted.validate_eq (isBlankName_iff.mp hblank)

section Given

variable (path) (haccepted : given.Accepted source selection)
  (hidentifier : identifier.IsGiven name)
include haccepted hidentifier

theorem exists_plan_of_canRender
    (hrender : extractor.CanRender (extractor.options.naming.derive identifier) given.text) :
    ∃ plan, extractor.plan ⟨path, utf8 source, selection, name⟩ = .ok plan := by
  obtain ⟨file, hfile⟩ := (canRender_iff path).mp hrender
  rw [Identifier.isGiven_iff] at hidentifier
  rw [plan, haccepted.validate_eq]
  simp only [hidentifier, hfile]
  exact ⟨_, rfl⟩

theorem exists_cause_of_not_canRender
    (hrender : ¬ extractor.CanRender (extractor.options.naming.derive identifier) given.text) :
    ∃ cause, extractor.plan ⟨path, utf8 source, selection, name⟩ =
      .error (.template cause) := by
  rw [canRender_iff path] at hrender
  rw [Identifier.isGiven_iff] at hidentifier
  rw [plan, haccepted.validate_eq]
  cases hfile : extractor.synthesizeFile (extractor.options.naming.derive identifier) given.text
      path with
  | ok file => exact absurd ⟨file, hfile⟩ hrender
  | error err =>
      obtain ⟨cause, rfl⟩ := of_synthesizeFile_error hfile
      simp only [hidentifier, hfile]
      exact ⟨cause, rfl⟩

end Given

/-- Every request is answered by the first check that fails. -/
theorem answers_plan (extractor : Extractor) (path source : String)
    (selection : Option Selection) (name : Option String) :
    extractor.Answers source selection name
      (extractor.plan ⟨path, utf8 source, selection, name⟩) := by
  by_cases hempty : ∀ given, selection = some given → given.text = []
  · rw [plan_of_empty hempty]
    exact .noSelection hempty
  · obtain ⟨given, hgiven, htext⟩ : ∃ given, selection = some given ∧ given.text ≠ [] := by
      simpa using hempty
    by_cases hdescribes : given.Describes source
    · have haccepted : given.Accepted source selection := ⟨hgiven, htext, hdescribes⟩
      by_cases hblank : IsBlankName name
      · rw [plan_of_blankName haccepted hblank]
        exact .emptyIdentifier haccepted hblank
      · obtain ⟨identifier, hidentifier⟩ := Identifier.exists_isGiven hblank
        by_cases hrender :
            extractor.CanRender (extractor.options.naming.derive identifier) given.text
        · obtain ⟨plan, hplan⟩ :=
            exists_plan_of_canRender path haccepted hidentifier hrender
          rw [hplan]
          exact .planned haccepted hidentifier hrender
        · obtain ⟨cause, hplan⟩ :=
            exists_cause_of_not_canRender path haccepted hidentifier hrender
          rw [hplan]
          exact .template haccepted hidentifier hrender
    · rw [plan_of_stale hgiven htext hdescribes]
      exact .invalidSelection hgiven htext hdescribes

theorem apply_of_plan_ok {plan : ExtractionPlan}
    (hplan : extractor.plan ⟨path, utf8 source, selection, name⟩ = .ok plan) :
    ∃ given : Selection, given.Accepted source selection ∧
      let edited := (utf8 source).take given.span.start ++
        (utf8 plan.names.referenceTag ++ (utf8 source).drop given.span.stop)
      plan.selectionEdit.applied? (utf8 source) = some edited ∧
        spliceBuffer (utf8 source) plan.selectionEdit.span plan.selectionEdit.replacement =
          .ok edited := by
  have hanswers := extractor.answers_plan path source selection name
  rw [hplan] at hanswers
  cases hanswers with
  | @planned given identifier _ haccepted hidentifier hrender =>
      obtain ⟨chosen, -, hchosen, -, -, -, hedit, -⟩ := of_plan_ok hplan
      obtain rfl : given = chosen := Except.ok.inj (haccepted.validate_eq.symm.trans hchosen)
      have hfits := fits_of_plan_ok hplan
      have hedited : plan.selectionEdit.apply (utf8 source) =
          (utf8 source).take given.span.start ++
            (utf8 plan.names.referenceTag ++ (utf8 source).drop given.span.stop) := by
        rw [hedit, TextEdit.apply, splice, List.append_assoc]
      refine ⟨given, haccepted, ?_, ?_⟩
      · rw [TextEdit.applied?_eq hfits, hedited]
      · rw [spliceBuffer_of_fits hfits, ← hedited]
        rfl

/-- What planning answers to a request, and that an answer always comes: its checks in their
order, and the edit of a plan that was made. -/
theorem plan_checks (extractor : Extractor) (path source : String)
    (selection : Option Selection) (name : Option String) :
    let request : ExtractRequest := ⟨path, utf8 source, selection, name⟩
    extractor.plan? request = some (extractor.plan request) ∧
      (extractor.plan request = .error .noSelection ↔
        ∀ given, selection = some given → given.text = []) ∧
      (∀ span length, extractor.plan request = .error (.invalidSelection span length) ↔
        ∃ given, selection = some given ∧ given.text ≠ [] ∧ ¬ given.Describes source ∧
          span = given.span ∧ length = (utf8 source).length) ∧
      (extractor.plan request = .error .emptyIdentifier ↔
        (∃ given : Selection, given.Accepted source selection) ∧ IsBlankName name) ∧
      ((∃ cause, extractor.plan request = .error (.template cause)) ↔
        ∃ (given : Selection) (identifier : Identifier), given.Accepted source selection ∧
          identifier.IsGiven name ∧
          ¬ extractor.CanRender (extractor.options.naming.derive identifier) given.text) ∧
      ((∃ plan, extractor.plan request = .ok plan) ↔
        ∃ (given : Selection) (identifier : Identifier), given.Accepted source selection ∧
          identifier.IsGiven name ∧
          extractor.CanRender (extractor.options.naming.derive identifier) given.text) ∧
      (∀ plan, extractor.plan request = .ok plan →
        ∃ given : Selection, given.Accepted source selection ∧
          let edited := (utf8 source).take given.span.start ++
            (utf8 plan.names.referenceTag ++ (utf8 source).drop given.span.stop)
          plan.selectionEdit.applied? (utf8 source) = some edited ∧
            spliceBuffer (utf8 source) plan.selectionEdit.span plan.selectionEdit.replacement =
              .ok edited) ∧
      ∀ span given, Selection.ofBuffer (utf8 source) span = .ok given ↔
        given.span = span ∧ given.checkAgainst (utf8 source) = .ok () := by
  intro request
  have hanswers := extractor.answers_plan path source selection name
  refine ⟨extractor.plan?_eq rfl, ⟨fun h => ?_, plan_of_empty⟩,
    fun span length => ⟨fun h => ?_, ?_⟩, ⟨fun h => ?_, ?_⟩, ⟨?_, ?_⟩, ⟨?_, ?_⟩,
    fun plan => apply_of_plan_ok, fun span given => Selection.ofBuffer_eq_ok_iff⟩
  · rw [h] at hanswers
    cases hanswers with
    | noSelection hempty => exact hempty
  · rw [h] at hanswers
    cases hanswers with
    | invalidSelection hgiven htext hstale => exact ⟨_, hgiven, htext, hstale, rfl, rfl⟩
  · rintro ⟨given, hgiven, htext, hstale, rfl, rfl⟩
    exact plan_of_stale hgiven htext hstale
  · rw [h] at hanswers
    cases hanswers with
    | emptyIdentifier haccepted hblank => exact ⟨⟨_, haccepted⟩, hblank⟩
  · rintro ⟨⟨given, haccepted⟩, hblank⟩
    exact plan_of_blankName haccepted hblank
  · rintro ⟨cause, h⟩
    rw [h] at hanswers
    cases hanswers with
    | template haccepted hidentifier hrender => exact ⟨_, _, haccepted, hidentifier, hrender⟩
  · rintro ⟨given, identifier, haccepted, hidentifier, hrender⟩
    exact exists_cause_of_not_canRender path haccepted hidentifier hrender
  · rintro ⟨plan, h⟩
    rw [h] at hanswers
    cases hanswers with
    | planned haccepted hidentifier hrender => exact ⟨_, _, haccepted, hidentifier, hrender⟩
  · rintro ⟨given, identifier, haccepted, hidentifier, hrender⟩
    exact exists_plan_of_canRender path haccepted hidentifier hrender

/-- A selection that starts inside a character, a reversed one, and one that is replaced. -/
theorem plan_checks_characters :
    let extractor : Extractor :=
      { options := { synthesis := { importSource := "", template := "t" } }
        templateFile := fun _ => .readable (utf8 "<b>") }
    let request (span : Span) : ExtractRequest :=
      ⟨"a.ts", utf8 "é<p>", some ⟨utf8 "<p>", span⟩, some " x "⟩
    extractor.plan (request ⟨1, 4⟩) = .error (.invalidSelection ⟨1, 4⟩ 5) ∧
      extractor.plan (request ⟨5, 2⟩) = .error (.invalidSelection ⟨5, 2⟩ 5) ∧
      ∃ plan, extractor.plan (request ⟨2, 5⟩) = .ok plan ∧
        plan.selectionEdit.applied? (utf8 "é<p>") =
          some (utf8 "é" ++ utf8 plan.names.referenceTag) := by
  intro extractor request
  have htext : utf8 "<p>" ≠ [] := by decide
  have hchecks := fun span =>
    extractor.plan_checks "a.ts" "é<p>" (some ⟨utf8 "<p>", span⟩) (some " x ")
  have hstale : ∀ {span : Span}, (utf8 "é<p>").slice? span ≠ some (utf8 "<p>") →
      extractor.plan (request span) = .error (.invalidSelection span 5) := by
    intro span hslice
    refine ((hchecks span).2.2.1 span 5).mpr ⟨_, rfl, htext, fun hdescribes => ?_, rfl, rfl⟩
    exact hslice (Selection.describes_iff.mp hdescribes)
  obtain ⟨plan, hplan⟩ : ∃ plan, extractor.plan (request ⟨2, 5⟩) = .ok plan :=
    exists_of_isSome (by decide +kernel)
  obtain ⟨given, haccepted, hedit, -⟩ := (hchecks ⟨2, 5⟩).2.2.2.2.2.2.1 plan hplan
  obtain rfl := Option.some.inj haccepted.given
  have hend : (utf8 "é<p>").drop 5 = [] := by decide
  rw [hend, List.append_nil] at hedit
  exact ⟨hstale (by decide +kernel), hstale (by decide +kernel), plan, hplan, hedit⟩

end Extractor

end Answers

end Extraction
