import Extraction.Host.Session
import Extraction.Proofs.Endings
/-!
Sessions on a host in memory. Whatever is done, in whatever order, files are only added, and what
was told or shown stays on record. So a plan that has created its file never applies again.
-/

namespace Extraction

/-- A step of a session on a host in memory, or a change to what the host refuses. -/
inductive MemoryStep
  /-- `templates` says what each path leads to as a template at that time. -/
  | act (templates : String → TemplateFile) (step : SessionStep)
  | carryOut (plan : ExtractionPlan)
  | refuseWrites (kind : Option String)
  | refuseReplacements (reason : Option String)

structure MemorySession where
  host : MemoryHost := {}
  session : Session := {}
deriving DecidableEq, Repr

namespace MemorySession

variable (state : MemorySession)

def step : MemoryStep → SessionAnswer × MemorySession
  | .act templates step =>
      let out := (state.session.step (fun name => pure (templates name)) step :
        StateM MemoryHost (SessionAnswer × Session)) state.host
      (out.1.1, ⟨out.2, out.1.2⟩)
  | .carryOut plan =>
      let out := (plan.apply : MemoryRun ExtractionReport) state.host
      (.reported out.1, { state with host := out.2 })
  | .refuseWrites kind => (.done, { state with host.failWrites := kind })
  | .refuseReplacements reason => (.done, { state with host.failReplaceAll := reason })

def run (steps : List MemoryStep) : MemorySession :=
  steps.foldl (fun state step => (state.step step).2) state

def extractor (templates : String → TemplateFile) : Extractor where
  options := state.session.options
  templateFile _ := templates state.session.options.synthesis.template

def requestOf (request : SessionRequest) : ExtractRequest where
  enclosingPath := request.path
  buffer := request.buffer.getD state.host.buffer
  selection := request.selection
  identifier := request.identifier

/-- The steps that carry out a plan: a given one, the remembered one, or one made for a run. -/
inductive Applies (plan : ExtractionPlan) : MemoryStep → Prop
  | carryOut : Applies plan (.carryOut plan)
  | apply {templates : String → TemplateFile} (hplan : state.session.remembered = some plan) :
      Applies plan (.act templates .apply)
  | run {templates : String → TemplateFile} {request : SessionRequest}
      (hplan : (state.extractor templates).plan (state.requestOf request) = .ok plan) :
      Applies plan (.act templates (.run request))

/-- A step that carries out a plan and makes its file. -/
structure Creates (plan : ExtractionPlan) (step : MemoryStep) : Prop where
  applies : state.Applies plan step
  free : FileMap.get? state.host.files plan.file.path = none
  created : FileMap.get? (state.step step).2.host.files plan.file.path = some plan.file.content

/-- The end of a step that carries out a plan whose file cannot be created. -/
def refused (plan : ExtractionPlan) (cause : IoError) : SessionAnswer × MemorySession :=
  let err := ExtractError.writeFailure plan.file.path cause
  (.reported (.error err), { state with host := state.host.told (.error err.message) })

end MemorySession

namespace MemoryHost

/-- What nothing takes back: files keep their content, and the records only grow at their ends. -/
structure Extends (start host : MemoryHost) : Prop where
  kept : ∀ path content, FileMap.get? start.files path = some content →
    FileMap.get? host.files path = some content
  notifications_prefix : start.notifications <+: host.notifications
  opened_prefix : start.opened <+: host.opened

namespace Extends

variable {start host next : MemoryHost}

theorem of_eq (hfiles : host.files = start.files)
    (hnotifications : host.notifications = start.notifications)
    (hopened : host.opened = start.opened) : start.Extends host where
  kept path content hcontent := by rw [hfiles, hcontent]
  notifications_prefix := ⟨[], by rw [hnotifications, List.append_nil]⟩
  opened_prefix := ⟨[], by rw [hopened, List.append_nil]⟩

theorem refl (host : MemoryHost) : host.Extends host := of_eq rfl rfl rfl

theorem trans (h : start.Extends host) (hnext : host.Extends next) : start.Extends next where
  kept path content hcontent := hnext.kept path content (h.kept path content hcontent)
  notifications_prefix := h.notifications_prefix.trans hnext.notifications_prefix
  opened_prefix := h.opened_prefix.trans hnext.opened_prefix

theorem told (host : MemoryHost) (notification : Notification) :
    host.Extends (host.told notification) where
  kept _ _ hcontent := hcontent
  notifications_prefix := List.prefix_append _ _
  opened_prefix := List.prefix_rfl

theorem created (file : SynthesizedFile) (hfree : FileMap.get? host.files file.path = none) :
    host.Extends (host.created file) where
  kept _ _ hcontent := FileMap.get?_insert_of_some _ _ hfree hcontent
  notifications_prefix := List.prefix_rfl
  opened_prefix := List.prefix_rfl

theorem outcome {plan : ExtractionPlan} {ending : Ending} (hends : plan.Ends host ending) :
    host.Extends (ending.outcome host).2 := by
  cases hends with
  | writeFailure => exact .told _ _
  | rangeRefused _ hfree => exact (created plan.file hfree).trans (.told _ _)
  | bufferRefused _ hfree =>
      exact ⟨(created plan.file hfree).kept, List.prefix_append _ _, List.prefix_rfl⟩
  | finished _ hfree =>
      exact ⟨(created plan.file hfree).kept, List.prefix_append _ _, List.prefix_append _ _⟩

theorem apply (plan : ExtractionPlan) (host : MemoryHost) :
    host.Extends ((plan.apply : MemoryRun ExtractionReport) host).2 := by
  obtain ⟨ending, hends, hout⟩ := plan.exists_ends host
  rw [hout]
  exact outcome hends

theorem run (extractor : Extractor) (request : ExtractRequest) (host : MemoryHost) :
    host.Extends ((extractor.run request : MemoryRun ExtractionReport) host).2 := by
  obtain ⟨ending, hends, hout⟩ := extractor.exists_ends request host
  rw [hout]
  cases hends with
  | cancelled => exact .refl host
  | refused => exact .told _ _
  | planned _ hends => exact outcome hends

theorem writeFile (path : String) (content : Bytes) (host : MemoryHost) :
    host.Extends (host.writeFile path content).2 := by
  rcases hwrite : host.writeFile path content with ⟨cause | ⟨⟨⟩⟩, next⟩
  · obtain rfl := of_writeFile_error hwrite
    exact .refl _
  · obtain ⟨-, hfree, rfl⟩ := of_writeFile_ok hwrite
    exact created ⟨path, content⟩ hfree

theorem replaceRange (span : Span) (text : Bytes) (host : MemoryHost) :
    host.Extends (host.replaceRange span text).2 := by
  rcases hrange : host.replaceRange span text with ⟨cause | ⟨⟨⟩⟩, next⟩
  · obtain ⟨rfl, -⟩ := of_replaceRange_error hrange
    exact .refl _
  · obtain ⟨-, rfl⟩ := of_replaceRange_ok hrange
    exact .of_eq rfl rfl rfl

theorem replaceAll (text : Bytes) (host : MemoryHost) :
    host.Extends (host.replaceAll text).2 := by
  rcases hbuffer : host.replaceAll text with ⟨cause | ⟨⟨⟩⟩, next⟩
  · obtain ⟨rfl, -⟩ := of_replaceAll_error hbuffer
    exact .refl _
  · obtain ⟨-, rfl⟩ := of_replaceAll_ok hbuffer
    exact .of_eq rfl rfl rfl

end Extends

end MemoryHost

namespace MemorySession

open MemoryHost

variable {state : MemorySession}

theorem host_step_plan (state : MemorySession) (templates : String → TemplateFile)
    (request : SessionRequest) :
    (state.step (.act templates (.plan request))).2.host = state.host := by
  have hextractor : stateRun.run (state.session.extractor fun name => pure (templates name))
      state.host = (state.extractor templates, state.host) := rfl
  have hrequest : stateRun.run (Session.request request) state.host =
      (state.requestOf request, state.host) := rfl
  change (stateRun.run (state.session.step _ (.plan request)) state.host).2 = state.host
  rw [Session.step, StateRun.run_bind_of_eq hextractor, StateRun.run_bind_of_eq hrequest]
  cases (state.extractor templates).plan (state.requestOf request) with
  | ok plan => rfl
  | error err => rfl

theorem Applies.step_eq {plan : ExtractionPlan} {step : MemoryStep} (h : state.Applies plan step) :
    state.step step = state.step (.carryOut plan) := by
  cases h with
  | carryOut => rfl
  | @apply templates hplan =>
      rw [MemorySession.step, Session.step, hplan]
      rfl
  | @run templates request hplan =>
      have hrun := stateRun.run_of_plan_ok hplan state.host
      exact congrArg (fun out : Except ExtractError ExtractionReport × MemoryHost =>
        (SessionAnswer.reported out.1, { state with host := out.2 })) hrun

theorem extends_step (state : MemorySession) (step : MemoryStep) :
    state.host.Extends (state.step step).2.host := by
  cases step with
  | carryOut plan => exact .apply plan state.host
  | refuseWrites | refuseReplacements => exact .of_eq rfl rfl rfl
  | act templates step =>
      cases step with
      | writeFile path content => exact .writeFile path content state.host
      | replaceRange span text => exact .replaceRange span text state.host
      | replaceAll text => exact .replaceAll text state.host
      | notify notification => exact .told state.host notification
      | openDocument path =>
          exact ⟨fun _ _ hcontent => hcontent, List.prefix_rfl, List.prefix_append _ _⟩
      | setOptions => exact .refl state.host
      | plan request =>
          rw [state.host_step_plan]
          exact .refl state.host
      | apply =>
          cases hplan : state.session.remembered with
          | none =>
              rw [step, Session.step, hplan]
              exact .refl state.host
          | some plan =>
              rw [(Applies.apply hplan).step_eq]
              exact .apply plan state.host
      | run request => exact .run (state.extractor templates) (state.requestOf request) state.host

/-- However a session goes on, what its host has is kept. -/
theorem extends_run (state : MemorySession) (steps : List MemoryStep) :
    state.host.Extends (state.run steps).host := by
  induction steps generalizing state with
  | nil => exact .refl state.host
  | cons step steps ih => exact (extends_step state step).trans (ih (state.step step).2)

theorem of_step_writeFile_error {templates : String → TemplateFile} {path : String}
    {content : Bytes} {cause : IoError}
    (h : (state.step (.act templates (.writeFile path content))).1 =
      .writeResult (.error cause)) :
    (state.step (.act templates (.writeFile path content))).2 = state := by
  have hresult : (state.host.writeFile path content).1 = .error cause :=
    SessionAnswer.writeResult.inj h
  have hhost : (state.host.writeFile path content).2 = state.host :=
    of_writeFile_error (Prod.ext hresult rfl)
  exact congrArg (fun host => { state with host }) hhost

theorem of_step_replaceRange_error {templates : String → TemplateFile} {span : Span}
    {text : Bytes} {cause : EditError}
    (h : (state.step (.act templates (.replaceRange span text))).1 =
      .editResult (.error cause)) :
    (state.step (.act templates (.replaceRange span text))).2 = state := by
  have hresult : (state.host.replaceRange span text).1 = .error cause :=
    SessionAnswer.editResult.inj h
  have hhost : (state.host.replaceRange span text).2 = state.host :=
    (of_replaceRange_error (Prod.ext hresult rfl)).1
  exact congrArg (fun host => { state with host }) hhost

variable {plan : ExtractionPlan} {step : MemoryStep}

theorem Applies.creates_or_refused (h : state.Applies plan step) :
    state.Creates plan step ∨ ∃ cause, state.step step = state.refused plan cause := by
  obtain ⟨ending, hends, hout⟩ := plan.exists_ends state.host
  have hstep : state.step step =
      (.reported (ending.outcome state.host).1,
        { state with host := (ending.outcome state.host).2 }) := by
    rw [h.step_eq, ← hout]
    rfl
  cases hends with
  | @writeFailure cause => exact .inr ⟨cause, hstep⟩
  | rangeRefused _ hfree | bufferRefused _ hfree | finished _ hfree =>
      refine .inl ⟨h, hfree, ?_⟩
      rw [hstep]
      exact (FileMap.get?_insert _ _ hfree _).trans (if_pos rfl)

theorem Applies.refused_of_taken (h : state.Applies plan step) {content : Bytes}
    (htaken : FileMap.get? state.host.files plan.file.path = some content) :
    ∃ cause, state.step step = state.refused plan cause := by
  rcases h.creates_or_refused with hcreates | hrefused
  · cases hcreates.free.symm.trans htaken
  · exact hrefused

/-- From any state of a session, so from any point of one on a fresh host: what is there is kept
however it goes on, a primitive that fails changes nothing, and a plan that has made its file is
refused ever after. -/
theorem write_once (state : MemorySession) (steps : List MemoryStep) :
    state.host.Extends (state.run steps).host ∧
    (∀ templates path content cause,
      (state.step (.act templates (.writeFile path content))).1 = .writeResult (.error cause) →
      (state.step (.act templates (.writeFile path content))).2 = state) ∧
    (∀ templates span text cause,
      (state.step (.act templates (.replaceRange span text))).1 = .editResult (.error cause) →
      (state.step (.act templates (.replaceRange span text))).2 = state) ∧
    (∀ plan step, state.Applies plan step →
      state.Creates plan step ∨ ∃ cause, state.step step = state.refused plan cause) ∧
    ∀ plan step again, state.Creates plan step →
      let later := (state.step step).2.run steps
      later.Applies plan again → ∃ cause, later.step again = later.refused plan cause := by
  refine ⟨extends_run state steps, fun _ _ _ _ => of_step_writeFile_error,
    fun _ _ _ _ => of_step_replaceRange_error, fun _ _ => Applies.creates_or_refused, ?_⟩
  intro plan step again hcreates later hagain
  have hkept : (state.step step).2.host.Extends later.host := extends_run _ steps
  exact hagain.refused_of_taken (hkept.kept _ _ hcreates.created)

theorem write_once_bufferRefused :
    let state : MemorySession :=
      { host := { buffer := utf8 "@Component(\x7b a: 'xyz' \x7d)", failReplaceAll := some "busy" }
        session := { options := { synthesis := { importSource := "", template := "t" } } } }
    let templates : String → TemplateFile := fun _ => .readable (utf8 "<b>")
    let request : SessionRequest :=
      { path := "a.ts", selection := some ⟨utf8 "y", ⟨18, 19⟩⟩, identifier := some "b" }
    let planned := (state.step (.act templates (.plan request))).2
    let steps : List MemoryStep :=
      [.act templates (.writeFile "c.ts" []), .refuseReplacements none,
        .act templates (.setOptions {})]
    let applied := (planned.step (.act templates .apply)).2
    let later := applied.run steps
    ∃ plan, planned.Creates plan (.act templates .apply) ∧
      applied.host.notifications = [.error "failed to edit buffer: busy"] ∧
      applied.host.Extends later.host ∧
      ∃ cause, later.step (.act templates .apply) = later.refused plan cause := by
  intro state templates request planned steps applied later
  obtain ⟨hplanned, hkept, hfree, hcreated, htold⟩ :
      planned.session.remembered.isSome = true ∧
      later.session.remembered = planned.session.remembered ∧
      (planned.session.remembered.map fun plan =>
        FileMap.get? planned.host.files plan.file.path) = some none ∧
      (planned.session.remembered.map fun plan =>
        FileMap.get? applied.host.files plan.file.path) =
          planned.session.remembered.map (fun plan => some plan.file.content) ∧
      applied.host.notifications = [.error "failed to edit buffer: busy"] := by decide +kernel
  obtain ⟨plan, hplan⟩ := Option.isSome_iff_exists.mp hplanned
  rw [hplan] at hkept hfree hcreated
  have hcreates : planned.Creates plan (.act templates .apply) :=
    ⟨.apply hplan, Option.some.inj hfree, Option.some.inj hcreated⟩
  refine ⟨plan, hcreates, htold, (write_once applied steps).1, ?_⟩
  exact (write_once planned steps).2.2.2.2 plan _ _ hcreates (.apply hkept)

end MemorySession

end Extraction
