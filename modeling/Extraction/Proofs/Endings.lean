import Mathlib.Data.List.Basic
import Mathlib.Logic.ExistsUnique
import Extraction.Proofs.MemoryRun
/-!
How a run on a host in memory ends. A run that fails has changed nothing, or has created its file
and then could not edit the buffer; the user is told once of a failure, and not at all if it was
the user who ended the run.
-/

namespace Extraction

/-- Errors before anything is changed that the user is told of. -/
def ExtractError.isRefusal : ExtractError → Bool
  | .noSelection => true
  | .invalidSelection _ _ => true
  | .template _ => true
  | .writeFailure _ _ => true
  | .emptyIdentifier => false
  | .bufferEdit _ => false

namespace ExtractionPlan

theorem error_not_mem_notifications (plan : ExtractionPlan) (message : String) :
    Notification.error message ∉ plan.notifications := by
  rcases plan with ⟨names, modulePath, file, edit, _ | ⟨_ | _, keep⟩⟩ <;> simp [notifications]

end ExtractionPlan

namespace MemoryHost

variable {host next : MemoryHost}

def told (host : MemoryHost) (notification : Notification) : MemoryHost :=
  { host with notifications := host.notifications ++ [notification] }

def created (host : MemoryHost) (file : SynthesizedFile) : MemoryHost :=
  { host with files := FileMap.insert file.path file.content host.files }

def edited (host : MemoryHost) (span : Span) (replacement : Bytes) : MemoryHost :=
  { host with
    buffer := host.buffer.take span.start ++ (replacement ++ host.buffer.drop span.stop) }

def failed (host : MemoryHost) (err : ExtractError) :
    Except ExtractError ExtractionReport × MemoryHost :=
  (.error err, host.told (.error err.message))

/-! A primitive that fails leaves the host as it was. -/

theorem of_writeFile_error {path : String} {content : Bytes} {cause : IoError}
    (h : host.writeFile path content = (.error cause, next)) : next = host := by
  unfold writeFile at h
  split at h
  · cases h
    rfl
  · split at h
    · cases h
      rfl
    · cases h

theorem of_replaceRange_error {span : Span} {text : Bytes} {cause : EditError}
    (h : host.replaceRange span text = (.error cause, next)) :
    next = host ∧ span.fits host.buffer = false ∧
      cause = .invalidRange span host.buffer.length := by
  unfold replaceRange spliceBuffer at h
  split at h
  · next hsplice =>
      cases h
      split at hsplice
      · cases hsplice
      · next hfits =>
          cases hsplice
          exact ⟨rfl, eq_false_of_ne_true hfits, rfl⟩
  · cases h

theorem of_replaceAll_error {text : Bytes} {cause : EditError}
    (h : host.replaceAll text = (.error cause, next)) :
    next = host ∧ ∃ reason, host.failReplaceAll = some reason ∧ cause = .refused reason := by
  unfold replaceAll at h
  split at h
  · next reason hreason =>
      cases h
      exact ⟨rfl, reason, hreason, rfl⟩
  · cases h

end MemoryHost

/-- How a run on a host in memory can end. -/
inductive Ending
  | cancelled
  /-- A fault was found, or the new file could not be created. -/
  | refused (err : ExtractError)
  /-- The file was created, but the selection is none of the buffer's. -/
  | rangeRefused (plan : ExtractionPlan)
  /-- The file was created and the tag put in, but the buffer could not be replaced. -/
  | bufferRefused (plan : ExtractionPlan) (reason : String)
  | finished (plan : ExtractionPlan)

/-- What a run gives that ends in some way, and the host that it leaves. -/
def Ending.outcome (host : MemoryHost) :
    Ending → Except ExtractError ExtractionReport × MemoryHost
  | .cancelled => (.error .emptyIdentifier, host)
  | .refused err => host.failed err
  | .rangeRefused plan =>
      (host.created plan.file).failed
        (.bufferEdit (.invalidRange plan.selectionEdit.span host.buffer.length))
  | .bufferRefused plan reason =>
      ((host.created plan.file).edited plan.selectionEdit.span
        plan.selectionEdit.replacement).failed (.bufferEdit (.refused reason))
  | .finished plan =>
      (.ok plan.finalReport,
        { host.created plan.file with
          buffer := plan.finalBuffer host.buffer
          opened := host.opened ++ [plan.file.path]
          notifications := host.notifications ++ plan.notifications })

inductive ExtractionPlan.Ends (plan : ExtractionPlan) (host : MemoryHost) : Ending → Prop
  | writeFailure {cause : IoError}
      (hwrite : host.writeFile plan.file.path plan.file.content = (.error cause, host)) :
      plan.Ends host (.refused (.writeFailure plan.file.path cause))
  | rangeRefused (hwrites : host.failWrites = none)
      (hfree : FileMap.get? host.files plan.file.path = none)
      (hfits : plan.selectionEdit.span.fits host.buffer = false) :
      plan.Ends host (.rangeRefused plan)
  | bufferRefused {reason : String} (hwrites : host.failWrites = none)
      (hfree : FileMap.get? host.files plan.file.path = none)
      (hfits : plan.selectionEdit.span.fits host.buffer = true)
      (hreplacement : plan.replacement.isSome = true)
      (hreason : host.failReplaceAll = some reason) :
      plan.Ends host (.bufferRefused plan reason)
  | finished (hwrites : host.failWrites = none)
      (hfree : FileMap.get? host.files plan.file.path = none)
      (hfits : plan.selectionEdit.span.fits host.buffer = true)
      (hreplacement : plan.replacement = none ∨ host.failReplaceAll = none)
      (hquiet : ∀ message, Notification.error message ∉ plan.notifications) :
      plan.Ends host (.finished plan)

/-- When a run ends in some way: without a plan, or as its plan does. -/
inductive Extractor.Ends (extractor : Extractor) (request : ExtractRequest) (host : MemoryHost) :
    Ending → Prop
  | cancelled (hplan : extractor.plan request = .error .emptyIdentifier) :
      extractor.Ends request host .cancelled
  | refused {err : ExtractError} (hplan : extractor.plan request = .error err)
      (hrefusal : err.isRefusal = true) : extractor.Ends request host (.refused err)
  | planned {plan : ExtractionPlan} {ending : Ending}
      (hplan : extractor.plan request = .ok plan) (hends : plan.Ends host ending) :
      extractor.Ends request host ending

namespace ExtractionPlan

variable {plan : ExtractionPlan} {host : MemoryHost}

theorem exists_ends (plan : ExtractionPlan) (host : MemoryHost) :
    ∃ ending, plan.Ends host ending ∧
      (plan.apply : MemoryRun ExtractionReport) host = ending.outcome host := by
  have happlied := MemoryHost.stateRun.applied plan host
  generalize hout : MemoryHost.stateRun.run plan.apply host = out at happlied
  have hrun : (plan.apply : MemoryRun ExtractionReport) host = out := hout
  rw [hrun]
  cases happlied with
  | writeFailure hwrite =>
      obtain rfl := MemoryHost.of_writeFile_error hwrite
      exact ⟨_, .writeFailure hwrite, rfl⟩
  | rangeRefused hwrite hrange =>
      obtain ⟨hwrites, hfree, rfl⟩ := MemoryHost.of_writeFile_ok hwrite
      obtain ⟨rfl, hfits, rfl⟩ := MemoryHost.of_replaceRange_error hrange
      exact ⟨_, .rangeRefused hwrites hfree hfits, rfl⟩
  | bufferRefused hwrite hrange hreplacement hbuffer =>
      obtain ⟨hwrites, hfree, rfl⟩ := MemoryHost.of_writeFile_ok hwrite
      obtain ⟨hfits, rfl⟩ := MemoryHost.of_replaceRange_ok hrange
      obtain ⟨rfl, reason, hreason, rfl⟩ := MemoryHost.of_replaceAll_error hbuffer
      have hsome := Option.isSome_of_eq_some hreplacement
      refine ⟨_, .bufferRefused hwrites hfree hfits hsome hreason, ?_⟩
      rw [Ending.outcome, MemoryHost.edited, ← List.append_assoc]
      rfl
  | edited hwrite hrange hreplacement =>
      obtain ⟨hwrites, hfree, rfl⟩ := MemoryHost.of_writeFile_ok hwrite
      obtain ⟨hfits, rfl⟩ := MemoryHost.of_replaceRange_ok hrange
      refine ⟨_, .finished hwrites hfree hfits (.inl hreplacement)
        plan.error_not_mem_notifications, ?_⟩
      rw [MemoryHost.announce_eq, Ending.outcome, finalBuffer_of_none hreplacement]
      rfl
  | rewired hwrite hrange hreplacement hbuffer =>
      obtain ⟨hwrites, hfree, rfl⟩ := MemoryHost.of_writeFile_ok hwrite
      obtain ⟨hfits, rfl⟩ := MemoryHost.of_replaceRange_ok hrange
      obtain ⟨hreplaceAll, rfl⟩ := MemoryHost.of_replaceAll_ok hbuffer
      refine ⟨_, .finished hwrites hfree hfits (.inr hreplaceAll)
        plan.error_not_mem_notifications, ?_⟩
      rw [MemoryHost.announce_eq, Ending.outcome, finalBuffer_of_some hreplacement]
      rfl

theorem Ends.eq_of_writeFile_error {ending : Ending} (hends : plan.Ends host ending)
    {cause : IoError}
    (hwrite : host.writeFile plan.file.path plan.file.content = (.error cause, host)) :
    ending = .refused (.writeFailure plan.file.path cause) := by
  cases hends with
  | writeFailure hwrite' =>
      cases hwrite.symm.trans hwrite'
      rfl
  | rangeRefused hwrites hfree | bufferRefused hwrites hfree | finished hwrites hfree =>
      cases hwrite.symm.trans (MemoryHost.writeFile_of_free hwrites hfree)

theorem Ends.unique {ending other : Ending} (hends : plan.Ends host ending)
    (hother : plan.Ends host other) : ending = other := by
  cases hends with
  | writeFailure hwrite => exact (hother.eq_of_writeFile_error hwrite).symm
  | rangeRefused hwrites hfree hfits =>
      cases hother with
      | writeFailure hwrite =>
          cases hwrite.symm.trans (MemoryHost.writeFile_of_free hwrites hfree)
      | rangeRefused => rfl
      | bufferRefused _ _ hfits' | finished _ _ hfits' => cases hfits.symm.trans hfits'
  | bufferRefused hwrites hfree hfits hreplacement hreason =>
      cases hother with
      | writeFailure hwrite =>
          cases hwrite.symm.trans (MemoryHost.writeFile_of_free hwrites hfree)
      | rangeRefused _ _ hfits' => cases hfits.symm.trans hfits'
      | bufferRefused _ _ _ _ hreason' =>
          cases hreason.symm.trans hreason'
          rfl
      | finished _ _ _ hnone =>
          rcases hnone with hnone | hnone
          · rw [hnone] at hreplacement
            cases hreplacement
          · cases hreason.symm.trans hnone
  | finished hwrites hfree hfits hnone =>
      cases hother with
      | writeFailure hwrite =>
          cases hwrite.symm.trans (MemoryHost.writeFile_of_free hwrites hfree)
      | rangeRefused _ _ hfits' => cases hfits.symm.trans hfits'
      | bufferRefused _ _ _ hreplacement hreason =>
          rcases hnone with hnone | hnone
          · rw [hnone] at hreplacement
            cases hreplacement
          · cases hreason.symm.trans hnone
      | finished => rfl

end ExtractionPlan

namespace Extractor

variable {extractor : Extractor} {request : ExtractRequest} {host : MemoryHost}

theorem exists_ends (extractor : Extractor) (request : ExtractRequest) (host : MemoryHost) :
    ∃ ending, extractor.Ends request host ending ∧
      (extractor.run request : MemoryRun ExtractionReport) host = ending.outcome host := by
  cases hplan : extractor.plan request with
  | ok plan =>
      obtain ⟨ending, hends, happly⟩ := plan.exists_ends host
      exact ⟨ending, .planned hplan hends,
        (MemoryHost.stateRun.run_of_plan_ok hplan host).trans happly⟩
  | error err =>
      have hrun := MemoryHost.stateRun.run_of_plan_error hplan host
      rcases of_plan_error hplan with rfl | rfl | ⟨span, rfl⟩ | ⟨cause, rfl⟩
      · exact ⟨_, .cancelled hplan, hrun⟩
      · exact ⟨_, .refused hplan rfl, hrun⟩
      · exact ⟨_, .refused hplan rfl, hrun⟩
      · exact ⟨_, .refused hplan rfl, hrun⟩

theorem Ends.unique {ending other : Ending} (hends : extractor.Ends request host ending)
    (hother : extractor.Ends request host other) : ending = other := by
  cases hends with
  | cancelled hplan =>
      cases hother with
      | cancelled => rfl
      | refused hplan' hrefusal =>
          cases hplan.symm.trans hplan'
          cases hrefusal
      | planned hplan' => cases hplan.symm.trans hplan'
  | refused hplan hrefusal =>
      cases hother with
      | cancelled hplan' =>
          cases hplan.symm.trans hplan'
          cases hrefusal
      | refused hplan' =>
          cases hplan.symm.trans hplan'
          rfl
      | planned hplan' => cases hplan.symm.trans hplan'
  | planned hplan hends =>
      cases hother with
      | cancelled hplan' => cases hplan.symm.trans hplan'
      | refused hplan' => cases hplan.symm.trans hplan'
      | planned hplan' hother =>
          cases hplan.symm.trans hplan'
          exact hends.unique hother

end Extractor

namespace Ending

variable {plan : ExtractionPlan} {host : MemoryHost} {ending : Ending}

/-- What an ending leaves of the files: all that the host had, and at most one more, at a path that
was free. -/
theorem files_eq (hends : plan.Ends host ending) :
    (ending.outcome host).2.files = host.files ∧ (ending.outcome host).2.buffer = host.buffer ∨
      FileMap.get? host.files plan.file.path = none ∧
        (ending.outcome host).2.files =
          FileMap.insert plan.file.path plan.file.content host.files := by
  cases hends with
  | writeFailure => exact .inl ⟨rfl, rfl⟩
  | rangeRefused _ hfree | bufferRefused _ hfree | finished _ hfree => exact .inr ⟨hfree, rfl⟩

theorem eq_of_refused {extractor : Extractor} {request : ExtractRequest} {reason : String}
    (hends : extractor.Ends request host ending)
    (hout : (ending.outcome host).1 = .error (.bufferEdit (.refused reason))) :
    ∃ plan, ending = .bufferRefused plan reason := by
  cases hends with
  | cancelled => cases hout
  | refused hplan hrefusal =>
      cases hout
      cases hrefusal
  | planned hplan hends =>
      cases hends with
      | writeFailure | rangeRefused | finished => cases hout
      | bufferRefused =>
          cases hout
          exact ⟨_, rfl⟩

end Ending

/-- A run ends in exactly one way, which says what it leaves behind. The buffer changes only after
the new file was created, to the tag in place of the selection, and no file of the host changes. -/
theorem existsUnique_ending (extractor : Extractor) (request : ExtractRequest)
    (host : MemoryHost) :
    let out := (extractor.run request : MemoryRun ExtractionReport) host
    (∃! ending, extractor.Ends request host ending ∧ out = ending.outcome host) ∧
    (∀ plan, extractor.plan request = .ok plan →
      ∃ selection, request.selection = some selection ∧
        plan.selectionEdit = ⟨selection.span, utf8 plan.names.referenceTag⟩) ∧
    (∀ plan reason, extractor.Ends request host (.bufferRefused plan reason) →
      ∃ selection, request.selection = some selection ∧
        out.2.buffer = host.buffer.take selection.span.start ++
          (utf8 plan.names.referenceTag ++ host.buffer.drop selection.span.stop)) ∧
    (out.2.buffer ≠ host.buffer →
      ∃ plan, extractor.plan request = .ok plan ∧
        FileMap.get? host.files plan.file.path = none ∧
        FileMap.get? out.2.files plan.file.path = some plan.file.content) ∧
    (∀ path content, FileMap.get? host.files path = some content →
      FileMap.get? out.2.files path = some content) := by
  intro out
  obtain ⟨ending, hends, hout⟩ := extractor.exists_ends request host
  have hout : out = ending.outcome host := hout
  have hedit : ∀ plan, extractor.plan request = .ok plan →
      ∃ selection, request.selection = some selection ∧
        plan.selectionEdit = ⟨selection.span, utf8 plan.names.referenceTag⟩ := by
    intro plan hplan
    obtain ⟨selection, identifier, hselection, -, -, -, hedit, -⟩ := Extractor.of_plan_ok hplan
    exact ⟨selection, (Selection.of_validate_ok hselection).1, hedit⟩
  refine ⟨⟨ending, ⟨hends, hout⟩, fun other hother => hother.1.unique hends⟩, hedit, ?_, ?_, ?_⟩
  · intro plan reason hrefused
    obtain rfl := hrefused.unique hends
    cases hrefused with
    | planned hplan hends =>
        cases hends with
        | bufferRefused =>
            obtain ⟨selection, hselection, hspan⟩ := hedit _ hplan
            refine ⟨selection, hselection, ?_⟩
            rw [hout, Ending.outcome, hspan]
            rfl
  · intro hbuffer
    rw [hout] at hbuffer ⊢
    cases hends with
    | cancelled | refused => exact absurd rfl hbuffer
    | planned hplan hends =>
        rcases Ending.files_eq hends with ⟨-, hsame⟩ | ⟨hfree, hfiles⟩
        · exact absurd hsame hbuffer
        · refine ⟨_, hplan, hfree, ?_⟩
          rw [hfiles, FileMap.get?_insert _ _ hfree, if_pos rfl]
  · intro path content hcontent
    rw [hout]
    cases hends with
    | cancelled | refused => exact hcontent
    | planned hplan hends =>
        rcases Ending.files_eq hends with ⟨hsame, -⟩ | ⟨hfree, hfiles⟩
        · rw [hsame]
          exact hcontent
        · rw [hfiles]
          exact FileMap.get?_insert_of_some _ _ hfree hcontent

/-- The tag has taken the place of the selection, and the file was created. -/
theorem existsUnique_ending_bufferRefused :
    let extractor : Extractor :=
      { options := { synthesis := { importSource := "", template := "t" } }
        templateFile := fun _ => .readable (utf8 "<b>") }
    let host : MemoryHost :=
      { buffer := utf8 "@Component(\x7b a: 'xyz' \x7d)", files := [("c.ts", utf8 "old")]
        failReplaceAll := some "busy" }
    let request : ExtractRequest := ⟨"a.ts", host.buffer, some ⟨utf8 "y", ⟨18, 19⟩⟩, some "b"⟩
    let out := (extractor.run request : MemoryRun ExtractionReport) host
    ∃ plan, extractor.Ends request host (.bufferRefused plan "busy") ∧
      out = (Ending.bufferRefused plan "busy").outcome host ∧
      out.2.buffer = utf8 "@Component(\x7b a: 'x" ++
        (utf8 plan.names.referenceTag ++ utf8 "z' \x7d)") ∧
      extractor.plan request = .ok plan ∧
      FileMap.get? out.2.files plan.file.path = some plan.file.content ∧
      FileMap.get? out.2.files "c.ts" = some (utf8 "old") ∧
      out.2.notifications = [.error "failed to edit buffer: busy"] ∧ out.2.opened = [] := by
  intro extractor host request out
  obtain ⟨herror, htold, hopened, hchanged⟩ :
      out.1 = .error (.bufferEdit (.refused "busy")) ∧
        out.2.notifications = [.error "failed to edit buffer: busy"] ∧ out.2.opened = [] ∧
        out.2.buffer ≠ host.buffer := by decide +kernel
  obtain ⟨⟨ending, hending, -⟩, -, htag, hbuffer, hfiles⟩ :=
    existsUnique_ending extractor request host
  have hrun : (extractor.run request : MemoryRun ExtractionReport) host = out := rfl
  have hkept := hfiles "c.ts" (utf8 "old") (by decide +kernel)
  rw [hrun] at hending htag hbuffer hkept
  obtain ⟨hends, hout⟩ := hending
  obtain ⟨plan, rfl⟩ := Ending.eq_of_refused hends (hout ▸ herror)
  obtain ⟨selection, hselection, htagged⟩ := htag plan "busy" hends
  obtain rfl := Option.some.inj hselection
  have hplan : extractor.plan request = .ok plan := by
    cases hends with
    | planned hplan hends =>
        cases hends
        exact hplan
  obtain ⟨made, hmade, -, hcreated⟩ := hbuffer hchanged
  obtain rfl := Except.ok.inj (hplan.symm.trans hmade)
  have hbefore : host.buffer.take 18 = utf8 "@Component(\x7b a: 'x" := by decide +kernel
  have hafter : host.buffer.drop 19 = utf8 "z' \x7d)" := by decide +kernel
  exact ⟨plan, hends, hout, hbefore ▸ hafter ▸ htagged, hplan, hcreated, hkept, htold, hopened⟩

end Extraction
