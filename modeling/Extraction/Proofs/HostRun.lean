import Extraction.Host
/-!
Plans carried out on any host whose actions are functions of a state. A run ends when a primitive
fails or when the plan is done, and each way to end is described by what the primitives did.
-/

namespace Extraction

namespace ExtractionPlan

variable (plan : ExtractionPlan)

def replacement : Option Bytes :=
  plan.rewire.bind RewirePlan.replacement

def finalBuffer (buffer : Bytes) : Bytes :=
  (plan.rewire.bind RewirePlan.replacement).getD (plan.selectionEdit.apply buffer)

def finalReport : ExtractionReport where
  names := plan.names
  created := plan.file.path
  rewire := (plan.rewire.map RewirePlan.status).getD .disabled

def notifications : List Notification :=
  (match plan.rewire with
    | some ⟨.blockNotFound _, _⟩ => [.warning missingDeclaration]
    | _ => []) ++
  [.info (successMessage plan.names plan.finalReport.rewire)]

theorem finalBuffer_of_none {plan : ExtractionPlan} (h : plan.replacement = none) (buffer : Bytes) :
    plan.finalBuffer buffer = plan.selectionEdit.apply buffer := by
  rw [finalBuffer, ← replacement, h]
  rfl

theorem finalBuffer_of_some {plan : ExtractionPlan} {text : Bytes}
    (h : plan.replacement = some text) (buffer : Bytes) : plan.finalBuffer buffer = text := by
  rw [finalBuffer, ← replacement, h]
  rfl

end ExtractionPlan

theorem spliceBuffer_of_fits {buffer : Bytes} {span : Span} (hfits : span.fits buffer = true)
    (replacement : Bytes) :
    spliceBuffer buffer span replacement = .ok (buffer.splice span replacement) := by
  rw [spliceBuffer, if_pos hfits]

/-- Actions as functions of a state. -/
structure StateRun (m : Type → Type) [Monad m] (σ : Type) where
  run : {α : Type} → m α → σ → α × σ
  run_pure : ∀ {α : Type} (a : α) (s : σ), run (pure a) s = (a, s)
  run_bind : ∀ {α β : Type} (first : m α) (rest : α → m β) (s : σ),
    run (first >>= rest) s = run (rest (run first s).1) (run first s).2

namespace StateRun

variable {m : Type → Type} [Monad m] {σ : Type}

theorem run_bind_of_eq {host : StateRun m σ} {first : m α} {s next : σ} {a : α}
    (h : host.run first s = (a, next)) (rest : α → m β) :
    host.run (first >>= rest) s = host.run (rest a) next := by
  rw [host.run_bind, h]

variable [Host m] (host : StateRun m σ)

def tell (notification : Notification) (s : σ) : σ :=
  (host.run (Host.notify notification) s).2

def display (path : String) (s : σ) : σ :=
  (host.run (Host.openDocument path) s).2

theorem run_notify (notification : Notification) (s : σ) :
    host.run (Host.notify notification) s = ((), host.tell notification s) := rfl

theorem run_openDocument (path : String) (s : σ) :
    host.run (Host.openDocument path) s = ((), host.display path s) := rfl

theorem run_failWith (err : ExtractError) (s : σ) :
    host.run (failWith err : m (Except ExtractError α)) s =
      (.error err, host.tell (.error err.message) s) := by
  rw [failWith, run_bind_of_eq (host.run_notify _ _), host.run_pure]

variable (plan : ExtractionPlan)

def announce (s : σ) : σ :=
  let warned :=
    match plan.finalReport.rewire with
    | .blockNotFound _ => host.tell (.warning missingDeclaration) s
    | _ => s
  host.tell (.info (successMessage plan.names plan.finalReport.rewire))
    (host.display plan.file.path warned)

theorem run_finish (status : RewireStatus) (s : σ) :
    host.run (plan.finish status) s =
      (.ok ⟨plan.names, plan.file.path, status⟩,
        host.tell (.info (successMessage plan.names status)) (host.display plan.file.path s)) := by
  rw [ExtractionPlan.finish, run_bind_of_eq (host.run_openDocument _ _),
    run_bind_of_eq (host.run_notify _ _), host.run_pure]

/-- The ways in which carrying out a plan ends, with what each primitive did until then. -/
inductive Applied (start : σ) : Except ExtractError ExtractionReport × σ → Prop
  | writeFailure {cause : IoError} {failed : σ}
      (hwrite : host.run (Host.writeFile plan.file.path plan.file.content) start =
        (.error cause, failed)) :
      Applied start (.error (.writeFailure plan.file.path cause),
        host.tell (.error (ExtractError.writeFailure plan.file.path cause).message) failed)
  | rangeRefused {cause : EditError} {created failed : σ}
      (hwrite : host.run (Host.writeFile plan.file.path plan.file.content) start =
        (.ok (), created))
      (hrange : host.run (Host.replaceRange plan.selectionEdit.span
        plan.selectionEdit.replacement) created = (.error cause, failed)) :
      Applied start (.error (.bufferEdit cause),
        host.tell (.error (ExtractError.bufferEdit cause).message) failed)
  | bufferRefused {cause : EditError} {text : Bytes} {created edited failed : σ}
      (hwrite : host.run (Host.writeFile plan.file.path plan.file.content) start =
        (.ok (), created))
      (hrange : host.run (Host.replaceRange plan.selectionEdit.span
        plan.selectionEdit.replacement) created = (.ok (), edited))
      (hreplacement : plan.replacement = some text)
      (hbuffer : host.run (Host.replaceAll text) edited = (.error cause, failed)) :
      Applied start (.error (.bufferEdit cause),
        host.tell (.error (ExtractError.bufferEdit cause).message) failed)
  | edited {created edited : σ}
      (hwrite : host.run (Host.writeFile plan.file.path plan.file.content) start =
        (.ok (), created))
      (hrange : host.run (Host.replaceRange plan.selectionEdit.span
        plan.selectionEdit.replacement) created = (.ok (), edited))
      (hreplacement : plan.replacement = none) :
      Applied start (.ok plan.finalReport, host.announce plan edited)
  | rewired {text : Bytes} {created edited rewired : σ}
      (hwrite : host.run (Host.writeFile plan.file.path plan.file.content) start =
        (.ok (), created))
      (hrange : host.run (Host.replaceRange plan.selectionEdit.span
        plan.selectionEdit.replacement) created = (.ok (), edited))
      (hreplacement : plan.replacement = some text)
      (hbuffer : host.run (Host.replaceAll text) edited = (.ok (), rewired)) :
      Applied start (.ok plan.finalReport, host.announce plan rewired)

theorem run_conclude {rewire : RewirePlan} (hrewire : plan.rewire = some rewire) (s : σ) :
    host.run
      (match rewire.status with
        | .blockNotFound _ => do
            Host.notify (.warning missingDeclaration)
            plan.finish rewire.status
        | _ => plan.finish rewire.status) s = (.ok plan.finalReport, host.announce plan s) := by
  have hreport : plan.finalReport = ⟨plan.names, plan.file.path, rewire.status⟩ := by
    rw [ExtractionPlan.finalReport, hrewire]
    rfl
  rw [announce, hreport]
  cases hstatus : rewire.status with
  | disabled | rewired => exact host.run_finish plan _ s
  | blockNotFound importKept =>
      exact (run_bind_of_eq (host.run_notify _ s) _).trans (host.run_finish plan _ _)

theorem run_apply_of_error {host : StateRun m σ} {plan : ExtractionPlan} {start failed : σ}
    {cause : IoError}
    (hwrite : host.run (Host.writeFile plan.file.path plan.file.content) start =
      (.error cause, failed)) :
    host.run plan.apply start = (.error (.writeFailure plan.file.path cause),
      host.tell (.error (ExtractError.writeFailure plan.file.path cause).message) failed) := by
  rw [ExtractionPlan.apply, run_bind_of_eq hwrite, run_failWith]

theorem applied (s : σ) : host.Applied plan s (host.run plan.apply s) := by
  -- Each primitive in turn ends the run by failing, or hands on the state it leaves.
  rcases hwrite : host.run (Host.writeFile plan.file.path plan.file.content) s
    with ⟨cause | ⟨⟨⟩⟩, created⟩
  · rw [run_apply_of_error hwrite]
    exact .writeFailure hwrite
  rw [ExtractionPlan.apply, run_bind_of_eq hwrite]
  rcases hrange : host.run (Host.replaceRange plan.selectionEdit.span
    plan.selectionEdit.replacement) created with ⟨cause | ⟨⟨⟩⟩, edited⟩
  · rw [run_bind_of_eq hrange, run_failWith]
    exact .rangeRefused hwrite hrange
  rw [run_bind_of_eq hrange]
  cases hrewire : plan.rewire with
  | none =>
      have hreplacement : plan.replacement = none := by
        rw [ExtractionPlan.replacement, hrewire]
        rfl
      have hreport : plan.finalReport = ⟨plan.names, plan.file.path, .disabled⟩ := by
        rw [ExtractionPlan.finalReport, hrewire]
        rfl
      have hdone : host.Applied plan s (.ok plan.finalReport, host.announce plan edited) :=
        .edited hwrite hrange hreplacement
      rw [announce, hreport] at hdone
      rw [run_finish]
      exact hdone
  | some rewire =>
      have hreplacement : plan.replacement = rewire.replacement := by
        rw [ExtractionPlan.replacement, hrewire]
        rfl
      simp only [RewirePlan.replaceBuffer]
      cases htext : rewire.replacement with
      | none =>
          rw [run_bind_of_eq (host.run_pure _ _)]
          refine (congrArg _ (host.run_conclude plan hrewire edited)).mpr ?_
          exact .edited hwrite hrange (hreplacement.trans htext)
      | some text =>
          rcases hbuffer : host.run (Host.replaceAll text) edited
            with ⟨cause | ⟨⟨⟩⟩, rewired⟩
          · rw [run_bind_of_eq hbuffer, run_failWith]
            exact .bufferRefused hwrite hrange (hreplacement.trans htext) hbuffer
          · rw [run_bind_of_eq hbuffer]
            refine (congrArg _ (host.run_conclude plan hrewire rewired)).mpr ?_
            exact .rewired hwrite hrange (hreplacement.trans htext) hbuffer

theorem run_apply_of_ok {host : StateRun m σ} {plan : ExtractionPlan}
    {start created edited final : σ}
    (hwrite : host.run (Host.writeFile plan.file.path plan.file.content) start =
      (.ok (), created))
    (hrange : host.run (Host.replaceRange plan.selectionEdit.span
      plan.selectionEdit.replacement) created = (.ok (), edited))
    (hkept : plan.replacement = none → edited = final)
    (hbuffer : ∀ text, plan.replacement = some text →
      host.run (Host.replaceAll text) edited = (.ok (), final)) :
    host.run plan.apply start = (.ok plan.finalReport, host.announce plan final) := by
  have happlied := host.applied plan start
  generalize host.run plan.apply start = out at happlied
  cases happlied with
  | writeFailure hfailed =>
      rw [hwrite] at hfailed
      cases hfailed
  | rangeRefused hcreated hfailed =>
      rw [hwrite] at hcreated
      cases hcreated
      rw [hrange] at hfailed
      cases hfailed
  | bufferRefused hcreated hedited hreplacement hfailed =>
      rw [hwrite] at hcreated
      cases hcreated
      rw [hrange] at hedited
      cases hedited
      rw [hbuffer _ hreplacement] at hfailed
      cases hfailed
  | edited hcreated hedited hreplacement =>
      rw [hwrite] at hcreated
      cases hcreated
      rw [hrange] at hedited
      cases hedited
      rw [hkept hreplacement]
  | rewired hcreated hedited hreplacement hrewired =>
      rw [hwrite] at hcreated
      cases hcreated
      rw [hrange] at hedited
      cases hedited
      rw [hbuffer _ hreplacement] at hrewired
      cases hrewired
      rfl

theorem run_of_plan_ok {extractor : Extractor} {request : ExtractRequest} {plan : ExtractionPlan}
    (hplan : extractor.plan request = .ok plan) (s : σ) :
    host.run (extractor.run request) s = host.run plan.apply s := by
  rw [Extractor.run, hplan]

/-- Without a plan nothing happens, except that a user who did not back out is told why. -/
theorem run_of_plan_error {extractor : Extractor} {request : ExtractRequest} {err : ExtractError}
    (hplan : extractor.plan request = .error err) (s : σ) :
    host.run (extractor.run request) s =
      (.error err, if err.isSilent then s else host.tell (.error err.message) s) := by
  rw [Extractor.run, hplan]
  simp only
  cases err.isSilent with
  | true => exact host.run_pure _ s
  | false => exact host.run_failWith err s

end StateRun

end Extraction
