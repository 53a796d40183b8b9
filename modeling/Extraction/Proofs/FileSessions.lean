import Extraction.Host.Session
import Extraction.Proofs.Primitives
import Extraction.Proofs.ReadsOnly
/-!
Sessions on a host of a file. Whatever is done, in whatever order, files are only added and the
loaded file is left alone, until its edited buffer is saved.
-/

namespace Extraction

/-- A step of a session on a host of a file. -/
inductive FileStep
  | act (step : SessionStep)
  | carryOut (plan : ExtractionPlan)
deriving DecidableEq, Repr

structure FileSession where
  host : FileHost
  sandbox : Sandbox
  session : Session := {}
deriving DecidableEq, Repr

def ExtractionPlan.primitives (plan : ExtractionPlan) : List Primitive :=
  [.create plan.file.path plan.file.content,
    .replaceRange plan.selectionEdit.span plan.selectionEdit.replacement] ++
  plan.replacement.toList.map .replaceAll

def SessionAnswer.failed : SessionAnswer → Bool
  | .writeResult result => !result.isOk
  | .editResult result => !result.isOk
  | .planned result => !result.isOk
  | .reported result => !result.isOk
  | .noPlan => true
  | .done => false

namespace FileSession

variable (state : FileSession)

def files : FileState := ⟨state.host, state.sandbox.tree⟩

def after (action : StateT FileHost (StateM Sandbox) (SessionAnswer × Session)) :
    SessionAnswer × FileSession :=
  let out := FileHost.stateRun.run action (state.host, state.sandbox)
  (out.1.1, ⟨out.2.1, out.2.2, out.1.2⟩)

def step : FileStep → SessionAnswer × FileSession
  | .act step =>
      state.after (state.session.step (fun name => StateT.lift (findTemplate name)) step)
  | .carryOut plan =>
      let out := FileHost.stateRun.run plan.apply (state.host, state.sandbox)
      (.reported out.1, { state with host := out.2.1, sandbox := out.2.2 })

def run (steps : List FileStep) : FileSession :=
  steps.foldl (fun state step => (state.step step).2) state

def extractor : Extractor := state.sandbox.extractorFor state.session.options

def requestOf (request : SessionRequest) : ExtractRequest where
  enclosingPath := request.path
  buffer := request.buffer.getD state.host.buffer
  selection := request.selection
  identifier := request.identifier

/-- The primitives that a step asks for. -/
def wanted : FileStep → List Primitive
  | .carryOut plan => plan.primitives
  | .act (.writeFile path content) => [.create path content]
  | .act (.replaceRange span text) => [.replaceRange span text]
  | .act (.replaceAll text) => [.replaceAll text]
  | .act .apply => state.session.remembered.elim [] ExtractionPlan.primitives
  | .act (.run request) =>
      match state.extractor.plan (state.requestOf request) with
      | .ok plan => plan.primitives
      | .error _ => []
  | .act _ => []

/-- The primitives that were performed in a session, in their order. -/
def log (state : FileSession) : List FileStep → List Primitive
  | [] => []
  | step :: steps =>
      Primitive.performable state.sandbox.directory (state.wanted step) state.files ++
        log (state.step step).2 steps

end FileSession

/-- The ways in which asking for some primitives ends, by whether a failure is told of. -/
inductive Carried (directory : List String) (wanted : List Primitive) (s : FileState) :
    Bool → FileState → Prop
  | done {last : FileState} (h : Performs directory wanted s last) :
      Carried directory wanted s false last
  /-- A primitive failed, and those before it were performed. -/
  | stopped {done rest : List Primitive} {failing : Primitive} {last : FileState}
      (hwanted : wanted = done ++ failing :: rest) (h : Performs directory done s last)
      (hfails : failing.perform directory last = none) : Carried directory wanted s true last
  /-- It failed before anything was asked for. -/
  | refused (hwanted : wanted = []) : Carried directory wanted s true s

theorem Carried.performs {directory : List String} {wanted : List Primitive} {s last : FileState}
    {failed : Bool} (h : Carried directory wanted s failed last) :
    Performs directory (Primitive.performable directory wanted s) s last := by
  cases h with
  | done h =>
      rw [h.performable_eq]
      exact h
  | stopped hwanted h hfails =>
      rw [hwanted, h.performable_stopped hfails]
      exact h
  | refused hwanted =>
      rw [hwanted]
      exact .nil

theorem Carried.eq_of_length {directory : List String} {wanted : List Primitive}
    {s last : FileState} (h : Carried directory wanted s true last) (hlength : wanted.length ≤ 1) :
    last = s := by
  cases h with
  | refused => rfl
  | stopped hwanted h =>
      cases h with
      | nil => rfl
      | cons =>
          rw [hwanted, List.length_append, List.length_cons, List.length_cons] at hlength
          omega

theorem Carried.stop {directory : List String} {wanted : List Primitive} {s last : FileState}
    (h : Carried directory wanted s true last) (hne : wanted ≠ []) (rest : List Primitive) :
    Carried directory (wanted ++ rest) s true last := by
  cases h with
  | refused hwanted => exact absurd hwanted hne
  | stopped hwanted h hfails =>
      rw [hwanted, List.append_assoc]
      exact .stopped rfl h hfails

theorem Carried.append {directory : List String} {done more : List Primitive}
    {s next last : FileState} {failed : Bool} (h : Carried directory done s false next)
    (hmore : Carried directory more next failed last) (hne : more ≠ []) :
    Carried directory (done ++ more) s failed last := by
  cases h with
  | done h =>
      cases hmore with
      | done hmore => exact .done (h.append hmore)
      | stopped hwanted hmore hfails =>
          rw [hwanted, ← List.append_assoc]
          exact .stopped rfl (h.append hmore) hfails
      | refused hwanted => exact absurd hwanted hne

namespace FileHost

def filesIn (state : FileHost × Sandbox) : FileState := ⟨state.1, state.2.tree⟩

/-- A host that stays in its directory, with its files as some primitives leave them. -/
structure CarriesOut (wanted : List Primitive) (start : FileHost × Sandbox) (failed : Bool)
    (next : FileHost × Sandbox) : Prop where
  directory_eq : next.2.directory = start.2.directory
  carried : Carried start.2.directory wanted (filesIn start) failed (filesIn next)

namespace CarriesOut

variable {wanted done more : List Primitive} {primitive : Primitive}
  {start next last : FileHost × Sandbox} {failed : Bool}

theorem of_perform (hdirectory : next.2.directory = start.2.directory)
    (h : primitive.perform start.2.directory (filesIn start) = some (filesIn next)) :
    CarriesOut [primitive] start false next := ⟨hdirectory, .done (.single h)⟩

theorem of_failing (h : primitive.perform start.2.directory (filesIn start) = none) :
    CarriesOut [primitive] start true start := ⟨rfl, .stopped rfl .nil h⟩

theorem stop (h : CarriesOut wanted start true next) (hne : wanted ≠ [])
    (rest : List Primitive) : CarriesOut (wanted ++ rest) start true next :=
  ⟨h.directory_eq, h.carried.stop hne rest⟩

theorem append (h : CarriesOut done start false next) (hmore : CarriesOut more next failed last)
    (hne : more ≠ []) : CarriesOut (done ++ more) start failed last where
  directory_eq := hmore.directory_eq.trans h.directory_eq
  carried := h.carried.append (h.directory_eq ▸ hmore.carried) hne

theorem tell (h : CarriesOut wanted start failed next) (notification : Notification) :
    CarriesOut wanted start failed (stateRun.tell notification next) := by
  rw [tell_eq]
  have hfiles : filesIn (next.1, next.2.tell notification) = filesIn next :=
    congrArg (FileState.mk next.1) (Sandbox.tell_tree _ _)
  exact ⟨(Sandbox.tell_directory _ _).trans h.directory_eq, hfiles ▸ h.carried⟩

theorem announce (h : CarriesOut wanted start failed next) (plan : ExtractionPlan) :
    CarriesOut wanted start failed (stateRun.announce plan next) := by
  rw [announce_eq]
  have hfiles : filesIn (next.1, next.2.tellAll plan.notifications) = filesIn next :=
    congrArg (FileState.mk next.1) (Sandbox.tellAll_tree _ _)
  exact ⟨(Sandbox.tellAll_directory _ _).trans h.directory_eq, hfiles ▸ h.carried⟩

end CarriesOut

variable {start next : FileHost × Sandbox}

theorem carriesOut_writeFile {path : String} {content : Bytes} {result : Except IoError Unit}
    (h : stateRun.run (Host.writeFile path content) start = (result, next)) :
    CarriesOut [.create path content] start (!result.isOk) next := by
  have hwrite : stateRun.run (Host.writeFile path content) start =
      ((start.2.commit (start.2.tree.create start.2.directory path content)).1, start.1,
        (start.2.commit (start.2.tree.create start.2.directory path content)).2) :=
    writeFile_eq path content
  rw [hwrite] at h
  cases hcreate : start.2.tree.create start.2.directory path content with
  | error cause =>
      rw [hcreate] at h
      cases h
      apply CarriesOut.of_failing
      rw [Primitive.perform, filesIn, hcreate]
      rfl
  | ok tree =>
      rw [hcreate] at h
      cases h
      apply CarriesOut.of_perform
      · rfl
      · rw [Primitive.perform, filesIn, hcreate]
        rfl

theorem carriesOut_replaceRange {span : Span} {text : Bytes} {result : Except EditError Unit}
    (h : stateRun.run (Host.replaceRange span text) start = (result, next)) :
    CarriesOut [.replaceRange span text] start (!result.isOk) next := by
  have hedit : stateRun.run (Host.replaceRange span text) start =
      ((start.1.replaceRange span text).1, (start.1.replaceRange span text).2, start.2) := rfl
  rw [hedit, replaceRange] at h
  cases hsplice : spliceBuffer start.1.buffer span text with
  | error cause =>
      rw [hsplice] at h
      cases h
      apply CarriesOut.of_failing
      rw [Primitive.perform, filesIn, hsplice]
      rfl
  | ok buffer =>
      rw [hsplice] at h
      cases h
      apply CarriesOut.of_perform
      · rfl
      · rw [Primitive.perform, filesIn, hsplice]
        rfl

theorem carriesOut_replaceAll {text : Bytes} {result : Except EditError Unit}
    (h : stateRun.run (Host.replaceAll text) start = (result, next)) :
    CarriesOut [.replaceAll text] start (!result.isOk) next := by
  cases h
  apply CarriesOut.of_perform
  · rfl
  · rfl

theorem carriesOut_edit {plan : ExtractionPlan} {created : FileHost × Sandbox}
    {result : Except EditError Unit}
    (hwrite : stateRun.run (Host.writeFile plan.file.path plan.file.content) start =
      (.ok (), created))
    (hrange : stateRun.run (Host.replaceRange plan.selectionEdit.span
      plan.selectionEdit.replacement) created = (result, next)) :
    CarriesOut [.create plan.file.path plan.file.content,
      .replaceRange plan.selectionEdit.span plan.selectionEdit.replacement]
      start (!result.isOk) next :=
  (carriesOut_writeFile hwrite).append (carriesOut_replaceRange hrange) (List.cons_ne_nil _ _)

theorem carriesOut_apply {plan : ExtractionPlan}
    {out : Except ExtractError ExtractionReport × FileHost × Sandbox}
    (h : stateRun.Applied plan start out) :
    CarriesOut plan.primitives start (!out.1.isOk) out.2 := by
  have hne : ∀ (primitive : Primitive) (rest : List Primitive), primitive :: rest ≠ [] :=
    List.cons_ne_nil
  rw [ExtractionPlan.primitives]
  cases h with
  | writeFailure hwrite => exact ((carriesOut_writeFile hwrite).stop (hne _ _) _).tell _
  | rangeRefused hwrite hrange => exact ((carriesOut_edit hwrite hrange).stop (hne _ _) _).tell _
  | bufferRefused hwrite hrange hreplacement hbuffer =>
      have hedited := carriesOut_edit hwrite hrange
      rw [hreplacement]
      exact (hedited.append (carriesOut_replaceAll hbuffer) (hne _ _)).tell _
  | edited hwrite hrange hreplacement =>
      rw [hreplacement]
      exact (carriesOut_edit hwrite hrange).announce plan
  | rewired hwrite hrange hreplacement hbuffer =>
      have hedited := carriesOut_edit hwrite hrange
      rw [hreplacement]
      exact (hedited.append (carriesOut_replaceAll hbuffer) (hne _ _)).announce plan

end FileHost

namespace FileSession

open FileHost

variable (state : FileSession)

theorem run_extractor :
    stateRun.run (state.session.extractor fun name => StateT.lift (findTemplate name))
      (state.host, state.sandbox) = (state.extractor, state.host, state.sandbox) := by
  have hfound (name : String) :
      stateRun.run (StateT.lift (findTemplate name)) (state.host, state.sandbox) =
        (((findTemplate name : StateM Sandbox _) state.sandbox).1, state.host, state.sandbox) := by
    have hreads := Sandbox.readsOnly_findTemplate name state.sandbox
    exact Prod.ext rfl (congrArg (Prod.mk state.host) hreads)
  rw [Session.extractor, StateRun.run_bind_of_eq (hfound _)]
  rfl

theorem run_request (request : SessionRequest) :
    stateRun.run (Session.request request) (state.host, state.sandbox) =
      (state.requestOf request, state.host, state.sandbox) := rfl

theorem step_plan (request : SessionRequest) :
    state.step (.act (.plan request)) =
      match state.extractor.plan (state.requestOf request) with
      | .ok plan => (.planned (.ok plan), { state with session.remembered := some plan })
      | .error err => (.planned (.error err), state) := by
  rw [step, after, Session.step, StateRun.run_bind_of_eq state.run_extractor,
    StateRun.run_bind_of_eq (state.run_request request)]
  cases state.extractor.plan (state.requestOf request) with
  | ok plan => rfl
  | error err => rfl

theorem step_run (request : SessionRequest) :
    state.step (.act (.run request)) =
      let out := stateRun.run (state.extractor.run (state.requestOf request))
        (state.host, state.sandbox)
      (.reported out.1, { state with host := out.2.1, sandbox := out.2.2 }) := by
  rw [step, after, Session.step, StateRun.run_bind_of_eq state.run_extractor,
    StateRun.run_bind_of_eq (state.run_request request)]
  rfl

theorem carriesOut_step (step : FileStep) :
    CarriesOut (state.wanted step) (state.host, state.sandbox) (state.step step).1.failed
      ((state.step step).2.host, (state.step step).2.sandbox) := by
  have hnothing : CarriesOut [] (state.host, state.sandbox) false (state.host, state.sandbox) :=
    ⟨rfl, .done .nil⟩
  have hrefused : CarriesOut [] (state.host, state.sandbox) true (state.host, state.sandbox) :=
    ⟨rfl, .refused rfl⟩
  cases step with
  | carryOut plan => exact carriesOut_apply (stateRun.applied plan _)
  | act step =>
      cases step with
      | writeFile path content => exact carriesOut_writeFile rfl
      | replaceRange span text => exact carriesOut_replaceRange rfl
      | replaceAll text => exact carriesOut_replaceAll rfl
      | notify notification => exact hnothing.tell notification
      | openDocument | setOptions => exact hnothing
      | plan request =>
          rw [step_plan]
          cases state.extractor.plan (state.requestOf request) with
          | ok plan => exact hnothing
          | error err => exact hrefused
      | apply =>
          rw [wanted, FileSession.step, after, Session.step]
          cases state.session.remembered with
          | none => exact hrefused
          | some plan => exact carriesOut_apply (stateRun.applied plan _)
      | run request =>
          rw [step_run, wanted]
          cases hplan : state.extractor.plan (state.requestOf request) with
          | ok plan =>
              rw [stateRun.run_of_plan_ok hplan]
              exact carriesOut_apply (stateRun.applied plan _)
          | error err =>
              rw [stateRun.run_of_plan_error hplan]
              cases err.isSilent with
              | true => exact hrefused
              | false => exact hrefused.tell (.error err.message)

/-- What the performed primitives come to. -/
theorem performs_log (steps : List FileStep) :
    (state.run steps).sandbox.directory = state.sandbox.directory ∧
      Performs state.sandbox.directory (state.log steps) state.files (state.run steps).files := by
  induction steps generalizing state with
  | nil => exact ⟨rfl, .nil⟩
  | cons step steps ih =>
      have hstep := state.carriesOut_step step
      obtain ⟨hdirectory, hrest⟩ := ih (state.step step).2
      rw [hstep.directory_eq] at hdirectory hrest
      exact ⟨hdirectory, hstep.carried.performs.append hrest⟩

theorem save_apply {located : List String} {content : Bytes} {sandbox : Sandbox}
    (hextends : sandbox.tree.Extends state.sandbox.tree)
    (hdirectory : state.sandbox.directory = sandbox.directory)
    (hlocate : sandbox.tree.locate sandbox.directory state.host.path = .ok located)
    (hentry : sandbox.tree.entry? located = some (.file content)) :
    let out := (state.host.save : StateM Sandbox _) state.sandbox
    (state.host.edited = false → out = (.ok (), state.sandbox)) ∧
    (state.host.edited = true →
      out = (.ok (), { state.sandbox with
        tree := state.sandbox.tree.put located (.file state.host.buffer) }) ∨
      (∃ cause, out = (.error cause, state.sandbox)) ∧ ¬ sandbox.tree.IsTree) := by
  intro out
  constructor
  · intro hedited
    simp only [out, save, hedited]
    rfl
  · intro hedited
    have hout : out = state.sandbox.commit
        (state.sandbox.tree.write sandbox.directory state.host.path state.host.buffer) := by
      simp only [out, save, hedited, if_true, ← hdirectory]
      rfl
    rw [hout]
    by_cases htree : sandbox.tree.IsTree
    -- Files that are only added do not change where the path leads.
    · refine .inl ?_
      rw [hextends.write_eq htree hlocate hentry]
      rfl
    cases hwrite : state.sandbox.tree.write sandbox.directory state.host.path
        state.host.buffer with
    | error cause => exact .inr ⟨⟨cause, rfl⟩, htree⟩
    | ok tree =>
        obtain ⟨named, hnamed, rfl⟩ := FileTree.of_write_ok hwrite
        obtain rfl := hextends.eq_of_destination hlocate hnamed
        exact .inl rfl

/-- Whatever is done to a host of a loaded file, in whatever order: every file keeps its content,
the only new ones are those that were created, and a step that fails leaves what the primitives
before its failing one left. To save the host then writes at most the loaded file, and does so if
the buffer was edited; this can fail only where entries stand outside of directories. -/
theorem keeps_files {path : String} {sandbox : Sandbox} {host : FileHost}
    (hload : ((FileHost.load path : StateM Sandbox _) sandbox).1 = .ok host) (session : Session)
    (steps : List FileStep) :
    let opened : FileSession := { host, sandbox, session }
    let state := opened.run steps
    let log := opened.log steps
    (∀ key entry, state.sandbox.tree.entry? key = some entry ↔
      sandbox.tree.entry? key = some entry ∨
        ∃ content, entry = .file content ∧ Adds sandbox.directory log opened.files key content) ∧
    (∀ key content, Adds sandbox.directory log opened.files key content →
      sandbox.tree.entry? key = none) ∧
    Performs sandbox.directory log opened.files state.files ∧
    (∀ step, Carried sandbox.directory (state.wanted step) state.files (state.step step).1.failed
      (state.step step).2.files) ∧
    (∀ step, (state.step step).1.failed = true → (state.wanted step).length ≤ 1 →
      (state.step step).2.files = state.files) ∧
    state.host.edited = log.any Primitive.isEdit ∧
    ∃ located, sandbox.tree.locate sandbox.directory path = .ok located ∧
      sandbox.tree.entry? located = some (.file host.buffer) ∧
      let out := (state.host.save : StateM Sandbox _) state.sandbox
      (log.any Primitive.isEdit = false → out = (.ok (), state.sandbox)) ∧
      (log.any Primitive.isEdit = true →
        out = (.ok (), { state.sandbox with
          tree := state.sandbox.tree.put located (.file state.host.buffer) }) ∨
        (∃ cause, out = (.error cause, state.sandbox)) ∧ ¬ sandbox.tree.IsTree) := by
  intro opened state log
  obtain ⟨hdirectory, hperforms⟩ := opened.performs_log steps
  have hcarried (step : FileStep) : Carried sandbox.directory (state.wanted step) state.files
      (state.step step).1.failed (state.step step).2.files := by
    have hstep := state.carriesOut_step step
    rw [← hdirectory]
    exact hstep.carried
  obtain ⟨hhost, hread⟩ := Sandbox.of_load_ok hload
  obtain ⟨located, hlocate, hentry⟩ := FileTree.of_read_ok hread
  obtain ⟨hpath, hedited⟩ := hperforms.host_eq
  have hopened : host.path = path ∧ host.edited = false := by
    rw [hhost]
    exact ⟨rfl, rfl⟩
  have hlog : state.host.edited = log.any Primitive.isEdit := by
    rw [← Bool.false_or (log.any Primitive.isEdit), ← hopened.2]
    exact hedited
  refine ⟨fun key entry => ⟨hperforms.of_entry, ?_⟩, fun key content hadds => hadds.free, hperforms,
    hcarried, fun step hfailed => ?_, hlog, located, hlocate, hentry, ?_⟩
  · rintro (hkept | ⟨content, rfl, hadds⟩)
    · exact hperforms.extends_tree key entry hkept
    · exact hperforms.entry_of_adds hadds
  · have hstep := hcarried step
    rw [hfailed] at hstep
    exact hstep.eq_of_length
  · have hstate : state.host.path = path := hpath.trans hopened.1
    rw [← hlog]
    rw [← hstate] at hlocate
    exact state.save_apply hperforms.extends_tree hdirectory hlocate hentry

theorem keeps_files_refused :
    let sandbox : Sandbox :=
      { tree := [(["w"], .directory), (["w", "a.ts"], .file (utf8 "abc"))], directory := ["w"] }
    let host : FileHost := { path := "a.ts", buffer := utf8 "abc" }
    let steps : List FileStep :=
      [.act (.writeFile "b.ts" (utf8 "x")), .act (.writeFile "./a.ts" (utf8 "y")),
        .act (.replaceRange ⟨1, 9⟩ (utf8 "z")), .act (.replaceRange ⟨1, 2⟩ (utf8 "z"))]
    let opened : FileSession := { host, sandbox }
    let state := opened.run steps
    opened.log steps = [.create "b.ts" (utf8 "x"), .replaceRange ⟨1, 2⟩ (utf8 "z")] ∧
    (∀ key entry, state.sandbox.tree.entry? key = some entry ↔
      sandbox.tree.entry? key = some entry ∨
        ∃ content, entry = .file content ∧
          Adds sandbox.directory (opened.log steps) opened.files key content) ∧
    (state.host.save : StateM Sandbox _) state.sandbox =
      (.ok (), { state.sandbox with
        tree := state.sandbox.tree.put ["w", "a.ts"] (.file state.host.buffer) }) := by
  intro sandbox host steps
  have hload : ((FileHost.load "a.ts" : StateM Sandbox _) sandbox).1 = .ok host := by
    decide +kernel
  have htree : sandbox.tree.IsTree := FileTree.isTree_of_forall (by decide +kernel)
  have hlocated : sandbox.tree.locate sandbox.directory "a.ts" = .ok ["w", "a.ts"] := by
    decide +kernel
  obtain ⟨hentries, -, -, -, -, -, located, hlocate, -, -, hsave⟩ := keeps_files hload {} steps
  obtain rfl := Except.ok.inj (hlocated.symm.trans hlocate)
  have hlog : log { host, sandbox } steps =
      [.create "b.ts" (utf8 "x"), .replaceRange ⟨1, 2⟩ (utf8 "z")] := by
    decide +kernel
  have hedited : (log { host, sandbox } steps).any Primitive.isEdit = true := by
    rw [hlog]
    rfl
  clear_value sandbox host steps
  exact ⟨hlog, hentries, (hsave hedited).resolve_right fun hfailed => hfailed.2 htree⟩

end FileSession

end Extraction
