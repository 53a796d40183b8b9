import Extraction.Proofs.CommandRun
import Extraction.Proofs.LayeredConfig
/-!
Command lines that fail. Each has changed no file, and has told the user so once or was stopped by
what it could not read. Only the last step, the write of the edited file, can fail after another
file was created.
-/

namespace Extraction

theorem eq_ok_of_toOption {ε α : Type} {result : Except ε α} {a : α}
    (h : result.toOption = some a) : result = .ok a := by
  cases result with
  | error err => cases h
  | ok b => exact congrArg _ (Option.some.inj h)

/-- A fault that was found before a buffer was edited. -/
def SelectionError.IsEarly (fault : SelectionError) : Prop :=
  ∀ cause, fault ≠ .invalid (.bufferEdit cause)

theorem Extractor.isEarly_of_plan_error {extractor : Extractor} {request : ExtractRequest}
    {err : ExtractError} (h : extractor.plan request = .error err) :
    (SelectionError.invalid err).IsEarly := by
  intro cause
  rcases of_plan_error h with rfl | rfl | ⟨span, rfl⟩ | ⟨cause, rfl⟩ <;> exact nofun

namespace Sandbox

theorem tell_error (message : String) (sandbox : Sandbox) :
    sandbox.tell (.error message) =
      { sandbox with errors := sandbox.errors ++ utf8 ("error: " ++ message ++ "\n") } := by
  simp [tell, Notification.display]

/-- The ways in which a command line that extracts from `file` can end. -/
inductive Ended (sandbox : Sandbox) (file : String) : Except RunError ExitStatus × Sandbox → Prop
  /-- Something could not be read. -/
  | stopped (err : RunError) : Ended sandbox file (.error err, sandbox)
  | failed (fault : SelectionError) (hearly : fault.IsEarly) :
      Ended sandbox file (.ok .failure, sandbox.tell (.error fault.message))
  | succeeded (next : Sandbox) : Ended sandbox file (.ok .success, next)
  | unwritable {path : String} {created content : Bytes} {cause : IoError} {next : Sandbox}
      (hcreate : sandbox.tree.create sandbox.directory path created = .ok next.tree)
      (hwrite : next.tree.write sandbox.directory file content = .error cause) :
      Ended sandbox file (.error (.sourceUnwritable file cause), next)

theorem Ended.of_failure {sandbox : Sandbox} {file : String}
    {out : Except RunError ExitStatus × Sandbox} (h : Ended sandbox file out)
    (hfailure : out.1 = .ok .failure) :
    ∃ fault : SelectionError, fault.IsEarly ∧
      out.2 =
        { sandbox with errors := sandbox.errors ++ utf8 ("error: " ++ fault.message ++ "\n") } := by
  cases h with
  | failed fault hearly => exact ⟨fault, hearly, tell_error _ _⟩
  | stopped | succeeded | unwritable => cases hfailure

theorem Ended.of_error {sandbox : Sandbox} {file : String}
    {out : Except RunError ExitStatus × Sandbox} (h : Ended sandbox file out) (err : RunError)
    (herror : out.1 = .error err) :
    out.2 = sandbox ∨ ∃ cause path created content, err = .sourceUnwritable file cause ∧
      sandbox.tree.create sandbox.directory path created = .ok out.2.tree ∧
      out.2.tree.write sandbox.directory file content = .error cause := by
  cases h with
  | stopped => exact .inl rfl
  | unwritable hcreate hwrite =>
      cases herror
      exact .inr ⟨_, _, _, _, rfl, hcreate, hwrite⟩
  | failed | succeeded => cases herror

theorem ended_showPlan (extractor : Extractor) (request : ExtractRequest) (sandbox : Sandbox)
    (file : String) :
    let out := (showPlan extractor request : StateM Sandbox ExitStatus) sandbox
    Ended sandbox file (.ok out.1, out.2) := by
  cases hplan : extractor.plan request with
  | ok plan =>
      rw [showPlan_of_ok hplan]
      exact .succeeded _
  | error err =>
      rw [showPlan_of_error hplan]
      split
      · exact .succeeded sandbox
      · exact .failed (.invalid err) (Extractor.isEarly_of_plan_error hplan)

theorem ended_performExtraction (extractor : Extractor) {request : ExtractRequest}
    (host : FileHost) (hbuffer : host.buffer = request.buffer) (sandbox : Sandbox) :
    Ended sandbox host.path
      ((performExtraction extractor request host : StateM Sandbox _) sandbox) := by
  cases hplan : extractor.plan request with
  | error err =>
      rw [performExtraction_of_plan_error hplan]
      split
      · exact .succeeded sandbox
      · exact .failed (.invalid err) (Extractor.isEarly_of_plan_error hplan)
  | ok plan =>
      rw [performExtraction_planned hplan hbuffer]
      cases hcreate :
        sandbox.tree.create sandbox.directory plan.file.path plan.file.content with
      | error cause =>
          exact .failed (.invalid (.writeFailure plan.file.path cause)) fun _ => nofun
      | ok tree =>
          simp only
          split
          · next cause hwrite =>
              have htree := tellAll_tree plan.notifications { sandbox with tree }
              exact .unwritable (hcreate.trans (congrArg _ htree.symm))
                ((congrArg (FileTree.write · _ _ _) htree).trans hwrite)
          · exact .succeeded _

theorem ended_carryOut {arguments : ExtractArguments} (hname : arguments.name.isSome = true)
    (environment : Environment) (verbosity : Nat) (dryRun : Bool) (sandbox : Sandbox) :
    Ended sandbox arguments.file
      (sandbox.carryOut environment (arguments.commandLine verbosity dryRun)) := by
  have hcarry : sandbox.carryOut environment (arguments.commandLine verbosity dryRun) =
      (runExtract environment { arguments with dryRun } : StateM Sandbox _) sandbox := rfl
  rw [hcarry]
  rcases runExtract_apply environment arguments sandbox with
    ⟨err, hstopped⟩ | ⟨extractor, buffer, -, hfrom⟩
  · rw [hstopped]
    exact .stopped err
  rcases extractFrom_apply hname extractor { path := arguments.file, buffer } sandbox with
    ⟨fault, hearly, hrefused⟩ | ⟨selection, haccepted⟩
  · rw [hfrom, hrefused]
    exact .failed fault hearly
  · rw [hfrom, haccepted]
    cases dryRun with
    | true => exact ended_showPlan _ _ _ _
    | false =>
        exact ended_performExtraction extractor { path := arguments.file, buffer } rfl sandbox

end Sandbox

/-- A command line whose configuration and file can be read, and whose selection is valid. -/
structure ExtractArguments.Begins (arguments : ExtractArguments) (environment : Environment)
    (sandbox : Sandbox) (config : Config) (buffer : Bytes) (selection : Selection) : Prop where
  config_eq : ((loadConfig environment : StateM Sandbox _) sandbox).1 = .ok config
  load_eq : ((FileHost.load arguments.file : StateM Sandbox _) sandbox).1 =
    .ok { path := arguments.file, buffer }
  selection_eq : arguments.selection buffer = .ok (some selection)
  valid : Selection.validate buffer (some selection) = .ok selection

namespace Sandbox

variable {environment : Environment} {arguments : ExtractArguments} {sandbox : Sandbox}
  {config : Config} {buffer : Bytes} {selection : Selection}

/-- A command line that begins shows a plan or carries it out, whatever its name is. -/
theorem carryOut_of_begins
    (hbegins : arguments.Begins environment sandbox config buffer selection)
    (hname : arguments.name.isSome = true) (verbosity : Nat) (dryRun : Bool) :
    let extractor := sandbox.extractorFor (arguments.override config.options)
    let request := arguments.request buffer (some selection)
    sandbox.carryOut environment (arguments.commandLine verbosity dryRun) =
      if dryRun then
        let out := (showPlan extractor request : StateM Sandbox _) sandbox
        (.ok out.1, out.2)
      else
        (performExtraction extractor request { path := arguments.file, buffer } :
          StateM Sandbox _) sandbox := by
  intro extractor request
  have hrun : sandbox.carryOut environment (arguments.commandLine verbosity dryRun) =
      (extractFrom { arguments with dryRun } extractor { path := arguments.file, buffer } :
        StateM Sandbox _) sandbox :=
    runExtract_of_loaded { arguments with dryRun } hbegins.config_eq hbegins.load_eq
  exact hrun.trans
    (extractFrom_of_valid { arguments with dryRun } extractor { path := arguments.file, buffer }
      hname hbegins.selection_eq hbegins.valid sandbox)

theorem carryOut_of_blank
    (hbegins : arguments.Begins environment sandbox config buffer selection) {name : String}
    (hname : arguments.name = some name) (hblank : trimmed name = "") (verbosity : Nat)
    (dryRun : Bool) :
    sandbox.carryOut environment (arguments.commandLine verbosity dryRun) =
      (.ok .success, sandbox) := by
  have hplan : (sandbox.extractorFor (arguments.override config.options)).plan
      (arguments.request buffer (some selection)) = .error .emptyIdentifier := by
    apply Extractor.plan_of_blank hbegins.valid
    rw [ExtractArguments.request, hname]
    exact hblank
  have hout := carryOut_of_begins hbegins (Option.isSome_of_eq_some hname) verbosity dryRun
  simp only at hout
  rw [hout]
  cases dryRun with
  | true =>
      rw [if_pos rfl, showPlan, hplan]
      rfl
  | false => exact performExtraction_of_plan_error hplan _ sandbox

end Sandbox

/-- A command line with a name that fails has told the user so in one line, and done nothing else;
one that is stopped has done nothing, unless it was the write of its file that failed. A blank name
ends one that begins with nothing done. No edit of the buffer that was loaded is refused. -/
theorem carryOut_atomic (environment : Environment) (arguments : ExtractArguments)
    (verbosity : Nat) (dryRun : Bool) (sandbox : Sandbox) (name : String)
    (hname : arguments.name = some name) :
    let out := sandbox.carryOut environment (arguments.commandLine verbosity dryRun)
    (out.1 = .ok .failure → ∃ fault : SelectionError, fault.IsEarly ∧
      out.2 =
        { sandbox with errors := sandbox.errors ++ utf8 ("error: " ++ fault.message ++ "\n") }) ∧
    (∀ err, out.1 = .error err →
      out.2 = sandbox ∨
        ∃ cause path created content, err = .sourceUnwritable arguments.file cause ∧
          sandbox.tree.create sandbox.directory path created = .ok out.2.tree ∧
          out.2.tree.write sandbox.directory arguments.file content = .error cause) ∧
    (∀ config buffer selection,
      arguments.Begins environment sandbox config buffer selection →
      (trimmed name = "" → out = (.ok .success, sandbox)) ∧
      let extractor := sandbox.extractorFor (arguments.override config.options)
      let request := arguments.request buffer (some selection)
      let host : FileHost := { path := arguments.file, buffer }
      (dryRun = false →
        out = (performExtraction extractor request host : StateM Sandbox _) sandbox) ∧
      ∀ cause, ((extractor.run request : StateT FileHost (StateM Sandbox) _) host sandbox).1.1 ≠
        .error (.bufferEdit cause)) := by
  intro out
  have hsome : arguments.name.isSome = true := Option.isSome_of_eq_some hname
  have hended : Sandbox.Ended sandbox arguments.file out :=
    Sandbox.ended_carryOut hsome environment verbosity dryRun sandbox
  refine ⟨hended.of_failure, hended.of_error, ?_⟩
  intro config buffer selection hbegins
  refine ⟨fun hblank => Sandbox.carryOut_of_blank hbegins hname hblank verbosity dryRun, ?_, ?_⟩
  · rintro rfl
    exact Sandbox.carryOut_of_begins hbegins hsome verbosity false
  · exact FileHost.run_ne_bufferEdit rfl

theorem carryOut_atomic_taken :
    let source := utf8 "<p>x</p>"
    let named (name : String) : ExtractArguments :=
      { file := "a.ts", bytes := some ⟨3, 4⟩, name := some name }
    let environment : Environment := { currentDirectory := "/w" }
    let sandbox : Sandbox :=
      { tree :=
          [(["w"], .directory), (["w", "a.ts"], .file source), (["w", "t"], .file (utf8 "<b>")),
            (["w", "card.component.ts"], .file []), (["w", ".ngextract"], .directory),
            (["w", ".ngextract", "config.toml"], .file (utf8 "template=['','t']"))]
        directory := ["w"] }
    (∃ fault : SelectionError, fault.IsEarly ∧
      (sandbox.carryOut environment ((named "card").commandLine 0 false)).2 =
        { sandbox with errors := sandbox.errors ++ utf8 ("error: " ++ fault.message ++ "\n") }) ∧
    sandbox.carryOut environment ((named " ").commandLine 0 false) = (.ok .success, sandbox) := by
  intro source named environment sandbox
  let config := Config.builtin.merge
    { template := { importSource := some "", name := some "t" } }
  have hloaded : ((loadConfig environment : StateM Sandbox _) sandbox).1 = .ok config := by
    rw [loadConfig_eq]
    decide +kernel
  have hload : ((FileHost.load "a.ts" : StateM Sandbox _) sandbox).1 =
      .ok { path := "a.ts", buffer := source } :=
    eq_ok_of_toOption (by decide +kernel)
  have hbegins (name : String) :
      (named name).Begins environment sandbox config source ⟨utf8 "x", ⟨3, 4⟩⟩ :=
    ⟨hloaded, hload, rfl, rfl⟩
  have hfailure : (sandbox.carryOut environment ((named "card").commandLine 0 false)).1 =
      .ok .failure := by
    have hrun := Sandbox.carryOut_of_begins (hbegins "card") rfl 0 false
    simp only at hrun
    rw [hrun]
    exact eq_ok_of_toOption (by decide +kernel)
  refine ⟨(carryOut_atomic environment (named "card") 0 false sandbox "card" rfl).1 hfailure, ?_⟩
  exact ((carryOut_atomic environment (named " ") 0 false sandbox " " rfl).2.2 _ _ _
    (hbegins " ")).1 (by decide +kernel)

end Extraction
