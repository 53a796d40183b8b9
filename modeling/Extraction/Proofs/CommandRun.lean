import Extraction.Proofs.FileRun
import Extraction.Proofs.ReadsOnly
/-!
A command line that extracts, carried out in a sandbox: what it does to the files and what it
prints, as a dry run and otherwise.
-/

namespace Extraction

/-- The text of a plan as a dry run prints it. -/
def ExtractionPlan.printed (plan : ExtractionPlan) : Bytes :=
  plan.toJson.render 0 ++ utf8 "\n"

def ExtractArguments.request (arguments : ExtractArguments) (buffer : Bytes)
    (selection : Option Selection) : ExtractRequest where
  enclosingPath := arguments.file
  buffer := buffer
  selection := selection
  identifier := arguments.name

def ExtractArguments.commandLine (arguments : ExtractArguments) (verbosity : Nat)
    (dryRun : Bool) : CommandLine where
  verbosity := verbosity
  command := .extract { arguments with dryRun }

namespace Sandbox

def carryOut (sandbox : Sandbox) (environment : Environment) (commandLine : CommandLine) :
    Except RunError ExitStatus × Sandbox :=
  (commandLine.run environment : StateM Sandbox _) sandbox

variable {extractor : Extractor} {request : ExtractRequest} {host : FileHost}
  {sandbox : Sandbox}

theorem reportError_apply (err : ExtractError) (sandbox : Sandbox) :
    (reportError err : StateM Sandbox ExitStatus) sandbox =
      if err.isSilent then (.success, sandbox)
      else (.failure, sandbox.tell (.error err.message)) := by
  rw [reportError]
  split <;> rfl

theorem showPlan_of_ok {plan : ExtractionPlan} (hplan : extractor.plan request = .ok plan)
    (sandbox : Sandbox) :
    (showPlan extractor request : StateM Sandbox ExitStatus) sandbox =
      (.success, { sandbox with output := sandbox.output ++ plan.printed }) := by
  rw [showPlan, hplan]
  rfl

theorem showPlan_of_error {err : ExtractError} (hplan : extractor.plan request = .error err)
    (sandbox : Sandbox) :
    (showPlan extractor request : StateM Sandbox ExitStatus) sandbox =
      if err.isSilent then (.success, sandbox)
      else (.failure, sandbox.tell (.error err.message)) := by
  rw [showPlan, hplan]
  exact reportError_apply err sandbox

theorem writeFile_apply (path : String) (content : Bytes) (sandbox : Sandbox) :
    (FileSystem.writeFile path content : StateM Sandbox _) sandbox =
      sandbox.commit (sandbox.tree.write sandbox.directory path content) := rfl

theorem performExtraction_of_error {err : ExtractError} {edited : FileHost} {next : Sandbox}
    (hrun : FileHost.stateRun.run (extractor.run request) (host, sandbox) =
      (.error err, edited, next)) :
    (performExtraction extractor request host : StateM Sandbox _) sandbox =
      (.ok (if err.isSilent then .success else .failure), next) := by
  rw [performExtraction, bind_of_apply_eq (FileHost.apply_of_run_eq hrun)]
  rfl

theorem performExtraction_of_ok {report : ExtractionReport} {edited : FileHost}
    {next : Sandbox} (hedited : edited.edited = true)
    (hrun : FileHost.stateRun.run (extractor.run request) (host, sandbox) =
      (.ok report, edited, next)) :
    (performExtraction extractor request host : StateM Sandbox _) sandbox =
      match next.tree.write next.directory edited.path edited.buffer with
      | .ok tree => (.ok .success, { next with tree })
      | .error cause => (.error (.sourceUnwritable edited.path cause), next) := by
  have hsave : edited.save =
      (FileSystem.writeFile edited.path edited.buffer : StateM Sandbox _) := by
    rw [FileHost.save, if_pos hedited]
  rw [performExtraction, bind_of_apply_eq (FileHost.apply_of_run_eq hrun)]
  simp only [hsave]
  have hwrite := writeFile_apply edited.path edited.buffer next
  cases htree : next.tree.write next.directory edited.path edited.buffer with
  | error cause =>
      rw [htree] at hwrite
      rw [bind_of_apply_eq hwrite]
      rfl
  | ok tree =>
      rw [htree] at hwrite
      rw [bind_of_apply_eq hwrite]
      rfl

/-- Carrying out a plan that was made for a loaded file: its file is not created and nothing
changes, or it is created and the loaded file is written. -/
theorem performExtraction_planned {plan : ExtractionPlan}
    (hplan : extractor.plan request = .ok plan) (hbuffer : host.buffer = request.buffer)
    (sandbox : Sandbox) :
    (performExtraction extractor request host : StateM Sandbox _) sandbox =
      match sandbox.tree.create sandbox.directory plan.file.path plan.file.content with
      | .error cause =>
          (.ok .failure,
            sandbox.tell (.error (ExtractError.writeFailure plan.file.path cause).message))
      | .ok tree =>
          match tree.write sandbox.directory host.path (plan.finalBuffer request.buffer) with
          | .error cause =>
              (.error (.sourceUnwritable host.path cause),
                ({ sandbox with tree } : Sandbox).tellAll plan.notifications)
          | .ok tree =>
              (.ok .success, ({ sandbox with tree } : Sandbox).tellAll plan.notifications) := by
  cases hcreate : sandbox.tree.create sandbox.directory plan.file.path plan.file.content with
  | error cause =>
      exact performExtraction_of_error (FileHost.run_of_create_error hplan hcreate)
  | ok tree =>
      have hdone := performExtraction_of_ok rfl (FileHost.run_of_create_ok hplan hbuffer hcreate)
      let told := ({ sandbox with tree } : Sandbox).tellAll plan.notifications
      have hwrite : told.tree.write told.directory host.path (plan.finalBuffer request.buffer) =
          tree.write sandbox.directory host.path (plan.finalBuffer request.buffer) := by
        rw [tellAll_tree, tellAll_directory]
      refine hdone.trans ?_
      simp only
      rw [hwrite]
      cases tree.write sandbox.directory host.path (plan.finalBuffer request.buffer) with
      | error cause => rfl
      | ok final => exact congrArg (Prod.mk _) (tellAll_with_tree _ _ final)

theorem performExtraction_of_plan_error {err : ExtractError}
    (hplan : extractor.plan request = .error err) (host : FileHost) (sandbox : Sandbox) :
    (performExtraction extractor request host : StateM Sandbox _) sandbox =
      if err.isSilent then (.ok .success, sandbox)
      else (.ok .failure, sandbox.tell (.error err.message)) := by
  have hrun := FileHost.stateRun.run_of_plan_error hplan (host, sandbox)
  rw [FileHost.tell_eq] at hrun
  have hnext : FileHost.stateRun.run (extractor.run request) (host, sandbox) =
      (.error err, host, if err.isSilent then sandbox else sandbox.tell (.error err.message)) :=
    hrun.trans (by split <;> rfl)
  exact (performExtraction_of_error hnext).trans (by split <;> rfl)

end Sandbox

/-! The command line. -/

theorem ExtractArguments.of_selection_error {arguments : ExtractArguments} {buffer : Bytes}
    {err : SelectionError} (h : arguments.selection buffer = .error err) :
    (∃ lines, err = .linesOutside lines arguments.file buffer.lineCount) ∨
      ∃ span, err = .invalid (.invalidSelection span buffer.length) := by
  have hspan : ∀ {span}, selectSpan buffer span = .error err →
      ∃ span, err = .invalid (.invalidSelection span buffer.length) := by
    intro span h
    unfold selectSpan at h
    split at h
    · cases h
    · next herr =>
        cases h
        exact ⟨span, congrArg _ (Selection.of_ofBuffer_error herr)⟩
  unfold selection at h
  split at h
  · exact .inr (hspan h)
  · split at h
    · exact .inr (hspan h)
    · cases h
      exact .inl ⟨_, rfl⟩
  · cases h

namespace Sandbox

theorem extractFrom_of_valid (arguments : ExtractArguments) (extractor : Extractor)
    (host : FileHost) {given : Option Selection} {selection : Selection}
    (hname : arguments.name.isSome = true) (hgiven : arguments.selection host.buffer = .ok given)
    (hvalid : Selection.validate host.buffer given = .ok selection) (sandbox : Sandbox) :
    (extractFrom arguments extractor host : StateM Sandbox _) sandbox =
      if arguments.dryRun then
        let out := (showPlan extractor (arguments.request host.buffer given) :
          StateM Sandbox _) sandbox
        (.ok out.1, out.2)
      else
        (performExtraction extractor (arguments.request host.buffer given) host :
          StateM Sandbox _) sandbox := by
  obtain ⟨name, hname⟩ := Option.isSome_iff_exists.mp hname
  rw [extractFrom, hgiven, ExtractArguments.request]
  simp only [hvalid, hname]
  cases arguments.dryRun <;> rfl

/-- With a name given, a loaded file is refused for its selection, whether this is a dry run or
not; or else a dry run shows the plan that the other run carries out. -/
theorem extractFrom_apply {arguments : ExtractArguments} (hname : arguments.name.isSome = true)
    (extractor : Extractor) (host : FileHost) (sandbox : Sandbox) :
    (∃ fault : SelectionError, (∀ cause, fault ≠ .invalid (.bufferEdit cause)) ∧
      ∀ dryRun,
        (extractFrom { arguments with dryRun } extractor host : StateM Sandbox _) sandbox =
          (.ok .failure, sandbox.tell (.error fault.message))) ∨
      ∃ selection,
        (∀ dryRun,
          (extractFrom { arguments with dryRun } extractor host : StateM Sandbox _) sandbox =
            if dryRun then
              let request := arguments.request host.buffer selection
              let out := (showPlan extractor request : StateM Sandbox _) sandbox
              (.ok out.1, out.2)
            else
              (performExtraction extractor (arguments.request host.buffer selection) host :
                StateM Sandbox _) sandbox) := by
  cases hselection : arguments.selection host.buffer with
  | error err =>
      refine .inl ⟨err, ?_, fun dryRun => ?_⟩
      · intro cause
        rcases ExtractArguments.of_selection_error hselection with ⟨lines, rfl⟩ | ⟨span, rfl⟩
        · exact nofun
        · exact nofun
      have hsame : ({ arguments with dryRun } : ExtractArguments).selection host.buffer =
          .error err := hselection
      rw [extractFrom, hsame]
      rfl
  | ok selection =>
      cases hvalid : Selection.validate host.buffer selection with
      | error err =>
          have hsame : ∀ dryRun,
              ({ arguments with dryRun } : ExtractArguments).selection host.buffer =
                .ok selection := fun _ => hselection
          refine .inl ⟨.invalid err, ?_, fun dryRun => ?_⟩
          · intro cause
            rcases Selection.of_validate_error hvalid with rfl | ⟨span, rfl⟩
            · exact nofun
            · exact nofun
          have hreport := reportError_apply err sandbox
          rw [Selection.isSilent_of_validate_error hvalid] at hreport
          rw [extractFrom, hsame]
          simp only [hvalid]
          exact bind_of_apply_eq hreport _
      | ok valid =>
          exact .inr ⟨selection, fun dryRun =>
            extractFrom_of_valid { arguments with dryRun } extractor host hname hselection hvalid
              sandbox⟩

end Sandbox

end Extraction
