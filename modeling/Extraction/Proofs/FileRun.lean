import Extraction.Host.File
import Extraction.Proofs.HostRun
import Extraction.Proofs.Planning
import Extraction.Proofs.TreeEdits
/-!
Runs on a file that was loaded, in a sandbox. The new file is created at once or not at all, the
loaded one is only edited, and what the user is told is printed.
-/

namespace Extraction

namespace Sandbox

section Creating

variable {sandbox after : Sandbox} {path : String} {key : List String} {cause : IoError}
  {fill : List String → StateM Sandbox (Except IoError Unit)}

theorem createExclusive_of_taken
    (hfree : sandbox.tree.freeKey sandbox.directory path = .error cause) :
    (createExclusive path fill : StateM Sandbox _) sandbox = (.error cause, sandbox) := by
  have hnew : (FileSystem.createNew path : StateM Sandbox _) sandbox =
      (.error cause, sandbox) := by
    simp only [FileSystem.createNew, hfree]
  unfold createExclusive
  simp only [bind, StateT.bind]
  rw [hnew]
  rfl

theorem createNew_of_free (hfree : sandbox.tree.freeKey sandbox.directory path = .ok key) :
    (FileSystem.createNew path : StateM Sandbox _) sandbox =
      (.ok key, { sandbox with tree := sandbox.tree.put key (.file []) }) := by
  simp only [FileSystem.createNew, hfree]

theorem createExclusive_of_fill_ok
    (hfree : sandbox.tree.freeKey sandbox.directory path = .ok key)
    (hfill : fill key { sandbox with tree := sandbox.tree.put key (.file []) } = (.ok (), after)) :
    (createExclusive path fill : StateM Sandbox _) sandbox = (.ok (), after) := by
  unfold createExclusive
  simp only [bind, StateT.bind]
  rw [createNew_of_free hfree]
  simp only [StateT.bind]
  rw [hfill]
  rfl

/-- A fill that fails, whatever it wrote, leaves nothing of the file. -/
theorem createExclusive_of_fill_error {written : Bytes}
    (hfree : sandbox.tree.freeKey sandbox.directory path = .ok key)
    (hfill : fill key { sandbox with tree := sandbox.tree.put key (.file []) } =
      (.error cause, { sandbox with tree := sandbox.tree.put key (.file written) })) :
    (createExclusive path fill : StateM Sandbox _) sandbox = (.error cause, sandbox) := by
  have hremove : (FileSystem.removeFile path : StateM Sandbox _)
      { sandbox with tree := sandbox.tree.put key (.file written) } = (.ok (), sandbox) := by
    simp only [FileSystem.removeFile, FileTree.delete_put hfree, commit]
  unfold createExclusive
  simp only [bind, StateT.bind]
  rw [createNew_of_free hfree]
  simp only [StateT.bind]
  rw [hfill]
  let failed (out : Except IoError Unit × Sandbox) : Except IoError Unit × Sandbox :=
    (.error cause, out.2)
  exact congrArg failed hremove

theorem createFile_apply (sandbox : Sandbox) (path : String) (content : Bytes) :
    (createFile path content : StateM Sandbox _) sandbox =
      sandbox.commit (sandbox.tree.create sandbox.directory path content) := by
  rw [createFile, FileTree.create]
  cases hfree : sandbox.tree.freeKey sandbox.directory path with
  | error cause => exact createExclusive_of_taken hfree
  | ok key =>
      apply createExclusive_of_fill_ok hfree
      simp [FileSystem.fill, FileTree.put_put]

end Creating

def tell (sandbox : Sandbox) (notification : Notification) : Sandbox :=
  let line := utf8 notification.display ++ utf8 "\n"
  match notification with
  | .info _ => { sandbox with output := sandbox.output ++ line }
  | _ => { sandbox with errors := sandbox.errors ++ line }

theorem printNotification_apply (notification : Notification) (sandbox : Sandbox) :
    (printNotification notification : StateM Sandbox Unit) sandbox =
      ((), sandbox.tell notification) := by
  cases notification <;> rfl

@[simp] theorem tell_tree (sandbox : Sandbox) (notification : Notification) :
    (sandbox.tell notification).tree = sandbox.tree := by
  cases notification <;> rfl

@[simp] theorem tell_directory (sandbox : Sandbox) (notification : Notification) :
    (sandbox.tell notification).directory = sandbox.directory := by
  cases notification <;> rfl

def tellAll (sandbox : Sandbox) (notifications : List Notification) : Sandbox :=
  notifications.foldl tell sandbox

theorem tellAll_tree (notifications : List Notification) (sandbox : Sandbox) :
    (sandbox.tellAll notifications).tree = sandbox.tree := by
  induction notifications generalizing sandbox with
  | nil => rfl
  | cons notification notifications ih => exact (ih _).trans (tell_tree _ _)

theorem tellAll_directory (notifications : List Notification) (sandbox : Sandbox) :
    (sandbox.tellAll notifications).directory = sandbox.directory := by
  induction notifications generalizing sandbox with
  | nil => rfl
  | cons notification notifications ih => exact (ih _).trans (tell_directory _ _)

theorem tellAll_with_tree (notifications : List Notification) (sandbox : Sandbox)
    (tree : FileTree) :
    { sandbox.tellAll notifications with tree } =
      ({ sandbox with tree } : Sandbox).tellAll notifications := by
  induction notifications generalizing sandbox with
  | nil => rfl
  | cons notification notifications ih =>
      refine (ih _).trans (congrArg (tellAll · notifications) ?_)
      cases notification <;> rfl

end Sandbox

namespace FileHost

def stateRun : StateRun (StateT FileHost (StateM Sandbox)) (FileHost × Sandbox) where
  run action state :=
    let out := action state.1 state.2
    (out.1.1, out.1.2, out.2)
  run_pure _ _ := rfl
  run_bind _ _ _ := rfl

theorem apply_of_run_eq {action : StateT FileHost (StateM Sandbox) α} {host next : FileHost}
    {sandbox after : Sandbox} {a : α}
    (h : stateRun.run action (host, sandbox) = (a, next, after)) :
    action host sandbox = ((a, next), after) := by
  obtain ⟨ha, hstate⟩ := Prod.mk.inj h
  obtain ⟨hnext, hafter⟩ := Prod.mk.inj hstate
  exact Prod.ext (Prod.ext ha hnext) hafter

theorem tell_eq (notification : Notification) (host : FileHost) (sandbox : Sandbox) :
    stateRun.tell notification (host, sandbox) = (host, sandbox.tell notification) := by
  have hprint := congrArg Prod.snd (Sandbox.printNotification_apply notification sandbox)
  exact congrArg (Prod.mk host) hprint

theorem announce_eq (plan : ExtractionPlan) (host : FileHost) (sandbox : Sandbox) :
    stateRun.announce plan (host, sandbox) = (host, sandbox.tellAll plan.notifications) := by
  rcases plan with ⟨names, modulePath, file, edit, _ | ⟨_ | _, keep⟩⟩ <;> rfl

variable {sandbox : Sandbox} {host : FileHost}

theorem writeFile_eq (path : String) (content : Bytes) :
    stateRun.run (Host.writeFile path content) (host, sandbox) =
      ((sandbox.commit (sandbox.tree.create sandbox.directory path content)).1, host,
        (sandbox.commit (sandbox.tree.create sandbox.directory path content)).2) :=
  congrArg (fun out => (out.1, host, out.2)) (sandbox.createFile_apply path content)

theorem replaceRange_of_fits {edit : TextEdit} (hfits : edit.span.fits host.buffer = true) :
    stateRun.run (Host.replaceRange edit.span edit.replacement) (host, sandbox) =
      (.ok (), { host with buffer := edit.apply host.buffer, edited := true }, sandbox) := by
  have hreplace : host.replaceRange edit.span edit.replacement =
      (.ok (), { host with buffer := edit.apply host.buffer, edited := true }) := by
    rw [replaceRange, spliceBuffer_of_fits hfits]
    rfl
  exact congrArg (fun out => (out.1, out.2, sandbox)) hreplace

variable {extractor : Extractor} {request : ExtractRequest} {plan : ExtractionPlan}

theorem run_of_create_error {cause : IoError} (hplan : extractor.plan request = .ok plan)
    (hcreate : sandbox.tree.create sandbox.directory plan.file.path plan.file.content =
      .error cause) :
    stateRun.run (extractor.run request) (host, sandbox) =
      (.error (.writeFailure plan.file.path cause), host,
        sandbox.tell (.error (ExtractError.writeFailure plan.file.path cause).message)) := by
  have hwrite : stateRun.run (Host.writeFile plan.file.path plan.file.content) (host, sandbox) =
      (.error cause, host, sandbox) := by
    rw [writeFile_eq, hcreate]
    rfl
  rw [stateRun.run_of_plan_ok hplan, StateRun.run_apply_of_error hwrite, tell_eq]

theorem run_of_create_ok {tree : FileTree} (hplan : extractor.plan request = .ok plan)
    (hbuffer : host.buffer = request.buffer)
    (hcreate : sandbox.tree.create sandbox.directory plan.file.path plan.file.content =
      .ok tree) :
    stateRun.run (extractor.run request) (host, sandbox) =
      (.ok plan.finalReport,
        { host with buffer := plan.finalBuffer request.buffer, edited := true },
        ({ sandbox with tree } : Sandbox).tellAll plan.notifications) := by
  have hwrite : stateRun.run (Host.writeFile plan.file.path plan.file.content) (host, sandbox) =
      (.ok (), host, { sandbox with tree }) := by
    rw [writeFile_eq, hcreate]
    rfl
  have hfits : plan.selectionEdit.span.fits host.buffer = true := by
    rw [hbuffer]
    exact Extractor.fits_of_plan_ok hplan
  have happly : stateRun.run plan.apply (host, sandbox) =
      (.ok plan.finalReport, stateRun.announce plan
        ({ host with buffer := plan.finalBuffer request.buffer, edited := true },
          { sandbox with tree })) := by
    apply StateRun.run_apply_of_ok hwrite (replaceRange_of_fits hfits)
    · intro hreplacement
      rw [hbuffer, ExtractionPlan.finalBuffer_of_none hreplacement]
    · intro text hreplacement
      rw [ExtractionPlan.finalBuffer_of_some hreplacement]
      rfl
  rw [stateRun.run_of_plan_ok hplan, happly, announce_eq]

/-- The buffer of a loaded file takes every edit that was planned for it. -/
theorem run_ne_bufferEdit (hbuffer : host.buffer = request.buffer) (cause : EditError) :
    (stateRun.run (extractor.run request) (host, sandbox)).1 ≠ .error (.bufferEdit cause) := by
  cases hplan : extractor.plan request with
  | error err =>
      rw [stateRun.run_of_plan_error hplan]
      rcases Extractor.of_plan_error hplan with rfl | rfl | ⟨span, rfl⟩ | ⟨cause, rfl⟩
      all_goals exact nofun
  | ok plan =>
      cases hcreate : sandbox.tree.create sandbox.directory plan.file.path plan.file.content with
      | error cause =>
          rw [run_of_create_error hplan hcreate]
          exact nofun
      | ok tree =>
          rw [run_of_create_ok hplan hbuffer hcreate]
          exact nofun

end FileHost

end Extraction
