import Extraction.Proofs.CommandRun
import Extraction.Proofs.JsonText
import Extraction.Proofs.LayeredConfig
import Extraction.Proofs.MemoryRun
import Extraction.Proofs.TreeEdits
/-!
A dry run predicts the real run: the plan that it prints is the one that the same command line
carries out, and the buffer that the plan foretells is what the file holds in the end.
-/

namespace Extraction

namespace ExtractionPlan

theorem printed_inj {plan other : ExtractionPlan} (h : plan.printed = other.printed) :
    plan = other :=
  eq_of_render (List.append_cancel_right h)

theorem printed_ne_nil (plan : ExtractionPlan) : plan.printed ≠ [] := by
  intro h
  cases (List.append_eq_nil_iff.mp h).2

end ExtractionPlan

namespace Sandbox

variable {sandbox : Sandbox} {environment : Environment} {arguments : ExtractArguments}
  {verbosity : Nat} {plan : ExtractionPlan}

/-- A dry run that prints a plan, and the extraction that the other run carries out. -/
theorem exists_of_printed (hname : arguments.name.isSome = true)
    (hprinted : (sandbox.carryOut environment (arguments.commandLine verbosity true)).2.output =
      sandbox.output ++ plan.printed) :
    sandbox.carryOut environment (arguments.commandLine verbosity true) =
        (.ok .success, { sandbox with output := sandbox.output ++ plan.printed }) ∧
      ∃ extractor buffer selection,
        sandbox.tree.read sandbox.directory arguments.file = .ok buffer ∧
        extractor.plan (arguments.request buffer selection) = .ok plan ∧
        sandbox.carryOut environment (arguments.commandLine verbosity false) =
          (performExtraction extractor (arguments.request buffer selection)
            { path := arguments.file, buffer } : StateM Sandbox _) sandbox := by
  have hcarry : ∀ dryRun, sandbox.carryOut environment (arguments.commandLine verbosity dryRun) =
      (runExtract environment { arguments with dryRun } : StateM Sandbox _) sandbox :=
    fun _ => rfl
  have hsilent : sandbox.output ≠ sandbox.output ++ plan.printed := by
    intro hsame
    exact plan.printed_ne_nil (List.self_eq_append_right.mp hsame)
  rw [hcarry] at hprinted
  simp only [hcarry]
  rcases runExtract_apply environment arguments sandbox with
    ⟨err, hstopped⟩ | ⟨extractor, buffer, hread, hfrom⟩
  · rw [hstopped] at hprinted
    exact absurd hprinted hsilent
  rcases extractFrom_apply hname extractor { path := arguments.file, buffer } sandbox with
    ⟨fault, -, hrefused⟩ | ⟨selection, haccepted⟩
  · rw [hfrom, hrefused] at hprinted
    exact absurd hprinted hsilent
  simp only [hfrom, haccepted] at hprinted ⊢
  cases hplan : extractor.plan (arguments.request buffer selection) with
  | error err =>
      simp only [if_true, showPlan_of_error hplan] at hprinted
      split at hprinted
      · exact absurd hprinted hsilent
      · exact absurd hprinted hsilent
  | ok made =>
      have hshown := showPlan_of_ok hplan sandbox
      simp only [if_true, hshown] at hprinted ⊢
      obtain rfl := ExtractionPlan.printed_inj (List.append_cancel_left hprinted)
      exact ⟨rfl, extractor, buffer, selection, hread, hplan, rfl⟩

end Sandbox

/-- A plan that was made says what carrying it out leaves behind. On a host in memory that refuses
nothing and has no file under the planned path: the planned buffer, the new file, and a warning for
a missing declaration before the message of success. On the command line: the dry run changes no
file, and the other run either cannot create the new file and changes none, or adds it and writes
the planned buffer to the file that was read. -/
theorem dryRun_predicts :
    (∀ (extractor : Extractor) (request : ExtractRequest) (host : MemoryHost)
        (plan : ExtractionPlan),
      extractor.plan request = .ok plan → host.buffer = request.buffer →
      host.failWrites = none → host.failReplaceAll = none →
      FileMap.get? host.files plan.file.path = none →
      (extractor.run request : MemoryRun ExtractionReport) host =
        (.ok plan.finalReport,
          { host with
            buffer := plan.finalBuffer request.buffer
            files := FileMap.insert plan.file.path plan.file.content host.files
            opened := host.opened ++ [plan.file.path]
            notifications := host.notifications ++ plan.notifications })) ∧
    (∀ (environment : Environment) (arguments : ExtractArguments) (verbosity : Nat)
        (sandbox : Sandbox) (plan : ExtractionPlan),
      let dry := sandbox.carryOut environment (arguments.commandLine verbosity true)
      let real := sandbox.carryOut environment (arguments.commandLine verbosity false)
      arguments.name.isSome = true → dry.2.output = sandbox.output ++ plan.printed →
      (∀ path cause, real.1 ≠ .error (.sourceUnwritable path cause)) →
      dry = (.ok .success, { sandbox with output := sandbox.output ++ plan.printed }) ∧
      ((∃ cause,
          sandbox.tree.create sandbox.directory plan.file.path plan.file.content =
            .error cause ∧
          real = (.ok .failure, sandbox.tell
            (.error (ExtractError.writeFailure plan.file.path cause).message))) ∨
        ∃ buffer source target,
          sandbox.tree.locate sandbox.directory arguments.file = .ok source ∧
          sandbox.tree.entry? source = some (.file buffer) ∧
          sandbox.tree.destination sandbox.directory plan.file.path = .ok (.name target) ∧
          sandbox.tree.entry? target = none ∧
          real = (.ok .success,
            ({ sandbox with
                tree := (sandbox.tree.put target (.file plan.file.content)).put source
                  (.file (plan.finalBuffer buffer)) } : Sandbox).tellAll
              plan.notifications))) := by
  constructor
  · intro extractor request host plan hplan hbuffer hwrites hreplaceAll hfree
    exact MemoryHost.run_planned hplan hbuffer hwrites hreplaceAll hfree
  · intro environment arguments verbosity sandbox plan dry real hname hprinted hwritten
    obtain ⟨hdry, extractor, buffer, selection, hread, hplan, hreal⟩ :=
      Sandbox.exists_of_printed hname hprinted
    refine ⟨hdry, ?_⟩
    obtain ⟨source, hsource, hentry⟩ := FileTree.of_read_ok hread
    have houtcome := hreal.trans (Sandbox.performExtraction_planned hplan rfl sandbox)
    cases hcreate : sandbox.tree.create sandbox.directory plan.file.path plan.file.content with
    | error cause =>
        rw [hcreate] at houtcome
        exact .inl ⟨cause, rfl, houtcome⟩
    | ok tree =>
        obtain ⟨target, htarget, hfree, rfl⟩ := FileTree.of_create_ok hcreate
        rw [hcreate] at houtcome
        simp only at houtcome
        split at houtcome
        · next cause hwrite => exact absurd (congrArg Prod.fst houtcome) (hwritten _ _)
        · next tree hwrite =>
            obtain ⟨named, hnamed, rfl⟩ := FileTree.of_write_ok hwrite
            obtain rfl := FileTree.eq_of_destination_put hfree hsource hnamed
            exact .inr ⟨buffer, named, target, hsource, hentry, htarget, hfree, houtcome⟩

theorem dryRun_predicts_template :
    let source := utf8 "<p>x</p>"
    let extractor : Extractor :=
      { options := { synthesis := { importSource := "", template := "t" } }
        templateFile := fun _ => .readable (utf8 "<b>") }
    let arguments : ExtractArguments :=
      { file := "a.ts", bytes := some ⟨3, 4⟩, name := some "card" }
    let request := arguments.request source (some ⟨utf8 "x", ⟨3, 4⟩⟩)
    let host : MemoryHost := { buffer := source }
    let environment : Environment := { currentDirectory := "/w" }
    let sandbox : Sandbox :=
      { tree :=
          [(["w"], .directory), (["w", "a.ts"], .file source), (["w", "t"], .file (utf8 "<b>")),
            (["w", ".ngextract"], .directory),
            (["w", ".ngextract", "config.toml"], .file (utf8 "template=['','t']"))]
        directory := ["w"] }
    ∃ plan, extractor.plan request = .ok plan ∧
      (extractor.run request : MemoryRun ExtractionReport) host =
        (.ok plan.finalReport,
          { host with
            buffer := plan.finalBuffer request.buffer
            files := FileMap.insert plan.file.path plan.file.content host.files
            opened := host.opened ++ [plan.file.path]
            notifications := host.notifications ++ plan.notifications }) ∧
      sandbox.carryOut environment (arguments.commandLine 0 true) =
        (.ok .success, { sandbox with output := sandbox.output ++ plan.printed }) ∧
      ((∃ cause,
          sandbox.tree.create sandbox.directory plan.file.path plan.file.content =
            .error cause ∧
          sandbox.carryOut environment (arguments.commandLine 0 false) =
            (.ok .failure, sandbox.tell
              (.error (ExtractError.writeFailure plan.file.path cause).message))) ∨
        ∃ buffer source target,
          sandbox.tree.locate sandbox.directory arguments.file = .ok source ∧
          sandbox.tree.entry? source = some (.file buffer) ∧
          sandbox.tree.destination sandbox.directory plan.file.path = .ok (.name target) ∧
          sandbox.tree.entry? target = none ∧
          sandbox.carryOut environment (arguments.commandLine 0 false) = (.ok .success,
            ({ sandbox with
                tree := (sandbox.tree.put target (.file plan.file.content)).put source
                  (.file (plan.finalBuffer buffer)) } : Sandbox).tellAll
              plan.notifications)) := by
  intro source extractor arguments request host environment sandbox
  let config := Config.builtin.merge
    { template := { importSource := some "", name := some "t" } }
  have hloaded : ((loadConfig environment : StateM Sandbox _) sandbox).1 = .ok config := by
    rw [loadConfig_eq]
    decide +kernel
  have hload : ((FileHost.load arguments.file : StateM Sandbox _) sandbox).1 =
      .ok { path := arguments.file, buffer := source } := by
    decide +kernel
  have hrun (dryRun : Bool) : sandbox.carryOut environment (arguments.commandLine 0 dryRun) =
      (extractFrom { arguments with dryRun }
        (sandbox.extractorFor (arguments.override config.options))
        { path := arguments.file, buffer := source } : StateM Sandbox _) sandbox :=
    Sandbox.runExtract_of_loaded { arguments with dryRun } hloaded hload
  have hprinted : (sandbox.carryOut environment (arguments.commandLine 0 true)).2.output =
      ((extractor.plan request).toOption.map ExtractionPlan.printed).getD [] := by
    rw [hrun]
    decide +kernel
  have hreal :
      (sandbox.carryOut environment (arguments.commandLine 0 false)).1.toOption =
        some .success := by
    rw [hrun]
    decide +kernel
  obtain ⟨plan, hplan⟩ : ∃ plan, extractor.plan request = .ok plan :=
    exists_of_isSome (by decide +kernel)
  have hmemory := dryRun_predicts.1 extractor request host plan hplan rfl rfl rfl rfl
  have hshown : (sandbox.carryOut environment (arguments.commandLine 0 true)).2.output =
      sandbox.output ++ plan.printed := by
    rw [hprinted, hplan]
    rfl
  have hwritten : ∀ path cause,
      (sandbox.carryOut environment (arguments.commandLine 0 false)).1 ≠
        .error (.sourceUnwritable path cause) := by
    intro path cause hfailed
    rw [hfailed] at hreal
    cases hreal
  have hfile := dryRun_predicts.2 environment arguments 0 sandbox plan rfl hshown hwritten
  exact ⟨plan, hplan, hmemory, hfile⟩

end Extraction
