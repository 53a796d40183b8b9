import Extraction.CommandLine.Run
import Extraction.FileTree
/-!
What a command does before it writes: it looks at files and changes nothing. A command line that
extracts reads its configuration, its source file and its template, and only then does one thing
or another.
-/

namespace Extraction

namespace Sandbox

theorem bind_of_apply_eq {first : StateM Sandbox α} {sandbox next : Sandbox} {a : α}
    (h : first sandbox = (a, next)) (rest : α → StateM Sandbox β) :
    (first >>= rest) sandbox = rest a next := by
  have hbind : (first >>= rest) sandbox = rest (first sandbox).1 (first sandbox).2 := rfl
  rw [hbind, h]

/-- An action that leaves the sandbox as it is. -/
def ReadsOnly (action : StateM Sandbox α) : Prop :=
  ∀ sandbox, (action sandbox).2 = sandbox

namespace ReadsOnly

theorem pure (a : α) : ReadsOnly (Pure.pure a : StateM Sandbox α) := by
  intro sandbox
  rfl

theorem bind_apply {first : StateM Sandbox α} (hfirst : ReadsOnly first)
    (rest : α → StateM Sandbox β) (sandbox : Sandbox) :
    (first >>= rest) sandbox = rest (first sandbox).1 sandbox := by
  have hout : first sandbox = ((first sandbox).1, sandbox) := Prod.ext rfl (hfirst sandbox)
  exact bind_of_apply_eq hout rest

theorem bind {first : StateM Sandbox α} {rest : α → StateM Sandbox β}
    (hfirst : ReadsOnly first) (hrest : ∀ a, ReadsOnly (rest a)) :
    ReadsOnly (first >>= rest) := by
  intro sandbox
  rw [hfirst.bind_apply, hrest]

theorem ite {p : Prop} [Decidable p] {yes no : StateM Sandbox α} (hyes : ReadsOnly yes)
    (hno : ReadsOnly no) : ReadsOnly (if p then yes else no) := by
  split
  · exact hyes
  · exact hno

end ReadsOnly

theorem readsOnly_readBytes (path : String) :
    ReadsOnly (FileSystem.readBytes path : StateM Sandbox _) := by
  intro sandbox
  rfl

theorem readsOnly_pathExists (path : String) :
    ReadsOnly (FileSystem.pathExists path : StateM Sandbox _) := by
  intro sandbox
  rfl

theorem readsOnly_readText (path : String) : ReadsOnly (readText path) := by
  apply (readsOnly_readBytes path).bind
  rintro (err | bytes)
  · exact .pure _
  · exact .pure _

theorem readsOnly_findTemplate (name : String) : ReadsOnly (findTemplate name) := by
  apply ReadsOnly.ite (.pure _)
  apply (readsOnly_pathExists name).bind
  intro found
  apply ReadsOnly.ite _ (.pure _)
  apply (readsOnly_readText name).bind
  rintro (err | text)
  · exact .pure _
  · exact .pure _

theorem readsOnly_findWorkspace (fallback : String) (directories : List String) :
    ReadsOnly (findWorkspace fallback directories) := by
  induction directories with
  | nil => exact .pure _
  | cons directory directories ih =>
      apply (readsOnly_pathExists _).bind
      intro found
      exact .ite (.pure _) ih

theorem readsOnly_workspaceFile (environment : Environment) :
    ReadsOnly (workspaceFile environment) :=
  (readsOnly_findWorkspace _ _).bind fun _ => .pure _

theorem readsOnly_readLayer (path : String) : ReadsOnly (readLayer path) := by
  apply (readsOnly_readText path).bind
  rintro (cause | text)
  · exact .pure _
  · simp only
    split
    · exact .pure _
    · exact .pure _

theorem readsOnly_addLayers (config : Config) (paths : List String) :
    ReadsOnly (addLayers config paths) := by
  induction paths generalizing config with
  | nil => exact .pure _
  | cons path paths ih =>
      apply (readsOnly_pathExists path).bind
      intro found
      apply ReadsOnly.ite _ (ih config)
      apply (readsOnly_readLayer path).bind
      rintro (err | layer)
      · exact .pure _
      · exact ih _

theorem readsOnly_loadOver (base : Config) (environment : Environment) :
    ReadsOnly (loadOver base environment) := by
  apply (readsOnly_workspaceFile environment).bind
  intro workspace
  apply (readsOnly_addLayers _ _).bind
  rintro (err | config)
  · exact .pure _
  · simp only
    split
    · exact .pure _
    · exact .pure _

theorem readsOnly_loadFrom (document : String) (environment : Environment) :
    ReadsOnly (loadFrom document environment) := by
  rw [loadFrom]
  cases Config.ofToml? document with
  | none => exact .pure _
  | some base => exact readsOnly_loadOver base environment

theorem readsOnly_loadConfig (environment : Environment) :
    ReadsOnly (loadConfig environment) :=
  readsOnly_loadFrom builtinDocument environment

theorem readsOnly_load (path : String) : ReadsOnly (FileHost.load path) := by
  apply (readsOnly_readText path).bind
  rintro (cause | buffer)
  · exact .pure _
  · exact .pure _

theorem of_readText_ok {path : String} {sandbox : Sandbox} {text : Bytes}
    (h : ((readText path : StateM Sandbox _) sandbox).1 = .ok text) :
    sandbox.tree.read sandbox.directory path = .ok text := by
  have hbytes : ((FileSystem.readBytes path : StateM Sandbox _) sandbox).1 =
      sandbox.tree.read sandbox.directory path := rfl
  rw [readText, (readsOnly_readBytes path).bind_apply, hbytes] at h
  cases hread : sandbox.tree.read sandbox.directory path with
  | error err =>
      rw [hread] at h
      cases h
  | ok bytes =>
      simp only [hread] at h
      split at h
      · exact h
      · cases h

theorem of_load_ok {path : String} {sandbox : Sandbox} {host : FileHost}
    (h : ((FileHost.load path : StateM Sandbox _) sandbox).1 = .ok host) :
    host = { path, buffer := host.buffer } ∧
      sandbox.tree.read sandbox.directory path = .ok host.buffer := by
  rw [FileHost.load, (readsOnly_readText path).bind_apply] at h
  cases hread : ((readText path : StateM Sandbox _) sandbox).1 with
  | error cause =>
      rw [hread] at h
      cases h
  | ok buffer =>
      rw [hread] at h
      cases h
      exact ⟨rfl, of_readText_ok hread⟩

/-- The extractor of a command line: the options in force, and what their template leads to. -/
def extractorFor (sandbox : Sandbox) (options : ExtractOptions) : Extractor where
  options := options
  templateFile _ :=
    ((findTemplate options.synthesis.template : StateM Sandbox _) sandbox).1

theorem runExtract_of_loaded (arguments : ExtractArguments) {environment : Environment}
    {sandbox : Sandbox} {config : Config} {host : FileHost}
    (hconfig : ((loadConfig environment : StateM Sandbox _) sandbox).1 = .ok config)
    (hload : ((FileHost.load arguments.file : StateM Sandbox _) sandbox).1 = .ok host) :
    (runExtract environment arguments : StateM Sandbox _) sandbox =
      (extractFrom arguments (sandbox.extractorFor (arguments.override config.options)) host :
        StateM Sandbox _) sandbox := by
  simp only [runExtract, (readsOnly_loadConfig environment).bind_apply, hconfig,
    (readsOnly_load arguments.file).bind_apply, hload, (readsOnly_findTemplate _).bind_apply]
  rfl

/-- A command line that extracts stops before its selection is looked at, whether it is a dry run
or not, or goes on with the file, the options and the template that it read. -/
theorem runExtract_apply (environment : Environment) (arguments : ExtractArguments)
    (sandbox : Sandbox) :
    (∃ err, ∀ dryRun,
        (runExtract environment { arguments with dryRun } : StateM Sandbox _) sandbox =
          (.error err, sandbox)) ∨
      ∃ extractor buffer,
        sandbox.tree.read sandbox.directory arguments.file = .ok buffer ∧
          ∀ dryRun,
            (runExtract environment { arguments with dryRun } : StateM Sandbox _) sandbox =
              (extractFrom { arguments with dryRun } extractor
                { path := arguments.file, buffer } : StateM Sandbox _) sandbox := by
  cases hconfig : ((loadConfig environment : StateM Sandbox _) sandbox).1 with
  | error cause =>
      refine .inl ⟨.config cause, fun dryRun => ?_⟩
      simp only [runExtract, (readsOnly_loadConfig environment).bind_apply, hconfig]
      rfl
  | ok config =>
      cases hload : ((FileHost.load arguments.file : StateM Sandbox _) sandbox).1 with
      | error cause =>
          refine .inl ⟨.sourceUnreadable arguments.file cause, fun dryRun => ?_⟩
          simp only [runExtract, (readsOnly_loadConfig environment).bind_apply, hconfig,
            (readsOnly_load arguments.file).bind_apply, hload]
          rfl
      | ok host =>
          obtain ⟨hhost, hread⟩ := of_load_ok hload
          refine .inr ⟨sandbox.extractorFor (arguments.override config.options), host.buffer,
            hread, fun dryRun => ?_⟩
          rw [← hhost]
          exact runExtract_of_loaded { arguments with dryRun } hconfig hload

end Sandbox

end Extraction
