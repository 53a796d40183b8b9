import Extraction.CommandLine.Run
import Extraction.Proofs.LayeredConfig
import Extraction.Proofs.TomlLines
/-!
A printed configuration is read as the configuration that was printed. Each section holds a line
for every setting that is made, the keys of a section differ, and so every setting is found again
where it was written.
-/

namespace Extraction

open TomlDocument

namespace Setting

def value : Setting α → α → TomlValue
  | .policy, choice => .string choice.name
  | .tagStyle, choice => .string choice.name
  | .blockScan, choice => .string choice.name
  | .enabled, flag | .keepImportWithoutBlock, flag => .boolean flag
  | .suffix, text | .selectorPrefix, text | .fileSuffix, text => .string text
  | .importSource, text | .template, text | .fileExtension, text => .string text

def written : Setting α → α → String
  | .policy, choice => TomlText.write choice.name
  | .tagStyle, choice => TomlText.write choice.name
  | .blockScan, choice => TomlText.write choice.name
  | .enabled, flag | .keepImportWithoutBlock, flag => if flag then "true" else "false"
  | .suffix, text | .selectorPrefix, text | .fileSuffix, text => TomlText.write text
  | .importSource, text | .template, text | .fileExtension, text => TomlText.write text

theorem read_value (setting : Setting α) (a : α) : setting.read (setting.value a) = some a := by
  cases setting with
  | policy | tagStyle | blockScan => cases a <;> rfl
  | _ => rfl

theorem writes_written (setting : Setting α) (a : α) :
    Writes (setting.written a).toList (setting.value a) := by
  cases setting with
  | enabled | keepImportWithoutBlock => exact writes_boolean a
  | _ => exact writes_string _

theorem isBare_key (setting : Setting α) : IsBare setting.key.toList := by
  cases setting <;> exact .of_all (by decide) (by decide)

def under : String → List (Σ α, Setting α)
  | "naming" =>
      [⟨_, .suffix⟩, ⟨_, .policy⟩, ⟨_, .selectorPrefix⟩, ⟨_, .fileSuffix⟩, ⟨_, .tagStyle⟩]
  | "template" => [⟨_, .importSource⟩, ⟨_, .template⟩, ⟨_, .fileExtension⟩]
  | "rewrite" => [⟨_, .enabled⟩, ⟨_, .blockScan⟩, ⟨_, .keepImportWithoutBlock⟩]
  | _ => []

theorem mem_under (setting : Setting α) : ⟨α, setting⟩ ∈ under setting.header := by
  cases setting <;> simp [under, header]

theorem nodup_under (header : String) : ((under header).map (·.2.key)).Nodup := by
  unfold under
  split <;> decide

end Setting

namespace Config

variable (config : Config)

def line (setting : Σ α, Setting α) : List Char :=
  match config.get? setting.2 with
  | none => []
  | some a =>
      setting.2.key.toList ++ ' ' :: '=' :: ' ' :: ((setting.2.written a).toList ++ ['\n'])

def entry? (setting : Σ α, Setting α) : Option (String × TomlValue) :=
  (config.get? setting.2).map fun a => (setting.2.key, setting.2.value a)

theorem toList_settingLine (setting : Setting α) :
    (settingLine setting.key ((config.get? setting).map setting.written)).toList =
      config.line ⟨α, setting⟩ := by
  rw [line]
  cases config.get? setting with
  | none => rfl
  | some a => simp [settingLine]

def sectionLines (header : String) : List Char :=
  (Setting.under header).flatMap config.line

def sectionEntries (header : String) : TomlEntries :=
  (Setting.under header).filterMap config.entry?

theorem toToml_eq :
    let line {α : Type} (setting : Setting α) :=
      settingLine setting.key ((config.get? setting).map setting.written)
    config.toToml =
      "[naming]\n" ++ line .suffix ++ line .policy ++ line .selectorPrefix ++ line .fileSuffix ++
        line .tagStyle ++
      "\n[template]\n" ++ line .importSource ++ line .template ++ line .fileExtension ++
      "\n[rewrite]\n" ++ line .enabled ++ line .blockScan ++ line .keepImportWithoutBlock := by
  intro line
  unfold toToml
  repeat' refine congrArg₂ (fun s t : String => s ++ t) ?_ ?_
  all_goals rfl

theorem toList_toToml :
    config.toToml.toList =
      '[' :: ("naming".toList ++ ']' :: '\n' :: (config.sectionLines "naming" ++
      '\n' :: '[' :: ("template".toList ++ ']' :: '\n' :: (config.sectionLines "template" ++
      '\n' :: '[' :: ("rewrite".toList ++ ']' :: '\n' :: config.sectionLines "rewrite"))))) := by
  rw [toToml_eq]
  simp only [String.toList_append, toList_settingLine]
  simp [sectionLines, Setting.under]

theorem reads_lines {settings : List (Σ α, Setting α)} {state : State} {rest : List Char}
    {entries : TomlEntries} (hnodup : (settings.map (·.2.key)).Nodup)
    (hfresh : ∀ setting ∈ settings, state.entries.lookup setting.2.key = none)
    (h : Reads { state with entries := state.entries ++ settings.filterMap config.entry? } rest
      entries) :
    Reads state (settings.flatMap config.line ++ rest) entries := by
  induction settings generalizing state with
  | nil => simpa using h
  | cons setting settings ih =>
      rw [List.map_cons, List.nodup_cons] at hnodup
      rw [List.forall_mem_cons] at hfresh
      rw [List.flatMap_cons, line, List.append_assoc]
      rw [List.filterMap_cons, entry?] at h
      cases hget : config.get? setting.2 with
      | none =>
          rw [hget] at h
          exact ih hnodup.2 hfresh.2 h
      | some a =>
          rw [hget] at h
          simp only [List.append_assoc, List.cons_append, List.nil_append]
          apply Reads.setting setting.2.isBare_key (setting.2.writes_written a) hfresh.1
          apply ih hnodup.2
          · intro other hother
            have hne : other.2.key ≠ setting.2.key := by
              intro heq
              exact hnodup.1 (heq ▸ List.mem_map_of_mem hother)
            rw [List.lookup_append, hfresh.2 other hother, List.lookup_cons,
              beq_false_of_ne hne]
            rfl
          · rw [List.append_assoc]
            exact h

theorem reads_section {header : String} {state : State} {root entries : TomlEntries}
    {rest : List Char} (hheader : IsBare header.toList) (hclose : state.close = some root)
    (hfresh : root.lookup header = none)
    (h : Reads ⟨root, .table [] header, config.sectionEntries header⟩ rest entries) :
    Reads state
      ('[' :: (header.toList ++ ']' :: '\n' :: (config.sectionLines header ++ rest))) entries :=
  .header hheader (State.openTable_fresh hclose hfresh)
    (config.reads_lines (Setting.nodup_under header) (fun _ _ => rfl) h)

theorem lookup_eq_none {settings : List (Σ α, Setting α)} {key : String}
    (hkey : key ∉ settings.map (·.2.key)) :
    (settings.filterMap config.entry?).lookup key = none := by
  rw [List.lookup_eq_none_iff]
  intro entry hentry
  obtain ⟨setting, hsetting, hmade⟩ := List.mem_filterMap.mp hentry
  obtain ⟨a, -, rfl⟩ := Option.map_eq_some_iff.mp hmade
  rw [bne_iff_ne]
  rintro rfl
  exact hkey (List.mem_map_of_mem hsetting)

theorem lookup_entries {settings : List (Σ α, Setting α)}
    (hnodup : (settings.map (·.2.key)).Nodup) {setting : Setting α}
    (hmem : ⟨α, setting⟩ ∈ settings) :
    (settings.filterMap config.entry?).lookup setting.key =
      (config.get? setting).map setting.value := by
  induction settings with
  | nil => cases hmem
  | cons other settings ih =>
      rw [List.map_cons, List.nodup_cons] at hnodup
      rw [List.filterMap_cons, entry?]
      rcases List.mem_cons.mp hmem with rfl | hmem
      · cases config.get? setting with
        | none => exact config.lookup_eq_none hnodup.1
        | some a => exact List.lookup_cons_self
      · have hne : setting.key ≠ other.2.key := by
          intro heq
          exact hnodup.1 (heq ▸ List.mem_map_of_mem hmem)
        cases config.get? other.2 with
        | none => exact ih hnodup.2 hmem
        | some a =>
            rw [Option.map_some, List.lookup_cons, beq_false_of_ne hne]
            exact ih hnodup.2 hmem

def printedEntries : TomlEntries :=
  ["naming", "template", "rewrite"].map fun header =>
    (header, .table .header (config.sectionEntries header))

theorem parse?_toToml : parse? config.toToml = some config.printedEntries := by
  apply parse?_of_reads
  · rw [toList_toToml]
    simp
  rw [toList_toToml, ← List.append_nil (config.sectionLines "rewrite")]
  apply config.reads_section (.of_all (by decide) (by decide)) rfl rfl
  apply Reads.blank
  apply config.reads_section (.of_all (by decide) (by decide)) (State.close_table rfl) rfl
  apply Reads.blank
  apply config.reads_section (.of_all (by decide) (by decide)) (State.close_table rfl) rfl
  exact reads_nil (State.close_table rfl)

theorem found?_printedEntries (setting : Setting α) :
    setting.found? config.printedEntries = (config.get? setting).map setting.value := by
  have hsection : config.printedEntries.lookup setting.header =
      some (.table .header (config.sectionEntries setting.header)) := by
    cases setting <;> rfl
  rw [Setting.found?, hsection]
  exact config.lookup_entries (Setting.nodup_under _) setting.mem_under

/-- A configuration survives printing and reading. -/
theorem ofToml?_toToml : ofToml? config.toToml = some config := by
  rw [ofToml?, parse?_toToml]
  refine ofEntries?_eq_some_iff.mpr ⟨?_, ?_⟩
  · intro header hheader
    simp only [List.mem_cons, List.not_mem_nil, or_false] at hheader
    rcases hheader with rfl | rfl | rfl <;> rfl
  · intro α setting
    rw [Setting.given?, found?_printedEntries]
    cases config.get? setting with
    | none => rfl
    | some a => exact congrArg (Option.map some) (setting.read_value a)

/-- Every setting is made. -/
def IsTotal : Prop :=
  ∀ {α : Type} (setting : Setting α), (config.get? setting).isSome = true

variable {config}

theorem IsTotal.merge (h : config.IsTotal) (base : Config) : base.merge config = config := by
  refine ext_get? fun setting => ?_
  rw [get?_merge]
  exact Option.or_of_isSome (h setting)

theorem InForce.isTotal {environment : Environment} {user workspace : Config}
    (h : config.InForce environment user workspace) : config.IsTotal := by
  intro α setting
  obtain ⟨value, hvalue, -⟩ := h setting
  exact Option.isSome_of_eq_some hvalue

end Config

theorem toByteArray_utf8 (s : String) : s.toByteArray = ⟨(utf8 s).toArray⟩ := by
  have hencode : s.toByteArray = (utf8 s).toByteArray := by
    rw [← String.ofList_toList (s := s), String.toByteArray_ofList, List.utf8Encode, utf8,
      String.toList_ofList]
  rw [hencode]
  exact ByteArray.ext List.data_toByteArray

theorem decode?_utf8 (s : String) : (utf8 s).decode? = some s := by
  rw [Bytes.decode?, ← toByteArray_utf8, String.fromUTF8?, dif_pos s.isValidUTF8]
  rfl

namespace Sandbox

/-- A file that is the only one to make settings, or that lies over the others. -/
inductive Decides (sandbox : Sandbox) (environment : Environment) (path : String) : Prop
  | workspace {root : String} (hroot : sandbox.IsWorkspace environment.currentDirectory root)
      (hpath : path = Path.join root ".ngextract/config.toml")
      (huser : ∀ file, environment.userFile = some file → ¬ sandbox.Faulty file)
  | user {root : String} (hroot : sandbox.IsWorkspace environment.currentDirectory root)
      (hpath : environment.userFile = some path)
      (hworkspace : sandbox.HasLayer (some (Path.join root ".ngextract/config.toml")) {})

variable {sandbox : Sandbox} {environment : Environment} {config : Config} {path : String}

theorem hasLayer_of_printed
    (hread : sandbox.tree.read sandbox.directory path = .ok (utf8 config.toToml)) :
    sandbox.HasLayer (some path) config := by
  have htext : sandbox.document? path = some config.toToml := by
    rw [document?, hread, Except.toOption, Option.bind_some, decode?_utf8]
  have hexists : sandbox.leadsTo path = true := by
    rw [leadsTo]
    rw [FileTree.read] at hread
    split at hread
    · cases hread
    · next heq => rw [heq]; rfl
  exact .read hexists htext config.ofToml?_toToml

theorem loadConfig_of_decides {overrides : Config} (htotal : config.IsTotal)
    (hlayer : sandbox.HasLayer (some path) config) (hdecides : sandbox.Decides environment path)
    (henvironment : environment.layer = .ok overrides)
    (hoverrides : config.merge overrides = config) :
    ((loadConfig environment : StateM Sandbox _) sandbox).1 = .ok config := by
  obtain ⟨root, hroot, hloaded⟩ := sandbox.loadConfig_apply environment
  rw [hloaded, configIn, henvironment]
  cases hdecides with
  | workspace hroot' hpath huser =>
      obtain rfl := hroot.unique hroot'
      rcases hasLayer_or_faulty environment.userFile with ⟨user, hlower⟩ | ⟨file, hfile, hfaulty⟩
      · rw [fileLayer_of_hasLayer hlower, ← hpath, fileLayer_of_hasLayer hlayer]
        simp only
        rw [htotal.merge, hoverrides]
      · exact absurd hfaulty (huser file hfile)
  | user hroot' hpath hworkspace =>
      obtain rfl := hroot.unique hroot'
      rw [hpath, fileLayer_of_hasLayer hlayer, fileLayer_of_hasLayer hworkspace]
      simp only
      rw [htotal.merge, Config.merge_empty, hoverrides]

theorem runConfig_of_loaded
    (h : ((loadConfig environment : StateM Sandbox _) sandbox).1 = .ok config) :
    (runConfig environment : StateM Sandbox _) sandbox =
      (.ok .success, { sandbox with output := sandbox.output ++ utf8 config.toToml }) := by
  rw [runConfig, (readsOnly_loadConfig environment).bind_apply, h]
  rfl

end Sandbox

/-- A printed configuration is read back, and what the configuration command prints gives the same
configuration again where it is used as a configuration file. -/
theorem printedConfig_restores :
    (∀ config : Config, Config.ofToml? config.toToml = some config) ∧
    ∀ (environment : Environment) (sandbox : Sandbox) (config : Config),
      ((loadConfig environment : StateM Sandbox _) sandbox).1 = .ok config →
        (runConfig environment : StateM Sandbox _) sandbox =
          (.ok .success, { sandbox with output := sandbox.output ++ utf8 config.toToml }) ∧
        ∀ (other : Environment) (next : Sandbox) (path : String) (overrides : Config),
          next.tree.read next.directory path = .ok (utf8 config.toToml) →
          next.Decides other path → other.layer = .ok overrides →
          config.merge overrides = config →
            ((loadConfig other : StateM Sandbox _) next).1 = .ok config := by
  refine ⟨Config.ofToml?_toToml, fun environment sandbox config hloaded => ?_⟩
  refine ⟨Sandbox.runConfig_of_loaded hloaded, ?_⟩
  intro other next path overrides hread hdecides henvironment hoverrides
  obtain ⟨root, -, hconfig⟩ := sandbox.loadConfig_apply environment
  obtain ⟨user, workspace, -, -, hinForce⟩ := Sandbox.of_configIn_ok (hconfig.symm.trans hloaded)
  exact Sandbox.loadConfig_of_decides hinForce.isTotal (Sandbox.hasLayer_of_printed hread)
    hdecides henvironment hoverrides

theorem printedConfig_restores_quoted :
    let environment : Environment := { currentDirectory := "/w", rewire := some "no" }
    let holding (document : String) : Sandbox :=
      { tree :=
          [(["w"], .directory), (["w", ".ngextract"], .directory),
            (["w", ".ngextract", "config.toml"], .file (utf8 document))] }
    let before := holding "[naming]\nsuffix = '\"\\'\nfile_suffix = \"\\n'''\\\"\\r\"\n"
    let config := Config.builtin.merge
      { naming := { suffix := some "\"\\", fileSuffix := some "\n'''\"\r" }
        rewire := { enabled := some false } }
    ((loadConfig environment : StateM Sandbox _) before).1 = .ok config ∧
    Config.ofToml? config.toToml = some config ∧
    (runConfig environment : StateM Sandbox _) before =
      (.ok .success, { before with output := before.output ++ utf8 config.toToml }) ∧
    ((loadConfig environment : StateM Sandbox _) (holding config.toToml)).1 = .ok config := by
  intro environment holding before config
  have hloaded : ((loadConfig environment : StateM Sandbox _) before).1 = .ok config := by
    rw [loadConfig_eq]
    decide +kernel
  obtain ⟨hroundTrip, hprints⟩ := printedConfig_restores
  obtain ⟨hprinted, hrestores⟩ := hprints environment before config hloaded
  have hroot : (holding config.toToml).IsWorkspace "/w" "/w" := by
    have hnearest : ((ancestors 2 "/w").find? (holding config.toToml).holdsRepository).getD "/w" =
        "/w" := by
      decide +kernel
    have hfound := (holding config.toToml).isWorkspace_find? "/w"
    exact hnearest ▸ hfound
  have hread (document : String) : (holding document).tree.read [] "/w/.ngextract/config.toml" =
      .ok (utf8 document) := by
    rfl
  exact ⟨hloaded, hroundTrip config, hprinted,
    hrestores environment _ "/w/.ngextract/config.toml" { rewire := { enabled := some false } }
      (hread _) (.workspace hroot (by decide) nofun) (by decide +kernel)
      (by decide +kernel)⟩

end Extraction
