import Extraction.Proofs.Settings
import Extraction.Proofs.Workspace
/-!
The configuration in force, setting by setting. The environment decides the settings that it has a
variable for, each other setting is decided by the last file that makes it, and what no file makes
is built in. There is a configuration unless a file or a variable is at fault.
-/

namespace Extraction

/-! The built-in document. -/

theorem append_eq_ofList {s t : String} {cs ds : List Char} (hs : s = String.ofList cs)
    (ht : t = String.ofList ds) : s ++ t = String.ofList (cs ++ ds) := by
  rw [hs, ht, String.ofList_append]

/-- The document is taken apart at its lines first, so that no long literal is decoded. -/
theorem ofToml?_builtinDocument : Config.ofToml? builtinDocument = some Config.builtin := by
  apply Config.ofToml?_of_chars
  · unfold builtinDocument
    repeat' apply append_eq_ofList
    all_goals rfl
  · decide +kernel

section

variable {m : Type → Type} [Monad m] [FileSystem m]

theorem loadFrom_of_ofToml? {document : String} {base : Config}
    (hbase : Config.ofToml? document = some base) (environment : Environment) :
    (loadFrom document environment : m _) = loadOver base environment := by
  rw [loadFrom, hbase]

theorem loadConfig_eq (environment : Environment) :
    (loadConfig environment : m _) = loadOver Config.builtin environment :=
  loadFrom_of_ofToml? ofToml?_builtinDocument environment

end

namespace Environment

def parsed? (environment : Environment) : Setting α → Option (Except String α)
  | .policy => environment.suffixPolicy.map SuffixPolicy.parse
  | .enabled => environment.rewire.map parseFlag
  | .blockScan => environment.blockScan.map BlockScan.parse
  | _ => none

theorem override?_eq_ok_iff {parse : String → Except String α} {fault : String → ConfigError}
    {variable_ : Option String} {value : Option α} :
    override? parse fault variable_ = .ok value ↔ variable_.map parse = value.map .ok := by
  cases variable_ with
  | none => cases value <;> simp [override?]
  | some word =>
      cases hparse : parse word <;> cases value <;> simp [override?, hparse]

theorem override?_eq_error_iff {parse : String → Except String α}
    {fault : String → ConfigError} {variable_ : Option String} :
    (∃ err, override? parse fault variable_ = .error err) ↔
      ∃ word, variable_.map parse = some (.error word) := by
  cases variable_ with
  | none => simp [override?]
  | some word => cases hparse : parse word <;> simp [override?, hparse]

theorem layer_eq_ok_iff {environment : Environment} {overrides : Config} :
    environment.layer = .ok overrides ↔
      ∀ {α : Type} (setting : Setting α),
        environment.parsed? setting = (overrides.get? setting).map .ok := by
  constructor
  · intro h
    rw [layer] at h
    split at h
    · cases h
    next policy hpolicy =>
    split at h
    · cases h
    next enabled henabled =>
    split at h
    · cases h
    next blockScan hblockScan =>
    cases h
    intro α setting
    cases setting with
    | policy => exact override?_eq_ok_iff.mp hpolicy
    | enabled => exact override?_eq_ok_iff.mp henabled
    | blockScan => exact override?_eq_ok_iff.mp hblockScan
    | _ => rfl
  · intro h
    have hpolicy : override? SuffixPolicy.parse .unknownSuffixPolicy environment.suffixPolicy =
        .ok (overrides.get? .policy) := override?_eq_ok_iff.mpr (h .policy)
    have henabled : override? parseFlag .notABoolean environment.rewire =
        .ok (overrides.get? .enabled) := override?_eq_ok_iff.mpr (h .enabled)
    have hblockScan : override? BlockScan.parse .unknownBlockScan environment.blockScan =
        .ok (overrides.get? .blockScan) := override?_eq_ok_iff.mpr (h .blockScan)
    rw [layer, hpolicy, henabled, hblockScan]
    refine congrArg Except.ok (Config.ext_get? fun setting => ?_)
    cases setting with
    | policy | enabled | blockScan => rfl
    | _ => exact (Option.map_eq_none_iff.mp (h _).symm).symm

theorem layer_eq_error_iff {environment : Environment} :
    (∃ err, environment.layer = .error err) ↔
      ∃ (α : Type) (setting : Setting α) (word : String),
        environment.parsed? setting = some (.error word) := by
  constructor
  · rintro ⟨err, h⟩
    rw [layer] at h
    split at h
    · next hpolicy => exact ⟨_, .policy, override?_eq_error_iff.mp ⟨_, hpolicy⟩⟩
    split at h
    · next henabled => exact ⟨_, .enabled, override?_eq_error_iff.mp ⟨_, henabled⟩⟩
    split at h
    · next hblockScan => exact ⟨_, .blockScan, override?_eq_error_iff.mp ⟨_, hblockScan⟩⟩
    · cases h
  · rintro ⟨α, setting, word, hword⟩
    cases hlayer : environment.layer with
    | error err => exact ⟨err, rfl⟩
    | ok overrides =>
        have hok := (layer_eq_ok_iff.mp hlayer setting).symm.trans hword
        obtain ⟨value, -, hvalue⟩ := Option.map_eq_some_iff.mp hok
        cases hvalue

end Environment

namespace Sandbox

variable (sandbox : Sandbox)

def document? (path : String) : Option String :=
  (sandbox.tree.read sandbox.directory path).toOption.bind Bytes.decode?

/-- The layer of a file; nothing is set where there is no file. -/
inductive HasLayer : Option String → Config → Prop
  | unnamed : HasLayer none {}
  | absent {path : String} (hexists : sandbox.leadsTo path = false) : HasLayer (some path) {}
  | read {path text : String} {layer : Config} (hexists : sandbox.leadsTo path = true)
      (htext : sandbox.document? path = some text) (hlayer : Config.ofToml? text = some layer) :
      HasLayer (some path) layer

/-- A file that exists and gives no layer. -/
inductive Faulty (path : String) : Prop
  | unreadable (hexists : sandbox.leadsTo path = true) (htext : sandbox.document? path = none)
  | invalid {text : String} (hexists : sandbox.leadsTo path = true)
      (htext : sandbox.document? path = some text) (hlayer : Config.ofToml? text = none)

theorem readText_apply (path : String) :
    ((readText path : StateM Sandbox _) sandbox).1 =
      match sandbox.tree.read sandbox.directory path with
      | .error err => .error err
      | .ok bytes => if bytes.decode?.isSome then .ok bytes else .error .invalidUtf8 := by
  have hbytes : ((FileSystem.readBytes path : StateM Sandbox _) sandbox).1 =
      sandbox.tree.read sandbox.directory path := rfl
  rw [readText, (readsOnly_readBytes path).bind_apply, hbytes]
  cases sandbox.tree.read sandbox.directory path with
  | error err => rfl
  | ok bytes => rfl

def fileLayer : Option String → Except ConfigError Config
  | none => .ok {}
  | some path =>
      if sandbox.leadsTo path then ((readLayer path : StateM Sandbox _) sandbox).1 else .ok {}

variable {sandbox}

theorem readLayer_of_document? {path text : String} (htext : sandbox.document? path = some text) :
    ((readLayer path : StateM Sandbox _) sandbox).1 =
      match Config.ofToml? text with
      | none => .error (.invalid path)
      | some layer => .ok layer := by
  rw [readLayer, (readsOnly_readText path).bind_apply, readText_apply]
  obtain ⟨bytes, hbytes, hdecode⟩ := Option.bind_eq_some_iff.mp htext
  cases hread : sandbox.tree.read sandbox.directory path with
  | error err =>
      rw [hread] at hbytes
      cases hbytes
  | ok content =>
      rw [hread] at hbytes
      obtain rfl := Option.some.inj hbytes
      simp only [hdecode, Option.isSome_some, if_true, Option.bind_some]
      cases Config.ofToml? text with
      | none => rfl
      | some layer => rfl

theorem readLayer_of_unreadable {path : String} (htext : sandbox.document? path = none) :
    ∃ cause, ((readLayer path : StateM Sandbox _) sandbox).1 = .error (.unreadable path cause) := by
  rw [readLayer, (readsOnly_readText path).bind_apply, readText_apply]
  rw [document?] at htext
  cases hread : sandbox.tree.read sandbox.directory path with
  | error err => exact ⟨err, rfl⟩
  | ok content =>
      rw [hread] at htext
      have hdecode : content.decode? = none := htext
      simp only [hdecode, Option.isSome_none]
      exact ⟨_, rfl⟩

theorem fileLayer_of_hasLayer {file : Option String} {layer : Config}
    (h : sandbox.HasLayer file layer) : sandbox.fileLayer file = .ok layer := by
  cases h with
  | unnamed => rfl
  | absent hexists => rw [fileLayer, hexists, if_neg Bool.false_ne_true]
  | read hexists htext hlayer =>
      rw [fileLayer, hexists, if_pos rfl, readLayer_of_document? htext, hlayer]

theorem fileLayer_of_faulty {path : String} (h : sandbox.Faulty path) :
    ∃ err, sandbox.fileLayer (some path) = .error err := by
  cases h with
  | unreadable hexists htext =>
      rw [fileLayer, hexists, if_pos rfl]
      obtain ⟨cause, hread⟩ := readLayer_of_unreadable htext
      exact ⟨_, hread⟩
  | invalid hexists htext hlayer =>
      rw [fileLayer, hexists, if_pos rfl, readLayer_of_document? htext, hlayer]
      exact ⟨_, rfl⟩

/-- A file has a layer or is faulty. -/
theorem hasLayer_or_faulty (file : Option String) :
    (∃ layer, sandbox.HasLayer file layer) ∨ ∃ path, file = some path ∧ sandbox.Faulty path := by
  cases file with
  | none => exact .inl ⟨_, .unnamed⟩
  | some path =>
      cases hexists : sandbox.leadsTo path with
      | false => exact .inl ⟨_, .absent hexists⟩
      | true =>
          cases htext : sandbox.document? path with
          | none => exact .inr ⟨path, rfl, .unreadable hexists htext⟩
          | some text =>
              cases hlayer : Config.ofToml? text with
              | none => exact .inr ⟨path, rfl, .invalid hexists htext hlayer⟩
              | some layer => exact .inl ⟨layer, .read hexists htext hlayer⟩

theorem fileLayer_eq_ok_iff {file : Option String} {layer : Config} :
    sandbox.fileLayer file = .ok layer ↔ sandbox.HasLayer file layer := by
  constructor
  · intro h
    rcases hasLayer_or_faulty file with ⟨layer', hlayer⟩ | ⟨path, rfl, hfaulty⟩
    · cases h.symm.trans (fileLayer_of_hasLayer hlayer)
      exact hlayer
    · obtain ⟨err, herr⟩ := fileLayer_of_faulty hfaulty
      cases h.symm.trans herr
  · exact fileLayer_of_hasLayer

theorem fileLayer_eq_error_iff {file : Option String} :
    (∃ err, sandbox.fileLayer file = .error err) ↔
      ∃ path, file = some path ∧ sandbox.Faulty path := by
  constructor
  · rintro ⟨err, h⟩
    rcases hasLayer_or_faulty file with ⟨layer, hlayer⟩ | hfaulty
    · cases h.symm.trans (fileLayer_of_hasLayer hlayer)
    · exact hfaulty
  · rintro ⟨path, rfl, hfaulty⟩
    exact fileLayer_of_faulty hfaulty

theorem addLayers_cons_apply (config : Config) (path : String) (paths : List String) :
    ((addLayers config (path :: paths) : StateM Sandbox _) sandbox).1 =
      match sandbox.fileLayer (some path) with
      | .error err => .error err
      | .ok layer => ((addLayers (config.merge layer) paths : StateM Sandbox _) sandbox).1 := by
  rw [addLayers, (readsOnly_pathExists path).bind_apply, pathExists_apply, fileLayer]
  cases hexists : sandbox.leadsTo path with
  | false =>
      simp only [Bool.false_eq_true, if_false, Config.merge_empty]
  | true =>
      simp only [if_true, (readsOnly_readLayer path).bind_apply]
      cases ((readLayer path : StateM Sandbox _) sandbox).1 with
      | error err => rfl
      | ok layer => rfl

theorem addLayers_apply (config : Config) (user : Option String) (workspace : String) :
    ((addLayers config (user.toList ++ [workspace]) : StateM Sandbox _) sandbox).1 =
      match sandbox.fileLayer user with
      | .error err => .error err
      | .ok lower =>
          match sandbox.fileLayer (some workspace) with
          | .error err => .error err
          | .ok upper => .ok ((config.merge lower).merge upper) := by
  have hworkspace : ∀ base : Config,
      ((addLayers base [workspace] : StateM Sandbox _) sandbox).1 =
        match sandbox.fileLayer (some workspace) with
        | .error err => .error err
        | .ok upper => .ok (base.merge upper) := by
    intro base
    rw [addLayers_cons_apply]
    rfl
  cases user with
  | none =>
      simp only [fileLayer, Option.toList_none, List.nil_append, Config.merge_empty]
      exact hworkspace config
  | some user =>
      rw [Option.toList_some, List.singleton_append, addLayers_cons_apply]
      simp only [hworkspace]

/-- What the files and the environment come to in a workspace. -/
def configIn (sandbox : Sandbox) (environment : Environment) (root : String) :
    Except ConfigError Config :=
  match sandbox.fileLayer environment.userFile with
  | .error err => .error err
  | .ok user =>
      match sandbox.fileLayer (some (Path.join root ".ngextract/config.toml")) with
      | .error err => .error err
      | .ok workspace =>
          match environment.layer with
          | .error err => .error err
          | .ok overrides => .ok (((Config.builtin.merge user).merge workspace).merge overrides)

theorem loadConfig_apply (environment : Environment) :
    ∃ root, sandbox.IsWorkspace environment.currentDirectory root ∧
      ((loadConfig environment : StateM Sandbox _) sandbox).1 =
        sandbox.configIn environment root := by
  obtain ⟨root, hroot, hfile⟩ := sandbox.workspaceFile_apply environment
  refine ⟨root, hroot, ?_⟩
  rw [loadConfig_eq, loadOver, (readsOnly_workspaceFile environment).bind_apply, hfile,
    (readsOnly_addLayers _ _).bind_apply, addLayers_apply, configIn]
  cases sandbox.fileLayer environment.userFile with
  | error err => rfl
  | ok user =>
      cases sandbox.fileLayer (some (Path.join root ".ngextract/config.toml")) with
      | error err => rfl
      | ok workspace =>
          cases environment.layer with
          | error err => rfl
          | ok overrides => rfl

end Sandbox

theorem Sandbox.IsWorkspace.components_prefix {sandbox : Sandbox} {current root : String}
    (h : sandbox.IsWorkspace current root) :
    Path.components root <+: Path.components current := by
  cases h with
  | repository habove => exact Path.components_prefix_of_above? habove
  | current => exact List.prefix_rfl

/-- What the environment says of a setting comes first, then what the workspace's file says, then
what the user's file says; what none of them says is built in. -/
def Config.InForce (config : Config) (environment : Environment) (user workspace : Config) :
    Prop :=
  ∀ {α : Type} (setting : Setting α), ∃ value, config.get? setting = some value ∧
    match environment.parsed? setting with
    | some parsed => parsed = .ok value
    | none => value = ((workspace.get? setting).or (user.get? setting)).getD setting.builtin

theorem Config.inForce_merge {environment : Environment} {overrides : Config}
    (hoverrides : environment.layer = .ok overrides) (user workspace : Config) :
    (((builtin.merge user).merge workspace).merge overrides).InForce environment user
      workspace := by
  intro α setting
  rw [Environment.layer_eq_ok_iff.mp hoverrides setting, get?_merge, get?_merge, get?_merge,
    get?_builtin, ← @Option.or_assoc _ (workspace.get? setting)]
  cases overrides.get? setting with
  | some value => exact ⟨value, rfl, rfl⟩
  | none =>
      refine ⟨_, ?_, rfl⟩
      rw [Option.none_or, Option.or_some]

namespace Sandbox

variable {sandbox : Sandbox} {environment : Environment} {root : String}

theorem of_configIn_ok {config : Config} (h : sandbox.configIn environment root = .ok config) :
    ∃ user workspace, sandbox.HasLayer environment.userFile user ∧
      sandbox.HasLayer (some (Path.join root ".ngextract/config.toml")) workspace ∧
      config.InForce environment user workspace := by
  rw [configIn] at h
  split at h
  · cases h
  next user huser =>
  split at h
  · cases h
  next workspace hworkspace =>
  split at h
  · cases h
  next overrides hoverrides =>
  cases h
  exact ⟨user, workspace, fileLayer_eq_ok_iff.mp huser, fileLayer_eq_ok_iff.mp hworkspace,
    Config.inForce_merge hoverrides user workspace⟩

theorem configIn_eq_error_iff :
    (∃ err, sandbox.configIn environment root = .error err) ↔
      (∃ path, environment.userFile = some path ∧ sandbox.Faulty path) ∨
      sandbox.Faulty (Path.join root ".ngextract/config.toml") ∨
      ∃ (α : Type) (setting : Setting α) (word : String),
        environment.parsed? setting = some (.error word) := by
  have hworkspace : sandbox.Faulty (Path.join root ".ngextract/config.toml") ↔
      ∃ err, sandbox.fileLayer (some (Path.join root ".ngextract/config.toml")) = .error err := by
    simp [fileLayer_eq_error_iff]
  rw [← fileLayer_eq_error_iff, hworkspace, ← Environment.layer_eq_error_iff, configIn]
  cases sandbox.fileLayer environment.userFile with
  | error err => simp
  | ok user =>
      cases sandbox.fileLayer (some (Path.join root ".ngextract/config.toml")) with
      | error err => simp
      | ok workspace =>
          cases environment.layer with
          | error err => simp
          | ok overrides => simp

end Sandbox

theorem Setting.get?_merge_of_not_found {text : String} {entries : TomlEntries} {layer : Config}
    (hentries : TomlDocument.parse? text = some entries)
    (hlayer : Config.ofToml? text = some layer) (base : Config) {setting : Setting α}
    (hfound : setting.found? entries = none) :
    (base.merge layer).get? setting = base.get? setting := by
  rw [Config.ofToml?, hentries] at hlayer
  have hgiven := (Config.ofEntries?_eq_some_iff.mp hlayer).2 setting
  rw [given?, hfound] at hgiven
  rw [Config.get?_merge, ← Option.some.inj hgiven, Option.none_or]

/-- Layers decide setting by setting, the last one that makes a setting wins, the built-in
document makes all of them, and the layers of the configuration in force are those of the user's
file, of the workspace and of the environment over it. -/
theorem loadConfig_layered (environment : Environment) (sandbox : Sandbox) :
    (∀ (grouping : Grouping) {α : Type} (setting : Setting α),
      grouping.merged.get? setting = Config.lastSet? grouping.layers setting) ∧
    (∀ (layers : List Config) {α : Type} (setting : Setting α),
      (layers.foldl Config.merge {}).get? setting = Config.lastSet? layers setting) ∧
    (∀ (text : String) (entries : TomlEntries) (layer : Config),
      TomlDocument.parse? text = some entries → Config.ofToml? text = some layer →
        ∀ (base : Config) {α : Type} (setting : Setting α), setting.found? entries = none →
          (base.merge layer).get? setting = base.get? setting) ∧
    (∃ base, Config.ofToml? builtinDocument = some base ∧
      ∀ {α : Type} (setting : Setting α), base.get? setting = some setting.builtin) ∧
    ∃ root, sandbox.IsWorkspace environment.currentDirectory root ∧
      Path.components root <+: Path.components environment.currentDirectory ∧
      (∀ config, ((loadConfig environment : StateM Sandbox _) sandbox).1 = .ok config →
        ∃ user workspace, sandbox.HasLayer environment.userFile user ∧
          sandbox.HasLayer (some (Path.join root ".ngextract/config.toml")) workspace ∧
          config.InForce environment user workspace) ∧
      ((∃ err, ((loadConfig environment : StateM Sandbox _) sandbox).1 = .error err) ↔
        (∃ path, environment.userFile = some path ∧ sandbox.Faulty path) ∨
        sandbox.Faulty (Path.join root ".ngextract/config.toml") ∨
        ∃ (α : Type) (setting : Setting α) (word : String),
          environment.parsed? setting = some (.error word)) := by
  refine ⟨fun grouping _ => grouping.get?_merged, fun layers _ setting => ?_,
    fun text entries layer hentries hlayer base _ setting =>
      setting.get?_merge_of_not_found hentries hlayer base,
    ⟨Config.builtin, ofToml?_builtinDocument, Config.get?_builtin⟩, ?_⟩
  · rw [Config.get?_foldl_merge, Config.get?_empty, Option.or_none]
  obtain ⟨root, hroot, hloaded⟩ := sandbox.loadConfig_apply environment
  rw [hloaded]
  exact ⟨root, hroot, hroot.components_prefix, fun config => Sandbox.of_configIn_ok,
    Sandbox.configIn_eq_error_iff⟩

theorem loadConfig_layered_overridden :
    let environment : Environment :=
      { currentDirectory := "/w/sub", configDirectory := some "/home", rewire := some " No " }
    let misspelled : Environment := { environment with rewire := some "never" }
    let sandbox : Sandbox :=
      { tree :=
          [(["home"], .directory), (["home", "ngextract"], .directory),
            (["home", "ngextract", "config.toml"],
              .file (utf8 "[naming]\nsuffix = 'View'\nselector_prefix = 'lib'\n")),
            (["w"], .directory), (["w", ".git"], .directory), (["w", "sub"], .directory),
            (["w", ".ngextract"], .directory),
            (["w", ".ngextract", "config.toml"], .file (utf8 "[naming]\nsuffix = 'Widget'\n"))] }
    let config := Config.builtin.merge
      { naming := { suffix := some "Widget", selectorPrefix := some "lib" }
        rewire := { enabled := some false } }
    ((loadConfig environment : StateM Sandbox _) sandbox).1 = .ok config ∧
    (∃ root user workspace, sandbox.IsWorkspace "/w/sub" root ∧
      sandbox.HasLayer (some "/home/ngextract/config.toml") user ∧
      sandbox.HasLayer (some (Path.join root ".ngextract/config.toml")) workspace ∧
      config.InForce environment user workspace) ∧
    ∃ err, ((loadConfig misspelled : StateM Sandbox _) sandbox).1 = .error err := by
  intro environment misspelled sandbox config
  have hloaded : ((loadConfig environment : StateM Sandbox _) sandbox).1 = .ok config := by
    rw [loadConfig_eq]
    decide +kernel
  obtain ⟨-, -, -, -, root, hroot, -, hinForce, -⟩ := loadConfig_layered environment sandbox
  obtain ⟨user, workspace, huser, hworkspace, hconfig⟩ := hinForce config hloaded
  obtain ⟨-, -, -, -, _, -, -, -, hfails⟩ := loadConfig_layered misspelled sandbox
  exact ⟨hloaded, ⟨root, user, workspace, hroot, huser, hworkspace, hconfig⟩,
    hfails.mpr (.inr (.inr ⟨Bool, .enabled, "never", by decide⟩))⟩

end Extraction
