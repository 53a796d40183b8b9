import Extraction.Config.Toml
import Extraction.FileSystem
/-!
The configuration in force: the built-in document, the user's file, the workspace's file and the
environment, each over the ones before it.
-/

namespace Extraction

/-- The document of the built-in settings. -/
@[irreducible]
def builtinDocument : String :=
  "# Built-in defaults. User (~/.config/ngextract/config.toml) and workspace\n" ++
    "# (.ngextract/config.toml) files are layered on top, then NGEXTRACT_* env vars.\n" ++
    "\n" ++
    "[naming]\n" ++
    "suffix = \"Component\"\n" ++
    "# \"always\" or \"if-missing\"\n" ++
    "suffix_policy = \"always\"\n" ++
    "selector_prefix = \"app\"\n" ++
    "file_suffix = \".component\"\n" ++
    "# \"paired\" (<app-x></app-x>) or \"self-closing\" (<app-x />)\n" ++
    "tag_style = \"paired\"\n" ++
    "\n" ++
    "[template]\n" ++
    "import_source = \"@angular/core\"\n" ++
    "# Built-in template name or path to a minijinja template file.\n" ++
    "name = \"angular_component\"\n" ++
    "file_extension = \"ts\"\n" ++
    "\n" ++
    "[rewrite]\n" ++
    "enabled = true\n" ++
    "# \"first-close\" or \"balanced\"\n" ++
    "block_scan = \"first-close\"\n" ++
    "keep_import_without_block = true\n"

structure Environment where
  currentDirectory : String
  /-- Where the user's configuration files are. -/
  configDirectory : Option String := none
  suffixPolicy : Option String := none
  rewire : Option String := none
  blockScan : Option String := none
deriving DecidableEq, Repr

inductive ConfigError
  | builtinInvalid
  | unreadable (path : String) (cause : IoError)
  | invalid (path : String)
  | unknownSuffixPolicy (word : String)
  | notABoolean (word : String)
  | unknownBlockScan (word : String)
deriving DecidableEq, Repr

def unknownSuffixPolicyMessage (word : String) : String :=
  "unknown suffix policy '" ++ word ++ "'"

def unknownTagStyleMessage (word : String) : String :=
  "unknown tag style '" ++ word ++ "'"

def unknownBlockScanMessage (word : String) : String :=
  "unknown block scan strategy '" ++ word ++ "'"

namespace ConfigError

def contexts : ConfigError → List String
  | .builtinInvalid => ["failed to parse TOML config"]
  | .unreadable path _ => ["failed to read config file: " ++ path]
  | .invalid path => ["invalid config file: " ++ path, "failed to parse TOML config"]
  | .unknownSuffixPolicy _ => ["invalid NGEXTRACT_SUFFIX_POLICY"]
  | .notABoolean _ => ["invalid NGEXTRACT_REWIRE"]
  | .unknownBlockScan _ => ["invalid NGEXTRACT_BLOCK_SCAN"]

def cause : ConfigError → String
  | .unreadable _ cause => cause.message
  | .builtinInvalid | .invalid _ => "not a configuration in TOML"
  | .unknownSuffixPolicy word => unknownSuffixPolicyMessage word
  | .notABoolean word => "expected a boolean, got '" ++ word ++ "'"
  | .unknownBlockScan word => unknownBlockScanMessage word

end ConfigError

/-- Reads a flag leniently; an unknown word is handed back as it was compared. -/
def parseFlag (value : String) : Except String Bool :=
  match normalWord value with
  | "1" | "true" | "yes" | "on" => .ok true
  | "0" | "false" | "no" | "off" => .ok false
  | other => .error other

namespace Environment

def override? (parse : String → Except String α) (fault : String → ConfigError) :
    Option String → Except ConfigError (Option α)
  | none => .ok none
  | some value =>
      match parse value with
      | .ok value => .ok (some value)
      | .error word => .error (fault word)

def layer (environment : Environment) : Except ConfigError Config :=
  match override? SuffixPolicy.parse .unknownSuffixPolicy environment.suffixPolicy with
  | .error err => .error err
  | .ok policy =>
      match override? parseFlag .notABoolean environment.rewire with
      | .error err => .error err
      | .ok enabled =>
          match override? BlockScan.parse .unknownBlockScan environment.blockScan with
          | .error err => .error err
          | .ok blockScan =>
              .ok { naming := { policy }, rewire := { enabled, blockScan } }

def userFile (environment : Environment) : Option String :=
  environment.configDirectory.map fun directory =>
    Path.join directory "ngextract/config.toml"

end Environment

def ancestors : Nat → String → List String
  | 0, path => [path]
  | fuel + 1, path =>
      match Path.parent? path with
      | none => [path]
      | some parent => path :: ancestors fuel parent

variable {m : Type → Type} [Monad m] [FileSystem m]

/-- The innermost of some directories that holds a repository, or else the fallback. -/
def findWorkspace (fallback : String) : List String → m String
  | [] => return fallback
  | directory :: directories => do
      if ← FileSystem.pathExists (Path.join directory ".git") then return directory
      else findWorkspace fallback directories

/-- The workspace's configuration file: at the repository that the current directory is in, or
in the current directory. -/
def workspaceFile (environment : Environment) : m String := do
  let current := environment.currentDirectory
  let root ← findWorkspace current (ancestors current.length current)
  return Path.join root ".ngextract/config.toml"

def readLayer (path : String) : m (Except ConfigError Config) := do
  match ← readText path with
  | .error cause => return .error (.unreadable path cause)
  | .ok text =>
      match text.decode?.bind Config.ofToml? with
      | none => return .error (.invalid path)
      | some config => return .ok config

def addLayers (config : Config) : List String → m (Except ConfigError Config)
  | [] => return .ok config
  | path :: paths => do
      if ← FileSystem.pathExists path then
        match ← readLayer path with
        | .error err => return .error err
        | .ok layer => addLayers (config.merge layer) paths
      else addLayers config paths

def loadOver (base : Config) (environment : Environment) : m (Except ConfigError Config) := do
  let workspace ← workspaceFile environment
  match ← addLayers base (environment.userFile.toList ++ [workspace]) with
  | .error err => return .error err
  | .ok config =>
      match environment.layer with
      | .error err => return .error err
      | .ok layer => return .ok (config.merge layer)

/-- The layers over a document of built-in settings. -/
def loadFrom (document : String) (environment : Environment) : m (Except ConfigError Config) :=
  match Config.ofToml? document with
  | none => return .error .builtinInvalid
  | some base => loadOver base environment

def loadConfig (environment : Environment) : m (Except ConfigError Config) :=
  loadFrom builtinDocument environment

end Extraction
