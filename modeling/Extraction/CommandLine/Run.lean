import Extraction.CommandLine.Arguments
import Extraction.Config.Layers
import Extraction.Host.File
import Extraction.Plan.Json
/-!
Carrying out a command line. What concerns the selection or the extraction itself is told to the
user and ends with a failing status; what keeps the command from starting or from being completed
is handed back as an error.
-/

namespace Extraction

inductive ExitStatus
  | success
  | failure
deriving DecidableEq, Repr

def ExitStatus.code : ExitStatus → Nat
  | .success => 0
  | .failure => 1

inductive RunError
  | config (cause : ConfigError)
  | sourceUnreadable (path : String) (cause : IoError)
  /-- No name was given and the user cannot be asked. -/
  | nameUnanswered (reason : String)
  | sourceUnwritable (path : String) (cause : IoError)
deriving DecidableEq, Repr

namespace RunError

def contexts : RunError → List String
  | .config cause => cause.contexts
  | .sourceUnreadable path _ => ["failed to read source file " ++ path]
  | .nameUnanswered reason => ["failed to read component name", "IO error: " ++ reason]
  | .sourceUnwritable path _ => ["failed to write source file " ++ path]

def cause : RunError → String
  | .config cause => cause.cause
  | .sourceUnreadable _ cause => cause.message
  | .nameUnanswered reason => reason
  | .sourceUnwritable _ cause => cause.message

end RunError

inductive SelectionError
  | linesOutside (lines : LineRange) (path : String) (lineCount : Nat)
  | invalid (cause : ExtractError)
deriving DecidableEq, Repr

def SelectionError.message : SelectionError → String
  | .linesOutside lines path lineCount =>
      "lines " ++ toString lines.first ++ "-" ++ toString lines.last ++ " are outside " ++ path ++
        " (" ++ toString lineCount ++ " lines)"
  | .invalid cause => cause.message

namespace ExtractArguments

/-- The options with those of the command line over them. -/
def override (arguments : ExtractArguments) (options : ExtractOptions) : ExtractOptions :=
  { options with
    naming :=
      { options.naming with
        policy := arguments.suffixPolicy.getD options.naming.policy
        tagStyle := arguments.tagStyle.getD options.naming.tagStyle }
    blockScan := arguments.scan.getD options.blockScan
    rewireEnclosing := options.rewireEnclosing && !arguments.noRewire }

def selectSpan (buffer : Bytes) (span : Span) : Except SelectionError (Option Selection) :=
  match Selection.ofBuffer buffer span with
  | .ok selection => .ok (some selection)
  | .error cause => .error (.invalid cause)

def selection (arguments : ExtractArguments) (buffer : Bytes) :
    Except SelectionError (Option Selection) :=
  match arguments.bytes, arguments.lines with
  | some span, _ => selectSpan buffer span
  | none, some lines =>
      match lineSpan buffer lines with
      | some span => selectSpan buffer span
      | none => .error (.linesOutside lines arguments.file buffer.lineCount)
  | none, none => .ok none

end ExtractArguments

variable {m : Type → Type} [Monad m] [FileSystem m] [Console m]

def namePrompt : String :=
  "Enter component name (in kebab-case, e.g. my-new-component)"

/-- The name that was given, or else the user's answer; none if that is blank. -/
def chooseName (given : Option String) : m (Except RunError (Option String)) := do
  match given with
  | some name => return .ok (some name)
  | none =>
      match ← Console.ask namePrompt with
      | .error reason => return .error (.nameUnanswered reason)
      | .ok answer => return .ok (if trimmed answer = "" then none else some answer)

def reportFault (message : String) : m ExitStatus := do
  printNotification (.error message)
  return .failure

/-- Tells the user why an extraction ended early, unless the user ended it. -/
def reportError (err : ExtractError) : m ExitStatus :=
  if err.isSilent then return .success else reportFault err.message

def showPlan (extractor : Extractor) (request : ExtractRequest) : m ExitStatus := do
  match extractor.plan request with
  | .error err => reportError err
  | .ok plan =>
      Console.print (plan.toJson.render 0 ++ utf8 "\n")
      return .success

/-- Carries out an extraction from a loaded file and saves the file. -/
def performExtraction (extractor : Extractor) (request : ExtractRequest) (host : FileHost) :
    m (Except RunError ExitStatus) := do
  let (result, host) ← (extractor.run request : StateT FileHost m _) host
  match result with
  | .error err => return .ok (if err.isSilent then .success else .failure)
  | .ok _ =>
      match ← host.save with
      | .error cause => return .error (.sourceUnwritable host.path cause)
      | .ok () => return .ok .success

def extractFrom (arguments : ExtractArguments) (extractor : Extractor) (host : FileHost) :
    m (Except RunError ExitStatus) := do
  match arguments.selection host.buffer with
  | .error err => return .ok (← reportFault err.message)
  | .ok selection =>
      match Selection.validate host.buffer selection with
      | .error err => return .ok (← reportError err)
      | .ok _ =>
          match ← chooseName arguments.name with
          | .error err => return .error err
          | .ok identifier =>
              let request : ExtractRequest :=
                { enclosingPath := arguments.file
                  buffer := host.buffer
                  selection
                  identifier }
              if arguments.dryRun then return .ok (← showPlan extractor request)
              else performExtraction extractor request host

def runExtract (environment : Environment) (arguments : ExtractArguments) :
    m (Except RunError ExitStatus) := do
  match ← loadConfig environment with
  | .error cause => return .error (.config cause)
  | .ok config =>
      let options := arguments.override config.options
      match ← FileHost.load arguments.file with
      | .error cause => return .error (.sourceUnreadable arguments.file cause)
      | .ok host =>
          let template ← findTemplate options.synthesis.template
          extractFrom arguments { options, templateFile := fun _ => template } host

def runConfig (environment : Environment) : m (Except RunError ExitStatus) := do
  match ← loadConfig environment with
  | .error cause => return .error (.config cause)
  | .ok config =>
      Console.print (utf8 config.toToml)
      return .ok .success

def CommandLine.run (environment : Environment) (commandLine : CommandLine) :
    m (Except RunError ExitStatus) :=
  match commandLine.command with
  | .extract arguments => runExtract environment arguments
  | .config => runConfig environment

end Extraction
