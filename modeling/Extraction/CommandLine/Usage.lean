import Extraction.CommandLine.Arguments
import Extraction.CommandLine.Run
/-!
What the program says about its command line and about a command that could not be carried out.
-/

namespace Extraction

def usage : String :=
  "Usage: ngextract [-v] extract FILE [--bytes START:END | --lines FIRST[-LAST]] [-n NAME]\n" ++
  "           [--suffix-policy always|if-missing] [--tag-style paired|self-closing]\n" ++
  "           [--scan first-close|balanced] [--no-rewire] [--dry-run]\n" ++
  "       ngextract [-v] config\n"

def versionText : String :=
  "ngextract 0.1.0\n"

def UsageError.message : UsageError → String
  | .unknownArgument => "unknown argument"
  | .invalidValue => "invalid or missing value"
  | .invalidRange cause => cause.message
  | .argumentConflict => "an argument is repeated or excluded by another"
  | .tooManyValues => "a flag takes no value"
  | .missingFile => "a file is missing"
  | .invalidSubcommand => "unknown command"
  | .missingSubcommand => "a command is missing"
  | .nothingGiven => "nothing to do"
  | .helpRequested => usage
  | .versionRequested => versionText

def UsageError.isAnswer : UsageError → Bool
  | .helpRequested => true
  | .versionRequested => true
  | _ => false

/-- The line of a cause; several causes are numbered. -/
def causeLine (several : Bool) (cause : String × Nat) : String :=
  (if several then "    " ++ toString cause.2 ++ ": " else "    ") ++ cause.1 ++ "\n"

def RunError.report (err : RunError) : String :=
  match err.contexts ++ [err.cause] with
  | [] => ""
  | step :: causes =>
      "Error: " ++ step ++ "\n\nCaused by:\n" ++
        String.join (causes.zipIdx.map (causeLine (1 < causes.length)))

end Extraction
