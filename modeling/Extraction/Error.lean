import Extraction.Text.Bytes
/-!
What can go wrong, as causes; the wording of each cause is its `message`.
-/

namespace Extraction

inductive IoError
  | notFound
  | alreadyExists
  | notADirectory
  | isADirectory
  | nameTooLong
  | invalidUtf8
  | nulInPath
  /-- A host that keeps its files in memory has one at this path. -/
  | pathTaken (path : String)
  /-- A host was told to refuse writes with an error of this kind. -/
  | rejected (kind : String)
  | other (text : String)
deriving DecidableEq, Repr

def IoError.message : IoError → String
  | .notFound => "No such file or directory (os error 2)"
  | .alreadyExists => "File exists (os error 17)"
  | .notADirectory => "Not a directory (os error 20)"
  | .isADirectory => "Is a directory (os error 21)"
  | .nameTooLong => "File name too long (os error 36)"
  | .invalidUtf8 => "stream did not contain valid UTF-8"
  | .nulInPath => "file name contained an unexpected NUL byte"
  | .pathTaken path => path ++ " already exists"
  | .rejected _ => "write rejected"
  | .other text => text

inductive EditError
  | invalidRange (span : Span) (length : Nat)
  | refused (text : String)
deriving DecidableEq, Repr

def Span.render (span : Span) : String :=
  toString span.start ++ ".." ++ toString span.stop

def EditError.message : EditError → String
  | .invalidRange span length =>
      "range " ++ span.render ++ " is not valid for a buffer of " ++ toString length ++ " bytes"
  | .refused text => text

/-- What a template engine reports. -/
inductive TemplateFault
  | malformed
  | missing (name : String)
  | undefinedValue
  | unknownFilter (name : String)
deriving DecidableEq, Repr

def TemplateFault.message : TemplateFault → String
  | .malformed => "syntax error"
  | .missing name => "template not found: template \"" ++ name ++ "\" does not exist"
  | .undefinedValue => "undefined value"
  | .unknownFilter name => "unknown filter: filter " ++ name ++ " is unknown"

inductive TemplateError
  | unregistered (fault : TemplateFault)
  | notFound (name : String)
  | unreadable (name : String) (cause : IoError)
  | invalid (name : String) (fault : TemplateFault)
  | failed (name : String) (fault : TemplateFault)
deriving DecidableEq, Repr

def TemplateError.message : TemplateError → String
  | .unregistered fault => "failed to register default template: " ++ fault.message
  | .notFound name => "template '" ++ name ++ "' not found (built-in or filesystem)"
  | .unreadable name cause => "failed to load template from " ++ name ++ ": " ++ cause.message
  | .invalid name fault => "invalid template '" ++ name ++ "': " ++ fault.message
  | .failed name fault => "failed to render '" ++ name ++ "': " ++ fault.message

inductive ExtractError
  | noSelection
  /-- The name is missing or blank: the user backed out. -/
  | emptyIdentifier
  | invalidSelection (span : Span) (length : Nat)
  | writeFailure (path : String) (cause : IoError)
  | bufferEdit (cause : EditError)
  | template (cause : TemplateError)
deriving DecidableEq, Repr

namespace ExtractError

def message : ExtractError → String
  | .noSelection => "No text selected"
  | .emptyIdentifier => "no component name given"
  | .invalidSelection span length =>
      "invalid selection " ++ span.render ++ " for a buffer of " ++ toString length ++ " bytes"
  | .writeFailure _ cause => "Failed to create component: " ++ cause.message
  | .bufferEdit cause => "failed to edit buffer: " ++ cause.message
  | .template cause => "failed to render component template: " ++ cause.message

/-- Whether the user hears nothing of it. -/
def isSilent : ExtractError → Bool
  | .emptyIdentifier => true
  | _ => false

end ExtractError

end Extraction
