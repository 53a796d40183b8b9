import Extraction.Plan
/-!
The primitives that an extraction needs from its surroundings, and how a plan is carried out with
them: create the file, put the tag in place of the selection, replace the buffer by its rewired
text, show the file. The first primitive that fails ends the run.
-/

namespace Extraction

inductive Notification
  | info (message : String)
  | warning (message : String)
  | error (message : String)
deriving DecidableEq, Repr

namespace Notification

def message : Notification → String
  | .info message => message
  | .warning message => message
  | .error message => message

def display : Notification → String
  | .info message => message
  | .warning message => "warning: " ++ message
  | .error message => "error: " ++ message

end Notification

/-- What hosts an extraction. A primitive that fails changes nothing. -/
class Host (m : Type → Type) where
  buffer : m Bytes
  /-- Creates a file; an existing one is never overwritten. -/
  writeFile : String → Bytes → m (Except IoError Unit)
  replaceRange : Span → Bytes → m (Except EditError Unit)
  replaceAll : Bytes → m (Except EditError Unit)
  notify : Notification → m Unit
  openDocument : String → m Unit

/-- A buffer with a range replaced, if the range fits it. -/
def spliceBuffer (buffer : Bytes) (span : Span) (replacement : Bytes) : Except EditError Bytes :=
  if span.fits buffer then .ok (buffer.splice span replacement)
  else .error (.invalidRange span buffer.length)

inductive RewireStatus
  | disabled
  | rewired
  | blockNotFound (importKept : Bool)
deriving DecidableEq, Repr

structure ExtractionReport where
  names : ComponentNames
  created : String
  rewire : RewireStatus
deriving DecidableEq, Repr

/-- Whether a requested step was skipped. -/
def ExtractionReport.isPartial (report : ExtractionReport) : Bool :=
  match report.rewire with
  | .blockNotFound _ => true
  | _ => false

def missingDeclaration : String :=
  "Could not find @Component decorator in the original file."

def successMessage (names : ComponentNames) (status : RewireStatus) : String :=
  match status with
  | .rewired => "Component " ++ names.identifier.text ++ " created and imported successfully!"
  | _ => "Component " ++ names.identifier.text ++ " created successfully!"

variable {m : Type → Type} [Monad m] [Host m]

def failWith (err : ExtractError) : m (Except ExtractError α) := do
  Host.notify (.error err.message)
  return .error err

namespace RewirePlan

def status (plan : RewirePlan) : RewireStatus :=
  match plan.outcome with
  | .rewired .. => .rewired
  | .blockNotFound _ => .blockNotFound plan.keepImportWithoutBlock

def replaceBuffer (plan : RewirePlan) : m (Except EditError Unit) :=
  match plan.replacement with
  | none => return .ok ()
  | some text => Host.replaceAll text

end RewirePlan

namespace ExtractionPlan

def finish (plan : ExtractionPlan) (status : RewireStatus) :
    m (Except ExtractError ExtractionReport) := do
  Host.openDocument plan.file.path
  Host.notify (.info (successMessage plan.names status))
  return .ok { names := plan.names, created := plan.file.path, rewire := status }

def apply (plan : ExtractionPlan) : m (Except ExtractError ExtractionReport) := do
  match ← Host.writeFile plan.file.path plan.file.content with
  | .error cause => failWith (.writeFailure plan.file.path cause)
  | .ok () =>
      match ← Host.replaceRange plan.selectionEdit.span plan.selectionEdit.replacement with
      | .error cause => failWith (.bufferEdit cause)
      | .ok () =>
          match plan.rewire with
          | none => plan.finish .disabled
          | some rewire =>
              match ← rewire.replaceBuffer with
              | .error cause => failWith (.bufferEdit cause)
              | .ok () =>
                  match rewire.status with
                  | .blockNotFound _ => Host.notify (.warning missingDeclaration)
                  | _ => pure ()
                  plan.finish rewire.status

end ExtractionPlan

/-- Plans an extraction and carries it out. A user who backed out hears nothing. -/
def Extractor.run (extractor : Extractor) (request : ExtractRequest) :
    m (Except ExtractError ExtractionReport) := do
  match extractor.plan request with
  | .error err => if err.isSilent then return .error err else failWith err
  | .ok plan => plan.apply

end Extraction
