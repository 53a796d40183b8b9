import Extraction.Host
/-!
A session: a host driven step by step, together with the options in force and the last plan that
was made.
-/

namespace Extraction

/-- A request in a session; without a buffer of its own it is about the host's. -/
structure SessionRequest where
  path : String
  selection : Option Selection := none
  identifier : Option String := none
  buffer : Option Bytes := none
deriving DecidableEq, Repr

inductive SessionStep
  | writeFile (path : String) (content : Bytes)
  | replaceRange (span : Span) (text : Bytes)
  | replaceAll (text : Bytes)
  | notify (notification : Notification)
  | openDocument (path : String)
  | setOptions (options : ExtractOptions)
  | plan (request : SessionRequest)
  /-- Carries out the remembered plan, which stays remembered. -/
  | apply
  | run (request : SessionRequest)
deriving DecidableEq, Repr

inductive SessionAnswer
  | done
  | writeResult (result : Except IoError Unit)
  | editResult (result : Except EditError Unit)
  | planned (result : Except ExtractError ExtractionPlan)
  | reported (result : Except ExtractError ExtractionReport)
  | noPlan

structure Session where
  options : ExtractOptions := {}
  remembered : Option ExtractionPlan := none
deriving DecidableEq, Repr

namespace Session

variable {m : Type → Type} [Monad m] [Host m]

def request (request : SessionRequest) : m ExtractRequest := do
  let current ← Host.buffer
  return {
    enclosingPath := request.path
    buffer := request.buffer.getD current
    selection := request.selection
    identifier := request.identifier }

/-- The extractor in force, with the template that it needs looked up. -/
def extractor (session : Session) (findTemplate : String → m TemplateFile) : m Extractor := do
  let file ← findTemplate session.options.synthesis.template
  return { options := session.options, templateFile := fun _ => file }

def step (findTemplate : String → m TemplateFile) (session : Session) :
    SessionStep → m (SessionAnswer × Session)
  | .writeFile path content => do
      return (.writeResult (← Host.writeFile path content), session)
  | .replaceRange span text => do
      return (.editResult (← Host.replaceRange span text), session)
  | .replaceAll text => do
      return (.editResult (← Host.replaceAll text), session)
  | .notify notification => do
      Host.notify notification
      return (.done, session)
  | .openDocument path => do
      Host.openDocument path
      return (.done, session)
  | .setOptions options => return (.done, { session with options })
  | .plan request => do
      let extractor ← session.extractor findTemplate
      match extractor.plan (← Session.request request) with
      | .ok plan => return (.planned (.ok plan), { session with remembered := some plan })
      | .error err => return (.planned (.error err), session)
  | .apply =>
      match session.remembered with
      | none => return (.noPlan, session)
      | some plan => do
          return (.reported (← plan.apply), session)
  | .run request => do
      let extractor ← session.extractor findTemplate
      return (.reported (← extractor.run (← Session.request request)), session)

end Session

end Extraction
