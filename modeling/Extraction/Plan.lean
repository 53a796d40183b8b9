import Extraction.Selection
import Extraction.Source.Rewire
import Extraction.Synthesis
/-!
Planning an extraction: every check is made and every artifact computed before anything changes.
-/

namespace Extraction

structure ExtractOptions where
  naming : NamingOptions := {}
  synthesis : SynthesisOptions := {}
  /-- Whether the new component is imported where it is used. -/
  rewireEnclosing : Bool := true
  blockScan : BlockScan := .firstClose
  /-- Whether the import line stays when no declaration was found. -/
  keepImportWithoutBlock : Bool := true
deriving DecidableEq, Repr

structure ExtractRequest where
  enclosingPath : String
  buffer : Bytes
  selection : Option Selection
  identifier : Option String
deriving DecidableEq, Repr

/-- The rewired buffer, computed from the buffer after the selection edit. -/
structure RewirePlan where
  outcome : RewireOutcome
  keepImportWithoutBlock : Bool
deriving DecidableEq, Repr

def RewirePlan.replacement (plan : RewirePlan) : Option Bytes :=
  match plan.outcome with
  | .rewired source _ _ => some source
  | .blockNotFound sourceWithImport =>
      if plan.keepImportWithoutBlock then some sourceWithImport else none

structure ExtractionPlan where
  names : ComponentNames
  modulePath : String
  file : SynthesizedFile
  selectionEdit : TextEdit
  rewire : Option RewirePlan
deriving DecidableEq, Repr

/-- Fixed options, and what each path leads to as a template. -/
structure Extractor where
  options : ExtractOptions := {}
  templateFile : String → TemplateFile := fun _ => .absent

namespace Extractor

def synthesizeFile (extractor : Extractor) (names : ComponentNames) (selectedText : Bytes)
    (enclosingPath : String) : Except ExtractError SynthesizedFile :=
  let options := extractor.options.synthesis
  match synthesize options (extractor.templateFile options.template) names selectedText with
  | .error err => .error err
  | .ok content => .ok ⟨componentPath enclosingPath names options.fileExtension, content⟩

/-- The import of a component into the buffer that the selection edit leaves. -/
def planRewire (extractor : Extractor) (names : ComponentNames) (updated : Bytes) :
    Option RewirePlan :=
  if extractor.options.rewireEnclosing then
    some
      { outcome :=
          rewire updated names.symbolicName names.modulePath extractor.options.blockScan
        keepImportWithoutBlock := extractor.options.keepImportWithoutBlock }
  else none

def plan (extractor : Extractor) (request : ExtractRequest) :
    Except ExtractError ExtractionPlan :=
  match Selection.validate request.buffer request.selection with
  | .error err => .error err
  | .ok selection =>
      match Identifier.parse (request.identifier.getD "") with
      | .error err => .error err
      | .ok identifier =>
          let names := extractor.options.naming.derive identifier
          match extractor.synthesizeFile names selection.text request.enclosingPath with
          | .error err => .error err
          | .ok file =>
              let selectionEdit : TextEdit := ⟨selection.span, utf8 names.referenceTag⟩
              .ok
                { names
                  modulePath := names.modulePath
                  file
                  selectionEdit
                  rewire := extractor.planRewire names (selectionEdit.apply request.buffer) }

end Extractor

end Extraction
