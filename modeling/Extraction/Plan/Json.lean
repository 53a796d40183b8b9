import Extraction.Json
import Extraction.Plan
/-!
A plan as JSON, for a user who wants to see what an extraction would do.
-/

namespace Extraction

def Json.ofString (s : String) : Json :=
  .text (utf8 s)

def ComponentNames.toJson (names : ComponentNames) : Json :=
  .object
    [("identifier", .ofString names.identifier.text),
      ("symbolic_name", .ofString names.symbolicName),
      ("file_base_name", .ofString names.fileBaseName),
      ("selector", .ofString names.selector),
      ("reference_tag", .ofString names.referenceTag)]

def SynthesizedFile.toJson (file : SynthesizedFile) : Json :=
  .object [("path", .ofString file.path), ("content", .text file.content)]

def TextEdit.toJson (edit : TextEdit) : Json :=
  .object
    [("range", .array [.number edit.span.start, .number edit.span.stop]),
      ("replacement", .text edit.replacement)]

def Block.toJson (block : Block) : Json :=
  .object
    [("start", .number block.start), ("end", .number block.stop),
      ("open_brace", .number block.openBrace), ("close_brace", .number block.closeBrace)]

def ListEdit.toJson : ListEdit → Json
  | .inserted => .ofString "inserted"
  | .prepended existingEntries =>
      .object [("prepended", .object [("existing_entries", .number existingEntries)])]

def RewireOutcome.toJson : RewireOutcome → Json
  | .rewired source block edit =>
      .object
        [("status", .ofString "rewritten"), ("source", .text source), ("block", block.toJson),
          ("edit", edit.toJson)]
  | .blockNotFound sourceWithImport =>
      .object
        [("status", .ofString "block-not-found"), ("source_with_import", .text sourceWithImport)]

def RewirePlan.toJson (plan : RewirePlan) : Json :=
  .object
    [("outcome", plan.outcome.toJson),
      ("keep_import_without_block", .boolean plan.keepImportWithoutBlock)]

def ExtractionPlan.toJson (plan : ExtractionPlan) : Json :=
  .object
    [("names", plan.names.toJson),
      ("module_path", .ofString plan.modulePath),
      ("file", plan.file.toJson),
      ("selection_edit", plan.selectionEdit.toJson),
      ("rewire", (plan.rewire.map RewirePlan.toJson).getD .null)]

end Extraction
