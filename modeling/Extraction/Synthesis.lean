import Extraction.Naming
import Extraction.Path
import Extraction.Template.Engine
/-!
The source file of a new component, rendered from a template and placed beside the file that the
component is taken from.
-/

namespace Extraction

def builtinName : String := "angular_component"

/-- The built-in template: a standalone component around the selected text. -/
@[irreducible]
def builtinText : Bytes :=
  utf8 "import \x7b Component \x7d from '\x7b\x7b import_source \x7d\x7d';\n" ++
    utf8 "\n" ++
    utf8 "@Component(\x7b\n" ++
    utf8 "\tselector: '\x7b\x7b selector \x7d\x7d',\n" ++
    utf8 "\ttemplate: `\n" ++
    utf8 "\t\t\x7b\x7b selected_text \x7d\x7d\n" ++
    utf8 "\t`,\n" ++
    utf8 "\tstandalone: true\n" ++
    utf8 "\x7d)\n" ++
    utf8 "export class \x7b\x7b symbolic_name \x7d\x7d \x7b\n" ++
    utf8 "\x7d\n"

inductive TemplateFile
  | absent
  | unreadable (cause : IoError)
  | readable (text : Bytes)
deriving DecidableEq, Repr

structure SynthesisOptions where
  importSource : String := "@angular/core"
  template : String := builtinName
  fileExtension : String := "ts"
deriving DecidableEq, Repr

def ComponentNames.context (names : ComponentNames) (importSource : String)
    (selectedText : Bytes) : TemplateContext :=
  [("identifier", utf8 names.identifier.text), ("symbolic_name", utf8 names.symbolicName),
    ("selector", utf8 names.selector), ("file_base_name", utf8 names.fileBaseName),
    ("import_source", utf8 importSource), ("selected_text", selectedText)]

/-- The engine with the settings for source text: nothing is dropped and nothing escaped. -/
def TemplateEngine.configure (engine : TemplateEngine) : TemplateEngine :=
  { engine with keepsTrailingNewline := true, autoEscape := fun _ => .none }

def builtinEngine : Except TemplateError TemplateEngine :=
  match (TemplateEngine.configure {}).add builtinName builtinText with
  | .error fault => .error (.unregistered fault)
  | .ok engine => .ok engine

def renderExternal (name : String) (text : Bytes) (context : TemplateContext) :
    Except TemplateError Bytes :=
  match (TemplateEngine.configure {}).add "external" text with
  | .error fault => .error (.invalid name fault)
  | .ok engine =>
      match engine.get "external" with
      | .error fault => .error (.invalid name fault)
      | .ok template => (template.render context).mapError (.failed name)

/-- Renders the template that an engine has under a name or, failing that, the one that the name
leads to as a path. -/
def renderTemplate (engine : TemplateEngine) (name : String) (file : TemplateFile)
    (context : TemplateContext) : Except TemplateError Bytes :=
  match engine.get name with
  | .ok template => (template.render context).mapError (.failed name)
  | .error _ =>
      match file with
      | .absent => .error (.notFound name)
      | .unreadable cause => .error (.unreadable name cause)
      | .readable text => renderExternal name text context

def synthesize (options : SynthesisOptions) (file : TemplateFile) (names : ComponentNames)
    (selectedText : Bytes) : Except ExtractError Bytes :=
  match builtinEngine with
  | .error cause => .error (.template cause)
  | .ok engine =>
      let context := names.context options.importSource selectedText
      (renderTemplate engine options.template file context).mapError .template

/-- The file name of a component; the extension loses its leading dots. -/
def ComponentNames.fileName (names : ComponentNames) (extension : String) : String :=
  if extension = "" then names.fileBaseName
  else names.fileBaseName ++ "." ++ String.ofList (extension.toList.dropWhile (· == '.'))

/-- The path of a component beside the file that it is taken from. -/
def componentPath (enclosingPath : String) (names : ComponentNames) (extension : String) :
    String :=
  Path.join ((Path.parent? enclosingPath).getD "") (names.fileName extension)

structure SynthesizedFile where
  path : String
  content : Bytes
deriving DecidableEq, Repr

end Extraction
