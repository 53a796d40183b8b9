import Extraction.Template.Render
/-!
A template engine: templates under the names that they were added with, and the settings that
decide how their texts are taken and how values are printed. Unless it is told otherwise, an
engine drops a line feed that ends a template's text and escapes values by the template's name.
-/

namespace Extraction

/-- The escapes for a template whose name ends as that of a markup file. -/
def AutoEscape.ofName (name : String) : AutoEscape :=
  let ending := String.ofList (name.toList.reverse.takeWhile (· != '.')).reverse
  if ["html", "htm", "xml"].contains ending then .html else .none

structure TemplateEngine where
  keepsTrailingNewline : Bool := false
  autoEscape : String → AutoEscape := .ofName
  templates : List (String × Template) := []

/-- A template of an engine, with the escapes that the engine prescribes for it. -/
structure LoadedTemplate where
  template : Template
  autoEscape : AutoEscape

def LoadedTemplate.render (loaded : LoadedTemplate) (context : TemplateContext) :
    Except TemplateFault Bytes :=
  loaded.template.render loaded.autoEscape context

namespace TemplateEngine

def sourceOf (engine : TemplateEngine) (text : Bytes) : Bytes :=
  if engine.keepsTrailingNewline || text.getLast? != some Byte.lineFeed then text
  else text.dropLast

def add (engine : TemplateEngine) (name : String) (text : Bytes) :
    Except TemplateFault TemplateEngine :=
  match Template.parse? (engine.sourceOf text) with
  | none => .error .malformed
  | some template => .ok { engine with templates := (name, template) :: engine.templates }

def get (engine : TemplateEngine) (name : String) : Except TemplateFault LoadedTemplate :=
  match engine.templates.lookup name with
  | none => .error (.missing name)
  | some template => .ok { template, autoEscape := engine.autoEscape name }

end TemplateEngine

end Extraction
