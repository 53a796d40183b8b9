import Extraction.Synthesis
/-!
What an engine makes of the text that a template name leads to. The engines are configured to take
a text whole and to print values as they are, so a component is the rendering of that text without
escapes, and it fails for no other reason than its template.
-/

namespace Extraction

/-- The text of a template can be loaded: it is built in, or a file holds it. -/
inductive SynthesisOptions.Loads (options : SynthesisOptions) (file : TemplateFile) : Bytes → Prop
  | builtin (hname : options.template = builtinName) : Loads options file builtinText
  | file {text : Bytes} (hname : options.template ≠ builtinName) (hfile : file = .readable text) :
      Loads options file text

def builtinTemplate : Template :=
  .text (utf8 "import \x7b Component \x7d from '") <|
  .output (.variable "import_source") <|
  .text (utf8 "';\n\n@Component(\x7b\n\tselector: '") <|
  .output (.variable "selector") <|
  .text (utf8 "',\n\ttemplate: `\n\t\t") <|
  .output (.variable "selected_text") <|
  .text (utf8 "\n\t`,\n\tstandalone: true\n\x7d)\nexport class ") <|
  .output (.variable "symbolic_name") <|
  .text (utf8 " \x7b\n\x7d\n") .done

theorem parse?_builtinText : Template.parse? builtinText = some builtinTemplate := by
  decide +kernel

namespace TemplateEngine

def single (name : String) (template : Template) : TemplateEngine where
  keepsTrailingNewline := true
  autoEscape _ := .none
  templates := [(name, template)]

theorem add_configure (name : String) (text : Bytes) :
    (configure {}).add name text =
      match Template.parse? text with
      | none => .error .malformed
      | some template => .ok (single name template) := by
  rw [add, sourceOf, configure]
  rfl

theorem get_single (name : String) (template : Template) :
    (single name template).get name = .ok ⟨template, .none⟩ := by
  simp [get, single]

theorem get_single_of_ne {name other : String} (hne : other ≠ name) (template : Template) :
    (single name template).get other = .error (.missing other) := by
  simp [get, single, List.lookup_cons, beq_false_of_ne hne]

end TemplateEngine

open TemplateEngine (single get_single get_single_of_ne add_configure)

theorem builtinEngine_eq : builtinEngine = .ok (single builtinName builtinTemplate) := by
  unfold builtinEngine
  rw [add_configure, parse?_builtinText]

theorem synthesize_eq (options : SynthesisOptions) (file : TemplateFile) (names : ComponentNames)
    (selectedText : Bytes) :
    synthesize options file names selectedText =
      (renderTemplate (single builtinName builtinTemplate) options.template file
        (names.context options.importSource selectedText)).mapError .template := by
  unfold synthesize
  rw [builtinEngine_eq]

theorem of_synthesize_error {options : SynthesisOptions} {file : TemplateFile}
    {names : ComponentNames} {selectedText : Bytes} {err : ExtractError}
    (h : synthesize options file names selectedText = .error err) :
    ∃ cause, err = .template cause := by
  rw [synthesize_eq] at h
  revert h
  cases renderTemplate (single builtinName builtinTemplate) options.template file
      (names.context options.importSource selectedText) with
  | error cause => exact fun h => ⟨cause, (Except.error.inj h).symm⟩
  | ok content => exact fun h => nomatch h

theorem Except.mapError_eq_ok_iff {ε ε' α : Type} {change : ε → ε'} {outcome : Except ε α} {a : α} :
    outcome.mapError change = .ok a ↔ outcome = .ok a := by
  cases outcome with
  | error err => exact iff_of_false nofun nofun
  | ok value =>
      constructor
      · rintro ⟨⟩
        rfl
      · rintro ⟨⟩
        rfl

section Render

variable {name : String} {context : TemplateContext} {content : Bytes}

theorem renderExternal_eq_ok_iff {text : Bytes} :
    renderExternal name text context = .ok content ↔
      ∃ template, Template.parse? text = some template ∧
        template.render .none context = .ok content := by
  rw [renderExternal, add_configure]
  cases Template.parse? text with
  | none => simp
  | some template => simp [get_single, LoadedTemplate.render, Except.mapError_eq_ok_iff]

theorem renderTemplate_eq_ok_iff_of_registered {template : Template} {file : TemplateFile} :
    renderTemplate (single name template) name file context = .ok content ↔
      template.render .none context = .ok content := by
  unfold renderTemplate
  rw [get_single]
  exact Except.mapError_eq_ok_iff

theorem renderTemplate_eq_ok_iff_of_external {other : String} (hne : name ≠ other)
    {template : Template} {file : TemplateFile} :
    renderTemplate (single other template) name file context = .ok content ↔
      ∃ text, file = .readable text ∧ ∃ template, Template.parse? text = some template ∧
        template.render .none context = .ok content := by
  unfold renderTemplate
  rw [get_single_of_ne hne]
  cases file with
  | absent => simp
  | unreadable cause => simp
  | readable text => simp [renderExternal_eq_ok_iff]

end Render

/-- A component is made exactly if the text of its template is loaded, read and rendered. -/
theorem synthesize_eq_ok_iff {options : SynthesisOptions} {file : TemplateFile}
    {names : ComponentNames} {selectedText content : Bytes} :
    synthesize options file names selectedText = .ok content ↔
      ∃ text template, options.Loads file text ∧ Template.parse? text = some template ∧
        template.render .none (names.context options.importSource selectedText) =
          .ok content := by
  rw [synthesize_eq, Except.mapError_eq_ok_iff]
  by_cases hname : options.template = builtinName
  · rw [hname, renderTemplate_eq_ok_iff_of_registered]
    constructor
    · exact fun hrender => ⟨builtinText, _, .builtin hname, parse?_builtinText, hrender⟩
    · rintro ⟨text, template, hloads, hparse, hrender⟩
      cases hloads with
      | file hother => exact absurd hname hother
      | builtin =>
          obtain rfl := Option.some.inj (parse?_builtinText.symm.trans hparse)
          exact hrender
  · rw [renderTemplate_eq_ok_iff_of_external hname]
    constructor
    · rintro ⟨text, hfile, template, hparse, hrender⟩
      exact ⟨text, template, .file hname hfile, hparse, hrender⟩
    · rintro ⟨text, template, hloads, hparse, hrender⟩
      cases hloads with
      | builtin hbuiltin => exact absurd hbuiltin hname
      | file _ hfile => exact ⟨text, hfile, template, hparse, hrender⟩

end Extraction
