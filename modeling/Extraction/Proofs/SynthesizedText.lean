import Extraction.Proofs.LayeredConfig
import Extraction.Proofs.PlainTemplates
import Extraction.Proofs.PrintedConfig
import Extraction.Proofs.TreeEdits
/-!
The text that the built-in template makes, and a copy of the template in a file. Both are read as
the same literal text and variables, so they make the same component, and the values stand in it
as they are.
-/

namespace Extraction

def builtinPlain : PlainTemplate where
  slots :=
    [{ lead := utf8 "import \x7b Component \x7d from '"
       printed := .importSource
       lead_inert := by decide },
      { lead := utf8 "';\n\n@Component(\x7b\n\tselector: '"
        printed := .selector
        lead_inert := by decide },
      { lead := utf8 "',\n\ttemplate: `\n\t\t"
        printed := .selectedText
        lead_inert := by decide },
      { lead := utf8 "\n\t`,\n\tstandalone: true\n\x7d)\nexport class "
        printed := .symbolicName
        lead_inert := by decide }]
  last := utf8 " \x7b\n\x7d\n"
  last_inert := by decide

theorem text_builtinPlain : builtinPlain.text = builtinText := by
  decide +kernel

theorem exists_utf8_eq_builtinText : ∃ text : String, utf8 text = builtinText := by
  unfold builtinText
  simp only [← utf8_append]
  exact ⟨_, rfl⟩

theorem findTemplate_of_read {sandbox : Sandbox} {path text : String}
    (hname : path ≠ builtinName)
    (hread : sandbox.tree.read sandbox.directory path = .ok (utf8 text)) :
    ((findTemplate path : StateM Sandbox _) sandbox).1 = .readable (utf8 text) := by
  obtain ⟨located, hlocate, -⟩ := FileTree.of_read_ok hread
  have hexists : sandbox.leadsTo path = true := by
    rw [Sandbox.leadsTo, hlocate]
    rfl
  have htext : ((readText path : StateM Sandbox _) sandbox).1 = .ok (utf8 text) := by
    rw [Sandbox.readText_apply, hread]
    simp [decode?_utf8]
  rw [findTemplate, if_neg hname, (Sandbox.readsOnly_pathExists path).bind_apply,
    Sandbox.pathExists_apply, if_pos hexists, (Sandbox.readsOnly_readText path).bind_apply, htext]
  rfl

/-- The built-in template and a file with its text make the same component: the literal text of
the template with the import source, the selector, the selected text and the name of the class in
their places, whatever these hold. -/
theorem synthesize_eq_fill {sandbox : Sandbox} {path : String}
    (hread : sandbox.tree.read sandbox.directory path = .ok builtinText)
    (options : SynthesisOptions) (file : TemplateFile) (names : ComponentNames)
    (selectedText : Bytes) :
    let content := builtinPlain.fill (names.value options.importSource selectedText)
    builtinPlain.fill ComponentVariable.placeholder = builtinText ∧
      synthesize { options with template := builtinName } file names selectedText = .ok content ∧
      synthesize { options with template := path }
        ((findTemplate path : StateM Sandbox _) sandbox).1 names selectedText = .ok content := by
  refine ⟨text_builtinPlain, synthesize_plain builtinPlain ?_ names selectedText,
    synthesize_plain builtinPlain ?_ names selectedText⟩
  · rw [text_builtinPlain]
    exact .builtin rfl
  · rw [text_builtinPlain]
    by_cases hname : path = builtinName
    · exact .builtin hname
    · obtain ⟨text, htext⟩ := exists_utf8_eq_builtinText
      rw [← htext] at hread ⊢
      rw [findTemplate_of_read hname hread]
      exact .file hname rfl

/-- A selected text that looks like a template and like markup, and ends in a line break. -/
theorem synthesize_eq_fill_delimiters :
    let sandbox : Sandbox := { tree := [(["t.jinja"], .file builtinText)] }
    let names := NamingOptions.derive {} ⟨"a-b", by decide⟩
    let selectedText := utf8 "\x7b\x7b selector \x7d\x7d \x7b% raw %\x7d \x7b# <b title='&'>`\r\n"
    let content := utf8 ("import \x7b Component \x7d from '@angular/core';\n\n" ++
      "@Component(\x7b\n\tselector: 'app-a-b',\n\ttemplate: `\n\t\t" ++
      "\x7b\x7b selector \x7d\x7d \x7b% raw %\x7d \x7b# <b title='&'>`\r\n" ++
      "\n\t`,\n\tstandalone: true\n\x7d)\nexport class ABComponent \x7b\n\x7d\n")
    sandbox.tree.read sandbox.directory "t.jinja" = .ok builtinText ∧
      synthesize {} .absent names selectedText = .ok content ∧
      synthesize { template := "t.jinja" }
          ((findTemplate "t.jinja" : StateM Sandbox _) sandbox).1 names selectedText =
        .ok content := by
  intro sandbox names selectedText content
  have hread : sandbox.tree.read sandbox.directory "t.jinja" = .ok builtinText := rfl
  have hcontent : builtinPlain.fill (names.value "@angular/core" selectedText) = content := by
    decide +kernel
  obtain ⟨-, hbuiltin, hfile⟩ := synthesize_eq_fill hread {} .absent names selectedText
  exact ⟨hread, hcontent ▸ hbuiltin, hcontent ▸ hfile⟩

end Extraction
