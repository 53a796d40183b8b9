import Extraction.Proofs.LastLine
import Extraction.Proofs.Literals
import Extraction.Proofs.TemplateTexts
/-!
The component that the built-in template makes. The selected text stands in a literal, so that
the scan by depth finds the template's own declaration whatever the selected text holds, and a
list goes below the template's last property.
-/

namespace Extraction

open Byte Bytes CodeView

/-- The texts that the built-in template is filled with. -/
structure ComponentText where
  importSource : Bytes
  selector : Bytes
  selectedText : Bytes
  symbolicName : Bytes

namespace ComponentText

variable (component : ComponentText)

def head : Bytes :=
  utf8 "import \x7b Component \x7d from '" ++ component.importSource ++ utf8 "';\n\n"

def properties : Bytes :=
  utf8 "\n\tselector: '" ++ component.selector ++ utf8 "',\n\ttemplate: `\n\t\t" ++
    component.selectedText ++ utf8 "\n\t`,"

def declaration (last : Bytes) : Bytes :=
  utf8 "@Component(\x7b" ++ (component.properties ++ (utf8 "\n\t" ++ (last ++ utf8 "\n\x7d)")))

def classText : Bytes :=
  utf8 "\nexport class " ++ component.symbolicName ++ utf8 " \x7b\n\x7d\n"

def textWith (last : Bytes) : Bytes :=
  component.head ++ (component.declaration last ++ component.classText)

def text : Bytes :=
  component.textWith (utf8 "standalone: true")

def block : Block :=
  let stop := (component.head ++ component.declaration (utf8 "standalone: true")).length
  ⟨component.head.length, stop, component.head.length + 11, stop - 2⟩

end ComponentText

def ComponentNames.componentText (names : ComponentNames) (importSource : String)
    (selectedText : Bytes) : ComponentText where
  importSource := utf8 importSource
  selector := utf8 names.selector
  selectedText := selectedText
  symbolicName := utf8 names.symbolicName

theorem utf8_beforeSelector : utf8 "';\n\n@Component(\x7b\n\tselector: '" =
    utf8 "';\n\n" ++ (utf8 "@Component(\x7b" ++ utf8 "\n\tselector: '") := by
  rw [← utf8_append, ← utf8_append]
  rfl

theorem render_builtinTemplate (names : ComponentNames) (importSource : String)
    (selectedText : Bytes) :
    builtinTemplate.render .none (names.context importSource selectedText) =
      .ok (names.componentText importSource selectedText).text := by
  have hclose : utf8 "\n\t`,\n\tstandalone: true\n\x7d)\nexport class " =
      utf8 "\n\t`," ++ (utf8 "\n\t" ++ (utf8 "standalone: true" ++ (utf8 "\n\x7d)" ++
        utf8 "\nexport class "))) := by
    rw [← utf8_append, ← utf8_append, ← utf8_append, ← utf8_append]
    rfl
  simp [builtinTemplate, Template.render, TemplateExpr.eval, ComponentNames.context,
    List.lookup_cons, Except.map, ComponentText.text, ComponentText.textWith, ComponentText.head,
    ComponentText.declaration, ComponentText.properties, ComponentText.classText,
    ComponentNames.componentText, utf8_beforeSelector, hclose]

theorem synthesize_builtin {options : SynthesisOptions} (hbuiltin : options.template = builtinName)
    (file : TemplateFile) (names : ComponentNames) (selectedText : Bytes) :
    synthesize options file names selectedText =
      .ok (names.componentText options.importSource selectedText).text := by
  exact synthesize_eq_ok_iff.mpr ⟨builtinText, builtinTemplate, .builtin hbuiltin,
    parse?_builtinText, render_builtinTemplate names options.importSource selectedText⟩

def isBracketFree (text : Bytes) : Bool :=
  text.all fun b => !isOpener b && !isCloser b

theorem of_isBracketFree {text : Bytes} (hfree : isBracketFree text = true) {b : UInt8}
    (hmem : b ∈ text) : isOpener b = false ∧ isCloser b = false := by
  have hbyte := List.all_eq_true.mp hfree b hmem
  rwa [Bool.and_eq_true, Bool.not_eq_true', Bool.not_eq_true'] at hbyte

theorem Balanced.BareBody.of_bracketFree {previous : Option UInt8} {view : CodeView}
    (hfree : ∀ b, some b ∈ view → isOpener b = false ∧ isCloser b = false) :
    BareBody 0 previous view := by
  refine ⟨depth?_of_forall hfree, ?_⟩
  rintro left before after right rfl - - -
  have hopen : some openBracket ∈ (keyText before after).map some := by
    simp [keyText]
  have hbracket := hfree openBracket (List.mem_append_left _ (List.mem_append_right _ hopen))
  cases hbracket.1

/-- Texts that end no literal of the template. -/
structure ComponentText.Quotable (component : ComponentText) : Prop where
  importSource : Quoted apostrophe component.importSource
  selector : Quoted apostrophe component.selector
  selectedText : Quoted backtick component.selectedText

namespace ComponentText

variable {component : ComponentText}

theorem head_eq : component.head = utf8 "import \x7b Component \x7d from " ++
    (literalText apostrophe component.importSource ++ utf8 ";\n\n") := by
  have hopen : utf8 "import \x7b Component \x7d from '" =
      utf8 "import \x7b Component \x7d from " ++ [apostrophe] := rfl
  have hclose : utf8 "';\n\n" = apostrophe :: utf8 ";\n\n" := rfl
  simp [head, literalText, hopen, hclose]

def markup (component : ComponentText) : Bytes :=
  utf8 "\n\t\t" ++ component.selectedText ++ utf8 "\n\t"

theorem properties_append (tail : Bytes) :
    component.properties ++ tail = utf8 "\n\tselector: " ++
      (literalText apostrophe component.selector ++ (utf8 ",\n\ttemplate: " ++
        (literalText backtick component.markup ++ comma :: tail))) := by
  have hopen : utf8 "\n\tselector: '" = utf8 "\n\tselector: " ++ [apostrophe] := rfl
  have hmiddle : utf8 "',\n\ttemplate: `\n\t\t" =
      apostrophe :: (utf8 ",\n\ttemplate: " ++ backtick :: utf8 "\n\t\t") := rfl
  have hclose : utf8 "\n\t`," = utf8 "\n\t" ++ [backtick, comma] := rfl
  simp [properties, markup, literalText, hopen, hmiddle, hclose]

section

variable (hquotable : component.Quotable)
include hquotable

theorem Quotable.markup : Quoted backtick component.markup :=
  ((Quoted.of_not_mem (by decide) (by decide)).append hquotable.selectedText).append
    (.of_not_mem (by decide) (by decide))

theorem endsInCode_head : EndsInCode component.head := by
  rw [head_eq]
  exact (endsInCode_literal_iff (.of_plain (by decide)) rfl hquotable.importSource).mpr
    (.of_plain (by decide))

theorem codeView_head : codeView component.head =
    (utf8 "import \x7b Component \x7d from ").map some ++
      (List.replicate (component.importSource.length + 2) none ++ (utf8 ";\n\n").map some) := by
  rw [head_eq, codeView_literal (.of_plain (by decide)) rfl hquotable.importSource,
    codeView_of_plain (by decide), codeView_of_plain (by decide)]

theorem endsInCode_properties {tail : Bytes} (htail : tail.all isPlain = true) :
    EndsInCode (component.properties ++ tail) := by
  have hcomma : (comma :: tail).all isPlain = true := by
    rw [List.all_cons, htail]
    decide
  rw [properties_append]
  exact (endsInCode_literal_iff (.of_plain (by decide)) rfl hquotable.selector).mpr
    ((endsInCode_literal_iff (.of_plain (by decide)) rfl hquotable.markup).mpr (.of_plain hcomma))

theorem codeView_properties {tail : Bytes} (htail : tail.all isPlain = true) :
    codeView (component.properties ++ tail) = (utf8 "\n\tselector: ").map some ++
      (List.replicate (component.selector.length + 2) none ++
        ((utf8 ",\n\ttemplate: ").map some ++
          (List.replicate (component.markup.length + 2) none ++ (comma :: tail).map some))) := by
  have hcomma : (comma :: tail).all isPlain = true := by
    rw [List.all_cons, htail]
    decide
  rw [properties_append, codeView_literal (.of_plain (by decide)) rfl hquotable.selector,
    codeView_of_plain (by decide), codeView_literal (.of_plain (by decide)) rfl hquotable.markup,
    codeView_of_plain (by decide), codeView_of_plain hcomma]

theorem bareBody_properties {tail : Bytes} (htail : tail.all isPlain = true)
    (hfree : isBracketFree tail = true) :
    Balanced.BareBody 0 (some openBrace) (codeView (component.properties ++ tail)) := by
  have hselector : isBracketFree (utf8 "\n\tselector: ") = true := by decide
  have htemplate : isBracketFree (utf8 ",\n\ttemplate: ") = true := by decide
  refine .of_bracketFree fun b hb => ?_
  rw [codeView_properties hquotable htail] at hb
  simp only [List.mem_append, List.mem_map, Option.some.injEq, exists_eq_right,
    List.mem_replicate, reduceCtorEq, and_false, false_or, List.mem_cons] at hb
  rcases hb with hb | hb | rfl | hb
  · exact of_isBracketFree hselector hb
  · exact of_isBracketFree htemplate hb
  · decide
  · exact of_isBracketFree hfree hb

def source : Balanced.BareSource where
  lead := component.head
  blank := []
  rest := closeParen :: component.classText
  lead_ends := component.endsInCode_head hquotable
  lead_free := by
    rw [codeView_head hquotable]
    refine .of_not_mem ?_
    simp
    decide
  blank_isBlank := rfl
  body := component.properties ++ utf8 "\n\tstandalone: true\n"
  body_ends := endsInCode_properties hquotable (by decide)
  bare := bareBody_properties hquotable (by decide) (by decide)

theorem text_frame (last : Bytes) :
    (source hquotable).toFrame.text
        (component.properties ++ (utf8 "\n\t" ++ (last ++ [lineFeed]))) =
      component.textWith last := by
  have hopen : Balanced.openingText [] = utf8 "@Component(\x7b" := rfl
  have hclose : utf8 "\n\x7d)" = [lineFeed, closeBrace, closeParen] := rfl
  simp [Balanced.Frame.text, source, textWith, declaration, hopen, hclose]

theorem text_source : (source hquotable).text = component.text :=
  text_frame hquotable (utf8 "standalone: true")

theorem block_source : (source hquotable).block = component.block := by
  have hmarker : marker.length = 11 := by decide
  have hopen : (utf8 "@Component(\x7b").length = 12 := by decide
  have hlast : (utf8 "\n\tstandalone: true\n").length =
      (utf8 "\n\t" ++ utf8 "standalone: true").length + 1 := by decide
  have hclose : (utf8 "\n\x7d)").length = 3 := by decide
  rw [Balanced.BareSource.block, (source hquotable).block_of_closeParen rfl]
  simp only [source, Balanced.Frame.bodyStart, block, declaration, List.length_append,
    List.length_nil, hmarker, hopen, hlast, hclose, Block.mk.injEq, true_and]
  omega

theorem lastLine_source : LastLine (source hquotable).body component.properties [tab]
    (utf8 "standalone: tru") 0x65 [] where
  body_eq := rfl
  indent_ne := by simp
  indent_spaces := by decide
  line_start := by decide
  line_whole := by decide
  ends := endsInCode_properties hquotable (by decide)
  byte_ident := by decide
  rest_blank := rfl

end

end ComponentText

/-- A component made from the built-in template can be extracted from: whatever the selected text
holds, the declaration that is found is the template's own, and a new list goes below its last
property. -/
theorem rewire_synthesized {options : SynthesisOptions} {names : ComponentNames}
    {selectedText : Bytes} (hbuiltin : options.template = builtinName)
    (himport : apostrophe ∉ utf8 options.importSource ∧ backslash ∉ utf8 options.importSource)
    (hselector : apostrophe ∉ utf8 names.selector ∧ backslash ∉ utf8 names.selector)
    (hselected : backtick ∉ selectedText ∧ backslash ∉ selectedText) (file : TemplateFile) :
    let component := names.componentText options.importSource selectedText
    ∃ text, synthesize options file names selectedText = .ok text ∧
      text = component.textWith (utf8 "standalone: true") ∧
      Balanced.scan text = some ⟨component.block, none⟩ ∧
      ∀ symbolicName modulePath, rewire text symbolicName modulePath .balanced =
        .rewired (utf8 ("import \x7b " ++ symbolicName ++ " \x7d from '" ++ modulePath ++ "';") ++
          lineEnding text ++
            component.textWith (utf8 "standalone: true," ++ (lineEnding text ++
              (utf8 "\timports: [" ++ utf8 symbolicName ++ utf8 "]"))))
          component.block .inserted := by
  intro component
  have hquotable : component.Quotable :=
    ⟨.of_not_mem himport.1 himport.2, .of_not_mem hselector.1 hselector.2,
      .of_not_mem hselected.1 hselected.2⟩
  refine ⟨component.text, synthesize_builtin hbuiltin file names selectedText, rfl, ?_, ?_⟩
  · rw [← ComponentText.text_source hquotable, Balanced.BareSource.scan_text,
      ComponentText.block_source]
  · intro symbolicName modulePath
    have hproperty : utf8 "standalone: true," = utf8 "standalone: tru" ++ [0x65, comma] := rfl
    have hlist : utf8 "\timports: [" ++ utf8 symbolicName ++ utf8 "]" =
        tab :: listProperty symbolicName [] := rfl
    have hline : utf8 "\n\t" = [lineFeed, tab] := rfl
    rw [← ComponentText.text_frame hquotable, ← ComponentText.text_source hquotable,
      Balanced.BareSource.rewire_lastLine (ComponentText.lastLine_source hquotable),
      ComponentText.block_source, hproperty, hlist, hline, importStatement_eq, lineBreak_eq]
    simp

/-- A selected text that ends a block, starts another and opens a literal and a comment. -/
theorem rewire_synthesized_block :
    let names := NamingOptions.derive {} ⟨"a-b", by decide⟩
    let selectedText := utf8 "\x7d) @Component(\x7b imports: [ ' // /*"
    let block : Block := ⟨44, 153, 55, 151⟩
    ∃ text source, synthesize {} .absent names selectedText = .ok text ∧
      Balanced.scan text = some ⟨block, none⟩ ∧
      rewire text "N" "./n" .balanced = .rewired source block .inserted := by
  intro names selectedText block
  have hselected : backtick ∉ selectedText ∧ backslash ∉ selectedText := by decide +kernel
  obtain ⟨text, htext, -, hscan, hrewire⟩ :=
    @rewire_synthesized {} names selectedText rfl (by decide +kernel) (by decide +kernel) hselected
      .absent
  have hblock : (names.componentText "@angular/core" selectedText).block = block := by
    decide +kernel
  exact ⟨text, _, htext, hblock ▸ hscan, hblock ▸ hrewire "N" "./n"⟩

end Extraction
