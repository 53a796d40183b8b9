import Mathlib.Data.List.Chain
import Extraction.Proofs.Search
import Extraction.Proofs.TemplateTexts
/-!
Templates that print variables and do nothing else. Such a template is literal text with the
variables of a component in it, and what it makes is the same literal text with their values in
their places, byte for byte: no value is read as a template, whatever it holds.
-/

namespace Extraction

open Byte

/-- Text in which no expression, tag or comment of a template is opened. -/
def Inert (text : Bytes) : Prop :=
  text.IsChain fun a b => ¬ (a = openBrace ∧
    (b = openBrace ∨ b = TemplateText.percent ∨ b = TemplateText.hash))

instance (text : Bytes) : Decidable (Inert text) :=
  inferInstanceAs (Decidable (List.IsChain _ text))

inductive ComponentVariable
  | identifier
  | symbolicName
  | selector
  | fileBaseName
  | importSource
  | selectedText
deriving DecidableEq, Repr

namespace ComponentVariable

def name : ComponentVariable → String
  | .identifier => "identifier"
  | .symbolicName => "symbolic_name"
  | .selector => "selector"
  | .fileBaseName => "file_base_name"
  | .importSource => "import_source"
  | .selectedText => "selected_text"

def placeholder (printed : ComponentVariable) : Bytes :=
  utf8 "\x7b\x7b " ++ (utf8 printed.name ++ utf8 " \x7d\x7d")

theorem placeholder_append (printed : ComponentVariable) (rest : Bytes) :
    printed.placeholder ++ rest = openBrace :: openBrace :: space ::
      (utf8 printed.name ++ space :: closeBrace :: closeBrace :: rest) := by
  have hopen : utf8 "\x7b\x7b " = [openBrace, openBrace, space] := rfl
  have hclose : utf8 " \x7d\x7d" = [space, closeBrace, closeBrace] := rfl
  simp [placeholder, hopen, hclose]

end ComponentVariable

def ComponentNames.value (names : ComponentNames) (importSource : String)
    (selectedText : Bytes) : ComponentVariable → Bytes
  | .identifier => utf8 names.identifier.text
  | .symbolicName => utf8 names.symbolicName
  | .selector => utf8 names.selector
  | .fileBaseName => utf8 names.fileBaseName
  | .importSource => utf8 importSource
  | .selectedText => selectedText

theorem ComponentNames.lookup_context (names : ComponentNames) (importSource : String)
    (selectedText : Bytes) (printed : ComponentVariable) :
    (names.context importSource selectedText).lookup printed.name =
      some (names.value importSource selectedText printed) := by
  cases printed <;> simp [context, ComponentVariable.name, value, List.lookup_cons]

/-- Literal text and the variable that is printed behind it. The brace that opens the expression
completes no delimiter with the text. -/
structure TemplateSlot where
  lead : Bytes
  printed : ComponentVariable
  lead_inert : Inert (lead ++ [openBrace])

structure PlainTemplate where
  slots : List TemplateSlot
  last : Bytes
  last_inert : Inert last

namespace PlainTemplate

/-- The literal text with something written for each variable. -/
def fill (plain : PlainTemplate) (write : ComponentVariable → Bytes) : Bytes :=
  plain.slots.flatMap (fun slot => slot.lead ++ write slot.printed) ++ plain.last

def text (plain : PlainTemplate) : Bytes :=
  plain.fill ComponentVariable.placeholder

end PlainTemplate

/-! Reading the text of such a template. -/

namespace TemplateText

/-- A text is read into pieces, with whatever fuel beyond its length. -/
def ReadsPieces (text : Bytes) (pieces : List TemplatePiece) : Prop :=
  ∀ fuel, text.length < fuel → read? fuel false text = some pieces

def literalPieces (text : Bytes) : List TemplatePiece :=
  if text.isEmpty then [] else [.text text]

theorem opening?_of_inert {a b : UInt8} {rest : Bytes} (hinert : Inert [a, b]) :
    opening? (a :: b :: rest) = none := by
  have hnot : ¬ (a = openBrace ∧ (b = openBrace ∨ b = percent ∨ b = hash)) := by
    simpa [Inert] using hinert
  rw [opening?, if_neg (by simpa [or_assoc] using hnot)]

theorem firstMatch?_opening {lead : Bytes} (hlead : Inert (lead ++ [openBrace])) (rest : Bytes) :
    firstMatch? opening? (lead ++ openBrace :: openBrace :: rest) =
      some (lead.length, rest.head? == some hyphen) := by
  induction lead with
  | nil => rfl
  | cons a lead ih =>
      have hrest := ih (List.IsChain.tail hlead)
      obtain ⟨b, tail, htail⟩ : ∃ b tail, lead ++ [openBrace] = b :: tail :=
        List.exists_cons_of_ne_nil (by simp)
      have hnone : opening? (a :: (lead ++ openBrace :: openBrace :: rest)) = none := by
        have hsplit :
            lead ++ openBrace :: openBrace :: rest = b :: (tail ++ openBrace :: rest) := by
          rw [List.append_cons, htail, List.cons_append]
        rw [List.cons_append, htail] at hlead
        have hpair : Inert [a, b] := List.IsChain.left_of_append hlead
        rw [hsplit]
        exact opening?_of_inert hpair
      rw [List.cons_append, firstMatch?, hnone, hrest]
      rfl

theorem firstMatch?_opening_of_inert {text : Bytes} (hinert : Inert text) :
    firstMatch? opening? text = none := by
  rw [firstMatch?_eq_none_iff]
  rintro left right rfl
  match right, List.IsChain.right_of_append hinert with
  | [], _ => rfl
  | [_], _ => rfl
  | a :: b :: rest, hright =>
      have hpair : Inert [a, b] := List.IsChain.left_of_append hright
      exact opening?_of_inert hpair

/-- A name between blanks is one word, whatever stands behind the closing delimiter. -/
theorem words?_name {word : Bytes} (hstart : word.head?.any isNameStart = true)
    (hname : word.all isNameByte = true) (fuel : Nat) (rest : Bytes) :
    words? [closeBrace, closeBrace] (fuel + 4)
        (space :: (word ++ space :: closeBrace :: closeBrace :: rest)) =
      some ([.ident (asciiString word)], false, rest) := by
  cases word with
  | nil => cases hstart
  | cons b tail =>
      have hstart : isNameStart b = true := hstart
      rw [List.all_cons, Bool.and_eq_true, List.all_eq_true] at hname
      have hne : ∀ {c}, isNameStart c = false → (b == c) = false := by
        intro c hc
        rw [beq_eq_false_iff_ne]
        rintro rfl
        rw [hstart] at hc
        cases hc
      have hblank : isAsciiBlank b = false := by
        simp only [isAsciiBlank, Bool.or_eq_false_iff]
        exact ⟨⟨⟨⟨hne rfl, hne rfl⟩, hne rfl⟩, hne rfl⟩, hne rfl⟩
      have hclose : List.isPrefixOf [closeBrace, closeBrace]
          (b :: (tail ++ space :: closeBrace :: closeBrace :: rest)) = false := by
        rw [List.isPrefixOf_cons_cons, BEq.comm, hne rfl, Bool.false_and]
      have htight : List.isPrefixOf [hyphen, closeBrace, closeBrace]
          (b :: (tail ++ space :: closeBrace :: closeBrace :: rest)) = false := by
        rw [List.isPrefixOf_cons_cons, BEq.comm, hne rfl, Bool.false_and]
      have hquote : (b == apostrophe || b == doubleQuote) = false := by
        rw [hne rfl, hne rfl, Bool.or_false]
      have hspace : isNameByte space = false := rfl
      have hend : words? [closeBrace, closeBrace] (fuel + 2)
          (space :: closeBrace :: closeBrace :: rest) = some ([], false, rest) := rfl
      have hskip : ∀ text, words? [closeBrace, closeBrace] (fuel + 4) (space :: text) =
          words? [closeBrace, closeBrace] (fuel + 3) text := fun _ => rfl
      rw [hskip, List.cons_append, words?, hblank, htight, hclose, hquote, hstart,
        List.dropWhile_append_of_pos hname.2, List.takeWhile_append_of_pos hname.2]
      simp [hspace, hend]

theorem read?_expression {inside rest : Bytes} {words : List TemplateWord}
    (hhead : inside.head? ≠ some hyphen)
    (hwords : words? [closeBrace, closeBrace] (inside.length + 1) inside =
      some (words, false, rest)) (fuel : Nat) :
    read? (fuel + 1) false (openBrace :: openBrace :: inside) =
      (read? fuel false rest).map (.output words :: ·) := by
  rw [read?]
  · simp [hhead, hwords]
  · simp

theorem read?_placeholder (printed : ComponentVariable) (fuel : Nat) (rest : Bytes) :
    read? (fuel + 1) false (printed.placeholder ++ rest) =
      (read? fuel false rest).map (.output [.ident printed.name] :: ·) := by
  have hstart : (utf8 printed.name).head?.any isNameStart = true := by
    cases printed <;> decide
  have hname : (utf8 printed.name).all isNameByte = true := by
    cases printed <;> decide
  have hstring : asciiString (utf8 printed.name) = printed.name := by
    cases printed <;> rfl
  have hlength : (space :: (utf8 printed.name ++ space :: closeBrace :: closeBrace :: rest)).length
      + 1 = (utf8 printed.name).length + rest.length + 1 + 4 := by
    simp
    omega
  have hwords := words?_name hstart hname ((utf8 printed.name).length + rest.length + 1) rest
  rw [← hlength, hstring] at hwords
  rw [printed.placeholder_append, read?_expression (by simp; decide) hwords]

theorem isPrefixOf_of_opening? {text : Bytes} (hnone : opening? text = none) {b : UInt8}
    (hb : b = openBrace ∨ b = percent ∨ b = hash) :
    List.isPrefixOf [openBrace, b] text = false := by
  rw [← Bool.not_eq_true, List.isPrefixOf_iff_prefix]
  rintro ⟨rest, rfl⟩
  rcases hb with rfl | rfl | rfl <;> cases hnone

theorem read?_text {text : Bytes} (hne : text ≠ []) (hnone : opening? text = none) (fuel : Nat) :
    read? (fuel + 1) false text =
      match firstMatch? opening? text with
      | none => some [.text text]
      | some (width, tight) =>
          let lead := if tight then Bytes.trimEnd (text.take width) else text.take width
          (read? fuel false (text.drop width)).map fun pieces =>
            if lead.isEmpty then pieces else .text lead :: pieces := by
  have hempty : text.isEmpty = false := List.isEmpty_eq_false_iff.mpr hne
  have houtput := isPrefixOf_of_opening? hnone (.inl rfl)
  have htag := isPrefixOf_of_opening? hnone (.inr (.inl rfl))
  have hcomment := isPrefixOf_of_opening? hnone (.inr (.inr rfl))
  cases hfound : firstMatch? opening? text
  all_goals
    rw [read?]
    · simp only [houtput, htag, hcomment, hempty, hfound, Bool.false_eq_true, if_false]
    · exact hne

theorem read?_literal {lead : Bytes} (hne : lead ≠ []) (hlead : Inert (lead ++ [openBrace]))
    (fuel : Nat) (rest : Bytes) :
    read? (fuel + 1) false (lead ++ openBrace :: openBrace :: space :: rest) =
      (read? fuel false (openBrace :: openBrace :: space :: rest)).map (.text lead :: ·) := by
  have hfirst := firstMatch?_opening hlead (space :: rest)
  have htight : ((space :: rest).head? == some hyphen) = false := rfl
  rw [htight] at hfirst
  have hnone : opening? (lead ++ openBrace :: openBrace :: space :: rest) = none := by
    obtain ⟨first, _, htext, hwidth, -, hfree⟩ := firstMatch?_eq_some_iff.mp hfirst
    obtain ⟨rfl, rfl⟩ := List.append_inj htext hwidth
    exact hfree [] lead rfl hne
  rw [read?_text (by simp) hnone, hfirst]
  simp [hne]

theorem readsPieces_of_inert {text : Bytes} (hinert : Inert text) :
    ReadsPieces text (literalPieces text) := by
  intro fuel hfuel
  obtain ⟨fuel, rfl⟩ := Nat.exists_eq_succ_of_ne_zero (Nat.ne_zero_of_lt hfuel)
  by_cases hempty : text = []
  · subst hempty
    rfl
  · have hfirst := firstMatch?_opening_of_inert hinert
    have hnone := firstMatch?_eq_none_iff.mp hfirst [] text rfl
    rw [read?_text hempty hnone, hfirst]
    simp [literalPieces, hempty]

theorem ReadsPieces.slot {rest : Bytes} {pieces : List TemplatePiece}
    (hrest : ReadsPieces rest pieces) (slot : TemplateSlot) :
    ReadsPieces (slot.lead ++ (slot.printed.placeholder ++ rest))
      (literalPieces slot.lead ++ .output [.ident slot.printed.name] :: pieces) := by
  have hprinted : ReadsPieces (slot.printed.placeholder ++ rest)
      (.output [.ident slot.printed.name] :: pieces) := by
    intro fuel hfuel
    obtain ⟨fuel, rfl⟩ := Nat.exists_eq_succ_of_ne_zero (Nat.ne_zero_of_lt hfuel)
    rw [read?_placeholder, hrest fuel]
    · rfl
    · rw [ComponentVariable.placeholder_append] at hfuel
      simp at hfuel
      omega
  by_cases hempty : slot.lead = []
  · rw [hempty]
    exact hprinted
  · intro fuel hfuel
    obtain ⟨fuel, rfl⟩ := Nat.exists_eq_succ_of_ne_zero (Nat.ne_zero_of_lt hfuel)
    have hlead := List.length_pos_of_ne_nil hempty
    rw [List.length_append] at hfuel
    have hrest := hprinted fuel (by omega)
    rw [ComponentVariable.placeholder_append] at hrest ⊢
    rw [read?_literal hempty slot.lead_inert, hrest]
    simp [literalPieces, hempty]

end TemplateText

/-! What the pieces make. -/

namespace PlainTemplate

def pieces (plain : PlainTemplate) : List TemplatePiece :=
  plain.slots.foldr (fun slot pieces =>
    TemplateText.literalPieces slot.lead ++ .output [.ident slot.printed.name] :: pieces)
    (TemplateText.literalPieces plain.last)

theorem readsPieces (plain : PlainTemplate) :
    TemplateText.ReadsPieces plain.text plain.pieces := by
  obtain ⟨slots, last, hlast⟩ := plain
  induction slots with
  | nil => exact TemplateText.readsPieces_of_inert hlast
  | cons slot slots ih =>
      have hslot := ih.slot slot
      simpa [text, fill, pieces] using hslot

theorem exists_literal {pieces : List TemplatePiece} {template : Template}
    (hpieces : Template.ofPieces pieces = some (template, [])) (lead : Bytes) :
    ∃ whole, Template.ofPieces (TemplateText.literalPieces lead ++ pieces) = some (whole, []) ∧
      ∀ context content, template.render .none context = .ok content →
        whole.render .none context = .ok (lead ++ content) := by
  by_cases hempty : lead = []
  · subst hempty
    exact ⟨template, hpieces, fun _ _ hcontent => hcontent⟩
  · refine ⟨.text lead template, ?_, ?_⟩
    · simp [TemplateText.literalPieces, hempty, Template.ofPieces, hpieces]
    · intro context content hcontent
      rw [Template.render, hcontent]
      rfl

theorem exists_template (plain : PlainTemplate) :
    ∃ template, Template.ofPieces plain.pieces = some (template, []) ∧
      ∀ (names : ComponentNames) importSource selectedText,
        template.render .none (names.context importSource selectedText) =
          .ok (plain.fill (names.value importSource selectedText)) := by
  obtain ⟨slots, last, hlast⟩ := plain
  induction slots with
  | nil =>
      obtain ⟨template, hpieces, hrender⟩ :=
        @exists_literal [] .done rfl last
      rw [List.append_nil] at hpieces
      refine ⟨template, hpieces, fun names importSource selectedText => ?_⟩
      have hdone := hrender (names.context importSource selectedText) [] rfl
      rwa [List.append_nil] at hdone
  | cons slot slots ih =>
      obtain ⟨rest, hrest, hrender⟩ := ih
      have houtput : Template.ofPieces (.output [.ident slot.printed.name] ::
          pieces ⟨slots, last, hlast⟩) =
            some (.output (.variable slot.printed.name) rest, []) := by
        simp [Template.ofPieces, hrest, TemplateExpr.parse, TemplateExpr.parseSuffixes]
      obtain ⟨template, hpieces, hlead⟩ := exists_literal houtput slot.lead
      refine ⟨template, hpieces, fun names importSource selectedText => ?_⟩
      rw [hlead _ (names.value importSource selectedText slot.printed ++
        fill ⟨slots, last, hlast⟩ (names.value importSource selectedText))]
      · simp [fill]
      · rw [Template.render, TemplateExpr.eval, names.lookup_context, hrender]
        rfl

end PlainTemplate

/-- A component made from such a template is its literal text with the values in their places,
wherever the text of the template was loaded from. -/
theorem synthesize_plain {options : SynthesisOptions} {file : TemplateFile}
    (plain : PlainTemplate) (hloads : options.Loads file plain.text)
    (names : ComponentNames) (selectedText : Bytes) :
    synthesize options file names selectedText =
      .ok (plain.fill (names.value options.importSource selectedText)) := by
  obtain ⟨template, hpieces, hrender⟩ := plain.exists_template
  have hparse : Template.parse? plain.text = some template := by
    rw [Template.parse?, plain.readsPieces _ (Nat.lt_succ_self _)]
    simp only [hpieces]
  exact synthesize_eq_ok_iff.mpr ⟨plain.text, template, hloads, hparse, hrender ..⟩

end Extraction
