import Extraction.Proofs.Literals
import Extraction.Source.Rewire
import Mathlib.Data.List.Infix
/-!
The import line in front of a text: code around one literal, without a marker, and closed by a
line feed, so that the text behind it is read as if it stood alone.
-/

namespace Extraction

open Byte CodeView Extraction.Balanced

/-! Characters and the bytes that encode them. -/

theorem toNat_eq_of_mem_utf8EncodeChar {c : Char} {b : UInt8}
    (hmem : b ∈ String.utf8EncodeChar c) (hascii : b.toNat < 0x80) : c.val.toNat = b.toNat := by
  unfold String.utf8EncodeChar at hmem
  simp only at hmem
  split at hmem
  · rw [List.mem_singleton.mp hmem, UInt8.toNat_ofNat']
    omega
  · split at hmem
    · simp only [List.mem_cons, List.not_mem_nil, or_false] at hmem
      rcases hmem with rfl | rfl <;> simp only [UInt8.toNat_ofNat'] at hascii <;> omega
    · split at hmem
      · simp only [List.mem_cons, List.not_mem_nil, or_false] at hmem
        rcases hmem with rfl | rfl | rfl <;> simp only [UInt8.toNat_ofNat'] at hascii <;> omega
      · simp only [List.mem_cons, List.not_mem_nil, or_false] at hmem
        rcases hmem with rfl | rfl | rfl | rfl <;>
          simp only [UInt8.toNat_ofNat'] at hascii <;> omega

theorem not_mem_utf8 {s : String} {c : Char} {b : UInt8} (hchar : c.val.toNat = b.toNat)
    (hascii : b.toNat < 0x80) (hmem : c ∉ s.toList) : b ∉ utf8 s := by
  intro hb
  obtain ⟨d, hd, hb⟩ := List.mem_flatMap.mp hb
  have hval : d.val = c.val :=
    UInt32.toNat_inj.mp ((toNat_eq_of_mem_utf8EncodeChar hb hascii).trans hchar.symm)
  rw [Char.ext hval] at hd
  exact hmem hd

def isSymbolChar (c : Char) : Bool :=
  c.isAlphanum || c == '_' || c == '$'

theorem isIdent_of_mem_utf8EncodeChar {c : Char} {b : UInt8} (hsymbol : isSymbolChar c = true)
    (hmem : b ∈ String.utf8EncodeChar c) : isIdent b = true := by
  have hval : (0x30 ≤ c.val.toNat ∧ c.val.toNat ≤ 0x39) ∨
      (0x41 ≤ c.val.toNat ∧ c.val.toNat ≤ 0x5A) ∨ (0x61 ≤ c.val.toNat ∧ c.val.toNat ≤ 0x7A) ∨
        c.val.toNat = 0x5F ∨ c.val.toNat = 0x24 := by
    simp only [isSymbolChar, Bool.or_eq_true, beq_iff_eq] at hsymbol
    rcases hsymbol with (halphanum | rfl) | rfl
    · have hranges : ((decide ('A'.val ≤ c.val ∧ c.val ≤ 'Z'.val) ||
          (decide ('a'.val ≤ c.val) && decide (c.val ≤ 'z'.val))) ||
            (decide ('0'.val ≤ c.val) && decide (c.val ≤ '9'.val))) = true := halphanum
      simp only [Bool.or_eq_true, Bool.and_eq_true, decide_eq_true_eq,
        UInt32.le_iff_toNat_le] at hranges
      rcases hranges with (hupper | hlower) | hdigit
      · exact .inr (.inl hupper)
      · exact .inr (.inr (.inl hlower))
      · exact .inl hdigit
    · exact .inr (.inr (.inr (.inl rfl)))
    · exact .inr (.inr (.inr (.inr rfl)))
  have hb : b.toNat = c.val.toNat := by
    rw [String.utf8EncodeChar, if_pos (by omega), List.mem_singleton] at hmem
    rw [hmem, UInt8.toNat_ofNat']
    omega
  simp only [isIdent, Bool.or_eq_true, Bool.and_eq_true, decide_eq_true_eq, beq_iff_eq,
    UInt8.le_iff_toNat_le, ← UInt8.toNat_inj, hb]
  simp only [UInt8.reduceToNat]
  omega

theorem isIdent_utf8 {name : String} (hsymbol : name.toList.all isSymbolChar = true) :
    (utf8 name).all isIdent = true := by
  rw [List.all_eq_true]
  intro b hb
  obtain ⟨c, hc, hb⟩ := List.mem_flatMap.mp hb
  exact isIdent_of_mem_utf8EncodeChar (List.all_eq_true.mp hsymbol c hc) hb

theorem utf8_ne_nil {name : String} (hne : name ≠ "") : utf8 name ≠ [] := by
  intro hnil
  apply hne
  rw [← String.toList_eq_nil_iff]
  cases hchars : name.toList with
  | nil => rfl
  | cons c cs =>
      rw [utf8, hchars, List.flatMap_cons, List.append_eq_nil_iff] at hnil
      exact absurd hnil.1 String.utf8EncodeChar_ne_nil

theorem lineBreak_of_pair {text : Bytes} (hsub : [carriageReturn, lineFeed] <:+: text) :
    lineBreak text = [carriageReturn, lineFeed] := by
  rw [lineBreak, if_pos (Bytes.contains_iff.mpr hsub)]

theorem eq_lineBreak_or (text : Bytes) :
    lineBreak text = [lineFeed] ∨ lineBreak text = [carriageReturn, lineFeed] := by
  unfold lineBreak
  split
  · exact .inr rfl
  · exact .inl rfl

/-- What ends a line that is put into a text: a carriage return and a line feed if they stand
together anywhere in it, else a line feed alone. -/
def lineEnding (text : Bytes) : Bytes :=
  if utf8 "\r\n" <:+: text then utf8 "\r\n" else utf8 "\n"

theorem lineBreak_eq (text : Bytes) : lineBreak text = lineEnding text := by
  unfold lineEnding
  split
  · next hpair => exact lineBreak_of_pair hpair
  · next hpair => exact if_neg fun h => hpair (Bytes.contains_iff.mp h)

theorem isBlank_lineBreak (text : Bytes) : IsBlank (lineBreak text) := by
  unfold lineBreak
  split <;> decide

theorem importStatement_eq (name path : String) (text : Bytes) :
    importStatement name path (lineBreak text) =
      utf8 ("import \x7b " ++ name ++ " \x7d from '" ++ path ++ "';") ++ lineEnding text := by
  simp [importStatement, lineBreak_eq]

/-- An import of a name over the letters, the digits, underscore and dollar. -/
structure Import where
  name : String
  path : String
  name_ne : name ≠ ""
  name_symbol : name.toList.all isSymbolChar = true

/-- The path is one that a literal in apostrophes can hold as it is. -/
structure QuotedImport extends Import where
  path_apostrophe : '\'' ∉ path.toList
  path_backslash : '\\' ∉ path.toList

namespace Import

variable (import_ : Import)

theorem name_isIdent : (utf8 import_.name).all isIdent = true :=
  isIdent_utf8 import_.name_symbol

theorem utf8_name_ne : utf8 import_.name ≠ [] :=
  utf8_ne_nil import_.name_ne

def line (text : Bytes) : Bytes :=
  utf8 ("import \x7b " ++ import_.name ++ " \x7d from '" ++ import_.path ++ "';") ++
    lineEnding text

theorem importStatement_eq_line (text : Bytes) :
    importStatement import_.name import_.path (lineBreak text) = import_.line text :=
  importStatement_eq import_.name import_.path text

def opening : Bytes :=
  utf8 "import \x7b " ++ utf8 import_.name ++ utf8 " \x7d from "

theorem line_eq (text : Bytes) :
    import_.line text = import_.opening ++
      (literalText apostrophe (utf8 import_.path) ++ (utf8 ";" ++ lineBreak text)) := by
  have hfrom : utf8 " \x7d from '" = utf8 " \x7d from " ++ [apostrophe] := rfl
  have hend : utf8 "';" = [apostrophe] ++ utf8 ";" := rfl
  rw [line, opening, literalText, lineBreak_eq]
  simp [hfrom, hend]

theorem isPlain_opening : import_.opening.all isPlain = true := by
  rw [opening, List.all_append, List.all_append, isPlain_of_isIdent import_.name_isIdent]
  decide

end Import

theorem isPlain_semicolon (text : Bytes) : (utf8 ";" ++ lineBreak text).all isPlain = true := by
  rw [List.all_append, (isBlank_lineBreak text).isPlain]
  decide

namespace QuotedImport

variable (import_ : QuotedImport)

theorem quoted_path : Quoted apostrophe (utf8 import_.path) :=
  .of_not_mem (not_mem_utf8 rfl (by decide) import_.path_apostrophe)
    (not_mem_utf8 rfl (by decide) import_.path_backslash)

theorem code_of_line (text : Bytes) (next : Option UInt8) :
    Mode.code.after (import_.line text) next = .code ∧
      Mode.code.viewBefore (import_.line text) next =
        import_.opening.map some ++
          (List.replicate ((utf8 import_.path).length + 2) none ++
            (utf8 ";" ++ lineBreak text).map some) := by
  have hsemicolon := isPlain_semicolon text
  have hquoted := code_literalText (show isQuote apostrophe = true by decide)
    import_.quoted_path
  constructor
  · rw [import_.line_eq, Mode.after_append, Mode.after_code_of_plain import_.isPlain_opening,
      Mode.after_append, (hquoted _).1, Mode.after_code_of_plain hsemicolon]
  · rw [import_.line_eq, Mode.viewBefore_append,
      Mode.after_code_of_plain import_.isPlain_opening,
      Mode.viewBefore_code_of_plain import_.isPlain_opening, Mode.viewBefore_append,
      (hquoted _).1, (hquoted _).2, Mode.viewBefore_code_of_plain hsemicolon]

theorem codeView_line_append (text rest : Bytes) :
    codeView (import_.line text ++ rest) = codeView (import_.line text) ++ codeView rest := by
  rw [codeView, Mode.view_append, (import_.code_of_line text _).1, codeView_eq_viewBefore,
    (import_.code_of_line text _).2, (import_.code_of_line text _).2]
  rfl

theorem endsInCode_line_append (text : Bytes) {rest : Bytes} (hrest : EndsInCode rest) :
    EndsInCode (import_.line text ++ rest) := by
  rw [EndsInCode, Mode.after_append, (import_.code_of_line text _).1]
  exact hrest

theorem marker_not_mem_line (text : Bytes) : some 0x40 ∉ codeView (import_.line text) := by
  have hname : (0x40 : UInt8) ∉ utf8 import_.name := by
    intro hmem
    have hident := List.all_eq_true.mp import_.name_isIdent _ hmem
    cases hident
  have hopening : (0x40 : UInt8) ∉ import_.opening := by
    rw [Import.opening, List.mem_append, List.mem_append, not_or, not_or]
    exact ⟨⟨by decide, hname⟩, by decide⟩
  have hsemicolon : (0x40 : UInt8) ∉ utf8 ";" ++ lineBreak text := by
    rw [List.mem_append, not_or]
    refine ⟨by decide, ?_⟩
    intro hmem
    have hblank := List.all_eq_true.mp (isBlank_lineBreak text) _ hmem
    cases hblank
  rw [codeView_eq_viewBefore, (import_.code_of_line text _).2, List.mem_append,
    List.mem_append, not_or, not_or]
  exact ⟨by simpa using hopening, by simp, by simpa using hsemicolon⟩

end QuotedImport

namespace Balanced

theorem MarkerFree.append_left {left right : CodeView} (hright : MarkerFree right)
    (hleft : some 0x40 ∉ left) : MarkerFree (left ++ right) := by
  intro before blank after hblank hview
  rcases List.append_eq_append_iff.mp hview with ⟨more, rfl, hmore⟩ | ⟨more, rfl, hmore⟩
  · exact hright more blank after hblank hmore
  · cases more with
    | nil => exact hright [] blank after hblank hmore.symm
    | cons code more =>
        obtain ⟨rfl, -⟩ := List.cons.inj hmore
        exact hleft (List.mem_append_right _ List.mem_cons_self)

def Frame.withImport (frame : Frame) (import_ : QuotedImport) (text : Bytes) : Frame where
  lead := import_.line text ++ frame.lead
  blank := frame.blank
  rest := frame.rest
  lead_ends := import_.endsInCode_line_append text frame.lead_ends
  lead_free := by
    rw [import_.codeView_line_append]
    exact frame.lead_free.append_left (import_.marker_not_mem_line text)
  blank_isBlank := frame.blank_isBlank

end Balanced

end Extraction
