import Extraction.Naming
import Extraction.Proofs.ImportLine
/-!
The names that default options derive from a hyphenated identifier of small letters and digits.
The class name and the module path make an import, and the tag can stand in every literal.
-/

namespace Extraction

open Byte

def isSlugChar (c : Char) : Bool :=
  (0x61 ≤ c.toNat && c.toNat ≤ 0x7A) || (0x30 ≤ c.toNat && c.toNat ≤ 0x39)

/-- Segments of small letters and digits with a hyphen between them. -/
inductive IsSlug : List Char → Prop
  | segment {cs : List Char} (hne : cs ≠ []) (hall : cs.all isSlugChar = true) : IsSlug cs
  | hyphen {cs rest : List Char} (hne : cs ≠ []) (hall : cs.all isSlugChar = true)
      (hrest : IsSlug rest) : IsSlug (cs ++ '-' :: rest)

theorem IsSlug.forall_mem {cs : List Char} (hslug : IsSlug cs) :
    ∀ c ∈ cs, isSlugChar c = true ∨ c = '-' := by
  induction hslug with
  | segment _ hall => exact fun c hc => .inl (List.all_eq_true.mp hall c hc)
  | hyphen _ hall _ ih =>
      intro c hc
      rw [List.mem_append, List.mem_cons] at hc
      rcases hc with hc | rfl | hc
      · exact .inl (List.all_eq_true.mp hall c hc)
      · exact .inr rfl
      · exact ih c hc

theorem isSymbolChar_upperChar {c : Char} (hslug : isSlugChar c = true) :
    isSymbolChar c = true ∧ (upperChar c).all isSymbolChar = true := by
  have hcodes : ∀ code < 0x80, isSlugChar (Char.ofNat code) = true →
      isSymbolChar (Char.ofNat code) = true ∧
        (upperChar (Char.ofNat code)).all isSymbolChar = true := by
    decide +kernel
  have hcode : c.toNat < 0x80 := by
    simp only [isSlugChar, Bool.or_eq_true, Bool.and_eq_true, decide_eq_true_eq] at hslug
    omega
  have hchar := hcodes c.toNat hcode
  rw [Char.ofNat_toNat] at hchar
  exact hchar hslug

theorem isSymbolChar_pascalChars {cs : List Char}
    (hcs : ∀ c ∈ cs, isSlugChar c = true ∨ c = '-') (atStart : Bool) :
    (pascalChars atStart cs).all isSymbolChar = true := by
  induction atStart, cs using pascalChars.induct with
  | case1 atStart => rfl
  | case2 atStart rest ih =>
      rw [pascalChars]
      exact ih fun c hc => hcs c (List.mem_cons_of_mem _ hc)
  | case3 atStart c rest hne ih =>
      have hslug : isSlugChar c = true := (hcs c List.mem_cons_self).resolve_right hne
      obtain ⟨hsymbol, hupper⟩ := isSymbolChar_upperChar hslug
      have hrest := ih fun c hc => hcs c (List.mem_cons_of_mem _ hc)
      rw [pascalChars.eq_3 _ _ _ hne, List.all_append, hrest]
      cases atStart
      · simpa using hsymbol
      · simpa using hupper

theorem not_mem_slugChars {cs : List Char} (hcs : ∀ c ∈ cs, isSlugChar c = true ∨ c = '-')
    {c : Char} (hchar : isSlugChar c = false) (hhyphen : c ≠ '-') : c ∉ cs := by
  intro hmem
  rcases hcs c hmem with hc | hc
  · rw [hchar] at hc
    cases hc
  · exact hhyphen hc

namespace Identifier

variable (identifier : Identifier) (hslug : IsSlug identifier.text.toList)
include hslug

theorem isSymbolChar_symbolicName :
    (NamingOptions.derive {} identifier).symbolicName.toList.all isSymbolChar = true := by
  have hpascal := isSymbolChar_pascalChars hslug.forall_mem true
  simp only [NamingOptions.derive, SuffixPolicy.apply, pascalCase, String.toList_append,
    String.toList_ofList, List.all_append, hpascal, Bool.true_and]
  decide

theorem not_mem_modulePath {c : Char} (hchar : isSlugChar c = false) (hhyphen : c ≠ '-')
    (haround : c ∉ "./.component".toList) :
    c ∉ (NamingOptions.derive {} identifier).modulePath.toList := by
  have hmem := not_mem_slugChars hslug.forall_mem hchar hhyphen
  rw [ComponentNames.modulePath, NamingOptions.derive]
  simp only [String.toList_append, List.mem_append, not_or]
  exact ⟨fun h => haround (List.mem_append_left ".component".toList h), hmem,
    fun h => haround (List.mem_append_right "./".toList h)⟩

theorem not_mem_selector {c : Char} (hchar : isSlugChar c = false) (hhyphen : c ≠ '-') :
    c ∉ (NamingOptions.selector {} identifier).toList := by
  have happ : c ∉ "app-".toList := by
    intro hmem
    have hslugs : ("app-".toList.all fun b => isSlugChar b || b == '-') = true := by decide
    have hc := List.all_eq_true.mp hslugs c hmem
    simp [hchar, hhyphen] at hc
  have hmem := not_mem_slugChars hslug.forall_mem hchar hhyphen
  rw [NamingOptions.selector, if_neg (by decide), String.toList_append, List.mem_append, not_or]
  exact ⟨happ, hmem⟩

theorem not_mem_referenceTag {c : Char} (hchar : isSlugChar c = false) (hhyphen : c ≠ '-')
    (haround : c ∉ "<></>".toList) :
    c ∉ (NamingOptions.derive {} identifier).referenceTag.toList := by
  have hselector := identifier.not_mem_selector hslug hchar hhyphen
  have hopen : c ∉ "<".toList := fun h => haround (List.mem_append_left "></>".toList h)
  have hmiddle : c ∉ "></".toList :=
    fun h => haround (List.mem_append_right "<".toList (List.mem_append_left ">".toList h))
  have hclose : c ∉ ">".toList := fun h => haround (List.mem_append_right "<></".toList h)
  rw [NamingOptions.derive, TagStyle.render]
  simp only [String.toList_append, List.mem_append, not_or]
  exact ⟨⟨⟨⟨hopen, hselector⟩, hmiddle⟩, hselector⟩, hclose⟩

theorem quoted_referenceTag {quote : UInt8} (hquote : isQuote quote = true) :
    Quoted quote (utf8 (NamingOptions.derive {} identifier).referenceTag) := by
  have hchar : ∃ c : Char, c.val.toNat = quote.toNat ∧ quote.toNat < 0x80 ∧
      isSlugChar c = false ∧ c ≠ '-' ∧ c ∉ "<></>".toList := by
    simp only [isQuote, Bool.or_eq_true, beq_iff_eq] at hquote
    rcases hquote with (rfl | rfl) | rfl
    · exact ⟨'\u0027', by decide⟩
    · exact ⟨'\u0022', by decide⟩
    · exact ⟨'\u0060', by decide⟩
  obtain ⟨c, hval, hascii, hchar, hhyphen, haround⟩ := hchar
  have hbackslash := identifier.not_mem_referenceTag hslug
    (show isSlugChar '\\' = false by decide) (by decide) (by decide)
  exact .of_not_mem
    (not_mem_utf8 hval hascii (identifier.not_mem_referenceTag hslug hchar hhyphen haround))
    (not_mem_utf8 rfl (by decide) hbackslash)

def slugImport : QuotedImport where
  name := (NamingOptions.derive {} identifier).symbolicName
  path := (NamingOptions.derive {} identifier).modulePath
  name_ne := by
    intro hempty
    have hlength := congrArg String.length hempty
    simp [NamingOptions.derive, SuffixPolicy.apply] at hlength
  name_symbol := identifier.isSymbolChar_symbolicName hslug
  path_apostrophe := identifier.not_mem_modulePath hslug (by decide) (by decide) (by decide)
  path_backslash := identifier.not_mem_modulePath hslug (by decide) (by decide) (by decide)

end Identifier

end Extraction
