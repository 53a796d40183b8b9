import Extraction.Proofs.Boundaries
import Extraction.Proofs.ScanResult
import Extraction.Proofs.TrueBlock
/-!
The two strategies agree on plain blocks: in a block without literals and comments, with nested
brackets and ASCII white space, whose keys stand directly in it and whose lists hold no bracket,
the first `})` is where the brace of the block is closed, and the first bracket behind a key is
the one that closes its list.
-/

namespace Extraction

open Byte Bytes CodeView
open Extraction.Balanced (IsBlank openingText keyText length_keyText)

/-- A bracket that is opened before a position of a text is closed behind it. -/
def Bracketed (left right : Bytes) : Prop :=
  ∃ outer opener first second closer rest, Pairs opener closer ∧
    left = outer ++ opener :: first ∧ right = second ++ closer :: rest ∧
    Nested ((first ++ second).map some)

theorem exists_of_map_some_eq {text : Bytes} {left right : CodeView} {b : UInt8}
    (h : text.map some = left ++ some b :: right) :
    ∃ first second, text = first ++ b :: second ∧ left = first.map some ∧
      right = second.map some := by
  obtain ⟨first, tail, rfl, rfl, htail⟩ := List.map_eq_append_iff.mp h
  obtain ⟨c, second, rfl, hc, rfl⟩ := List.map_eq_cons_iff.mp htail
  obtain rfl := Option.some.inj hc
  exact ⟨first, second, rfl, rfl, rfl⟩

theorem not_bracketed_iff {left right : Bytes} (hnested : Nested ((left ++ right).map some)) :
    ¬ Bracketed left right ↔ blockDepth? 0 (left.map some) = some 0 := by
  rw [List.map_append] at hnested
  obtain ⟨depth, hdepth, -⟩ := exists_depth?_of_append (hnested.blockDepth?_eq 0)
  constructor
  · intro hfree
    cases depth with
    | zero => exact hdepth
    | succ depth =>
        obtain ⟨outer, opener, first, second, closer, rest, hpairs, hleft, hright, hinner⟩ :=
          hnested.exists_enclosing rfl hdepth
        obtain ⟨outer, first, rfl, -, rfl⟩ := exists_of_map_some_eq hleft
        obtain ⟨second, rest, rfl, rfl, -⟩ := exists_of_map_some_eq hright
        rw [← List.map_append] at hinner
        exact absurd ⟨outer, opener, first, second, closer, rest, hpairs, rfl, rfl, hinner⟩ hfree
  · rintro hzero ⟨outer, opener, first, second, closer, rest, hpairs, rfl, rfl, hinner⟩
    rw [List.map_append] at hinner
    obtain ⟨extra, hfirst, -⟩ := exists_depth?_of_append (hinner.blockDepth?_eq 0)
    rw [List.map_append] at hzero
    exact absurd (depth_pos_of_opener (not_isOpener_of_pairs hpairs).1 hfirst hzero)
      (Nat.lt_irrefl 0)

theorem FirstClose.KeyFree.listFree {text : Bytes} (hfree : FirstClose.KeyFree text) :
    FirstClose.ListFree text :=
  fun left before after contents right hbefore hafter htext =>
    hfree left before after (contents ++ closeBracket :: right) hbefore hafter htext

theorem closeBracket_not_mem_of_nested {view : CodeView} (hnested : Nested view)
    (hopen : some openBracket ∉ view) : some closeBracket ∉ view := by
  induction hnested with
  | nil => simp
  | @skip code rest hcode hrest ih =>
      rw [List.mem_cons, not_or] at hopen ⊢
      refine ⟨?_, ih hopen.2⟩
      rintro rfl
      simpa [isCloser] using (hcode closeBracket rfl).2
  | @wrap opener closer inner rest hpairs hinner hrest ihInner ihRest =>
      simp only [List.cons_append, List.mem_cons, List.mem_append, not_or] at hopen ⊢
      obtain ⟨hopener, hinnerOpen, -, hrestOpen⟩ := hopen
      refine ⟨?_, ihInner hinnerOpen, ?_, ihRest hrestOpen⟩
      · rcases hpairs with ⟨rfl, rfl⟩ | ⟨rfl, rfl⟩ | ⟨rfl, rfl⟩ <;> decide
      · rcases hpairs with ⟨rfl, rfl⟩ | ⟨rfl, rfl⟩ | ⟨rfl, rfl⟩
        · decide
        · exact absurd rfl hopener
        · decide

def asciiWhiteSpace : List Char :=
  [' ', '\t', '\n', '\x0C', '\r']

/-- The body of a block that both strategies read alike. Every match of a key with its bracket
stands outside the brackets of the body and not right behind an identifier, and its list holds no
other opening bracket. -/
structure PlainBody (body : String) : Prop where
  plain : (utf8 body).all isPlain = true
  ascii : ∀ c ∈ body.toList, isWhiteSpace c = true → c ∈ asciiWhiteSpace
  nested : Nested ((utf8 body).map some)
  unclosed : FirstClose.Unclosed (utf8 body)
  keys : ∀ left before after right, IsWhite before → IsWhite after →
    utf8 body = left ++ (keyText before after ++ right) →
      ¬ Bracketed left (keyText before after ++ right) ∧
      left.getLast?.any isIdent = false ∧
      ∀ contents rest, right = contents ++ closeBracket :: rest → Nested (contents.map some) →
        openBracket ∉ contents

namespace PlainBody

variable {body : String} (hbody : PlainBody body)
include hbody

theorem isBlank {white : Bytes} (hwhite : IsWhite white) (hsub : white <:+: utf8 body) :
    IsBlank white := by
  obtain ⟨words, hwords, rfl⟩ := hwhite
  rw [IsBlank, List.all_flatten, List.all_eq_true]
  intro word hmem
  obtain ⟨c, hc, rfl⟩ := List.mem_map.mp (hwords word hmem)
  have hin : c ∈ body.toList :=
    mem_of_utf8EncodeChar_infix ((List.infix_of_mem_flatten hmem).trans hsub)
  have hblank : (asciiWhiteSpace.all fun c => (String.utf8EncodeChar c).all isAsciiBlank) =
      true := by decide
  exact List.all_eq_true.mp hblank c (hbody.ascii c hin (List.elem_eq_true_of_mem hc))

theorem key {left before after right : Bytes} (hbefore : IsWhite before) (hafter : IsWhite after)
    (hkey : utf8 body = left ++ (keyText before after ++ right)) :
    IsBlank before ∧ IsBlank after ∧ blockDepth? 0 (left.map some) = some 0 ∧
      ((left.map some).getLast?.getD (some openBrace)).any isIdent = false := by
  obtain ⟨hfree, hprevious, -⟩ := hbody.keys left before after right hbefore hafter hkey
  refine ⟨hbody.isBlank hbefore ⟨left ++ listKey, colon :: (after ++ openBracket :: right), ?_⟩,
    hbody.isBlank hafter ⟨left ++ (listKey ++ before ++ [colon]), openBracket :: right, ?_⟩,
    (not_bracketed_iff (hkey ▸ hbody.nested)).mp hfree, ?_⟩
  · simp [hkey, keyText]
  · simp [hkey, keyText]
  · rw [List.getLast?_map]
    cases hlast : left.getLast? with
    | none => rfl
    | some b =>
        rw [hlast] at hprevious
        exact hprevious

theorem keyFree {left right : Bytes} (hleft : utf8 body = left ++ right)
    (hfree : Balanced.KeyFree 0 (some openBrace) (left.map some)) : FirstClose.KeyFree left := by
  rintro first before after second hbefore hafter rfl
  obtain ⟨hbefore, hafter, hdepth, hprevious⟩ :=
    @key body hbody first before after (second ++ right) hbefore hafter (by simp [hleft])
  have hident := hfree (first.map some) before after (second.map some) (by simp) hbefore hafter
    hdepth
  rw [hprevious] at hident
  cases hident

/-- A plain body has a list that both strategies find, or none. -/
theorem bare_or_listed :
    (Balanced.BareBody 0 (some openBrace) ((utf8 body).map some) ∧
        FirstClose.KeyFree (utf8 body)) ∨
      ∃ left before after contents right,
        utf8 body = left ++ (keyText before after ++ (contents ++ closeBracket :: right)) ∧
        Balanced.ListedBody 0 (some openBrace) (left.map some) before after
          (contents.map some) (right.map some) ∧
        FirstClose.KeyFree left ∧ closeBracket ∉ contents := by
  rcases Balanced.bare_or_listed hbody.nested with hbare | ⟨left, before, after, contents, right,
      hview, hlisted, hcontents⟩
  · exact .inl ⟨hbare, hbody.keyFree (List.append_nil _).symm hbare.free⟩
  · right
    obtain ⟨left, more, hleft, rfl, hmore⟩ := List.map_eq_append_iff.mp hview
    obtain ⟨key, tail, rfl, hkey, htail⟩ := List.map_eq_append_iff.mp hmore
    obtain rfl := (List.map_inj_right fun _ _ => Option.some.inj).mp hkey
    obtain ⟨contents, right, rfl, rfl, rfl⟩ := exists_of_map_some_eq htail
    obtain ⟨-, -, hflat⟩ := hbody.keys left before after _ hlisted.before_blank.isWhite
      hlisted.after_blank.isWhite hleft
    refine ⟨left, before, after, contents, right, hleft, hlisted,
      hbody.keyFree hleft hlisted.left_free, ?_⟩
    have hopen := hflat contents right rfl hcontents
    simpa using closeBracket_not_mem_of_nested hcontents (by simpa using hopen)

end PlainBody

/-- What surrounds a plain block: a text without literals, comments and markers before it, the
ASCII white space behind its marker, and any text behind it. -/
structure PlainFrame where
  lead : Bytes
  blank : Bytes
  rest : Bytes
  lead_plain : lead.all isPlain = true
  lead_free : 0x40 ∉ lead
  blank_isBlank : IsBlank blank

namespace PlainFrame

variable (frame : PlainFrame)

def text (body : Bytes) : Bytes :=
  frame.lead ++ (openingText frame.blank ++ (body ++ closeBrace :: closeParen :: frame.rest))

def firstClose : FirstClose.Frame where
  lead := frame.lead
  white := frame.blank
  rest := frame.rest
  lead_free := by
    rintro left white right - hlead
    refine frame.lead_free ?_
    rw [hlead]
    exact List.mem_append_right _ (List.mem_append_left _ List.mem_cons_self)
  white_isWhite := frame.blank_isBlank.isWhite

def balanced : Balanced.Frame where
  lead := frame.lead
  blank := frame.blank
  rest := closeParen :: frame.rest
  lead_ends := .of_plain frame.lead_plain
  lead_free := by
    rw [codeView_of_plain frame.lead_plain]
    exact .of_not_mem (by simpa using frame.lead_free)
  blank_isBlank := frame.blank_isBlank

theorem text_firstClose (body : Bytes) : frame.firstClose.text body = frame.text body := by
  simp [FirstClose.Frame.text, FirstClose.blockText, firstClose, text]

theorem bodyStart_eq : frame.firstClose.bodyStart = frame.balanced.bodyStart := by
  simp [FirstClose.Frame.bodyStart, Balanced.Frame.bodyStart, firstClose, balanced]
  omega

theorem block_eq (body : Bytes) : frame.firstClose.block body = frame.balanced.block body := by
  rw [FirstClose.Frame.block, bodyStart_eq, frame.balanced.block_of_closeParen rfl]
  rfl

/-- Both strategies find the same declaration in a plain block. -/
theorem exists_declaration {body : String} (hbody : PlainBody body) :
    ∃ declaration, FirstClose.scan (frame.text (utf8 body)) = some declaration ∧
      Balanced.scan (frame.text (utf8 body)) = some declaration := by
  rcases hbody.bare_or_listed with ⟨hbare, hfree⟩ |
      ⟨left, before, after, contents, right, hpieces, hlisted, hfree, hclose⟩
  · rw [← codeView_of_plain hbody.plain] at hbare
    let bare : Balanced.BareSource := ⟨frame.balanced, utf8 body, .of_plain hbody.plain, hbare⟩
    let other : FirstClose.BareSource :=
      ⟨frame.firstClose, utf8 body, hbody.unclosed, FirstClose.KeyFree.listFree hfree⟩
    refine ⟨⟨bare.block, none⟩, ?_, bare.scan_text⟩
    have hscan := other.scan_text
    rwa [FirstClose.BareSource.text, text_firstClose, FirstClose.BareSource.block, block_eq]
      at hscan
  · have hunclosed := hbody.unclosed
    have hplain := hbody.plain
    rw [hpieces] at hunclosed hplain
    simp only [List.all_append, List.all_cons, Bool.and_eq_true] at hplain
    obtain ⟨hleft, -, hcontents, -, hright⟩ := hplain
    rw [← codeView_of_plain hleft, ← codeView_of_plain hcontents, ← codeView_of_plain hright]
      at hlisted
    let listed : Balanced.ListedSource :=
      ⟨frame.balanced, left, before, after, contents, right, .of_plain hleft,
        .of_plain hcontents, .of_plain hright, hlisted⟩
    let other : FirstClose.ListedSource :=
      ⟨frame.firstClose, left, before, after, contents, right, hunclosed, hfree,
        hlisted.before_blank.isWhite, hlisted.after_blank.isWhite, hclose⟩
    rw [hpieces]
    refine ⟨⟨listed.block, some listed.list⟩, ?_, listed.scan_text⟩
    have hlist : other.list = listed.list := by
      simp [FirstClose.ListedSource.list, Balanced.ListedSource.list, FirstClose.listAt,
        Balanced.listedAt, other, listed, bodyStart_eq]
    have hscan := other.scan_text
    rwa [FirstClose.ListedSource.text, text_firstClose, FirstClose.ListedSource.block, block_eq,
      hlist] at hscan

end PlainFrame

/-- On a text whose first marker starts a plain block the strategies find the same declaration,
whatever stands behind the block, and rewire the text alike. -/
theorem strategies_agree_of_plain {lead blank rest : Bytes} {body : String}
    (hlead : lead.all isPlain = true) (hmarker : 0x40 ∉ lead) (hblank : IsBlank blank)
    (hbody : PlainBody body) :
    let text := lead ++ (openingText blank ++ (utf8 body ++ closeBrace :: closeParen :: rest))
    ∃ declaration, FirstClose.scan text = some declaration ∧
      Balanced.scan text = some declaration ∧
      ∀ symbolicName modulePath, rewire text symbolicName modulePath .firstClose =
        rewire text symbolicName modulePath .balanced := by
  intro text
  let frame : PlainFrame := ⟨lead, blank, rest, hlead, hmarker, hblank⟩
  obtain ⟨declaration, hfirst, hbalanced⟩ := frame.exists_declaration hbody
  have hfirst : FirstClose.scan text = some declaration := hfirst
  have hbalanced : Balanced.scan text = some declaration := hbalanced
  refine ⟨declaration, hfirst, hbalanced, fun symbolicName modulePath => ?_⟩
  simp only [rewire, BlockScan.scan, hfirst, hbalanced]

/-- Brackets of other kinds around the list, and an open quote and a marker behind the block. -/
theorem strategies_agree_of_plain_listed :
    let text := utf8 ("import x;\n@Component( \x7b a: \x7b f: (x) \x7d, imports: [A, B], " ++
      "b: g(1) \x7d) '\x7d @Component(")
    let declaration : Declaration := ⟨⟨10, 66, 22, 64⟩, some ⟨39, 54, ⟨49, 53⟩⟩⟩
    FirstClose.scan text = some declaration ∧ Balanced.scan text = some declaration ∧
      rewire text "C" "./c" .firstClose = rewire text "C" "./c" .balanced := by
  intro text declaration
  let body := " a: \x7b f: (x) \x7d, imports: [A, B], b: g(1) "
  have hkeys : ∀ offset < (utf8 body).length, listKey <+: (utf8 body).drop offset →
      offset = 16 := by decide +kernel
  have hbrackets : (utf8 body).count openBracket = 1 := by decide +kernel
  have hnested : Nested ((utf8 body).map some) := by decide +kernel
  have hascii : (body.toList.all fun c => !isWhiteSpace c || asciiWhiteSpace.contains c) =
      true := by decide +kernel
  have hbody : PlainBody body := by
    refine ⟨by decide +kernel, fun c hc hwhite => ?_, hnested, ?_, ?_⟩
    · simpa [hwhite] using List.all_eq_true.mp hascii c hc
    · unfold FirstClose.Unclosed
      decide +kernel
    · intro left before after right hbefore hafter hkey
      have hlength : left.length = 16 := by
        refine hkeys left.length ?_ ?_
        · rw [hkey, List.length_append, List.length_append, length_keyText]
          omega
        · rw [hkey, List.drop_left]
          exact ⟨_, by simp [keyText]; rfl⟩
      have hleft : left = (utf8 body).take 16 := by
        rw [hkey, ← hlength, List.take_left]
      refine ⟨(not_bracketed_iff (hkey ▸ hnested)).mpr ?_, ?_, ?_⟩
      · rw [hleft]
        decide +kernel
      · rw [hleft]
        decide +kernel
      · rintro contents rest rfl - hmem
        have hpos := List.count_pos_iff.mpr hmem
        rw [hkey] at hbrackets
        simp only [keyText, List.count_append, List.count_cons, beq_self_eq_true, if_true]
          at hbrackets
        omega
  obtain ⟨found, hfirst, hbalanced, hrewire⟩ :=
    @strategies_agree_of_plain (utf8 "import x;\n") [space] (utf8 " '\x7d @Component(") body
      (by decide +kernel) (by decide +kernel) (by decide) hbody
  have htext : utf8 "import x;\n" ++ (openingText [space] ++ (utf8 body ++
      closeBrace :: closeParen :: utf8 " '\x7d @Component(")) = text := by decide +kernel
  rw [htext] at hfirst hbalanced
  have hfound : FirstClose.scan text = some declaration := by decide +kernel
  obtain rfl := Option.some.inj (hfirst.symm.trans hfound)
  exact ⟨hfirst, hbalanced, htext ▸ hrewire "C" "./c"⟩

end Extraction
