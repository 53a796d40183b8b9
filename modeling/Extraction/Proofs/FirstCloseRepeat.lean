import Extraction.Proofs.Repeat
import Extraction.Proofs.Rewritten
/-!
Imports into one text, one after the other, under the plain text heuristic. Neither an import
line nor a name in front of a list gives the text an earlier marker, an earlier end of the block
or an earlier key, and none arises where the pieces meet: a marker and a key start with a byte
that they have only once, and what is put into the block has no closing brace.
-/

namespace Extraction.FirstClose

open Byte Bytes
open Extraction.Balanced (openingText keyText IsBlank separator listProperty_eq)

/-! Pieces without the end of a block. -/

theorem Unclosed.of_infix {text piece : Bytes} (hunclosed : Unclosed text)
    (hsub : piece <:+: text) : Unclosed piece :=
  fun hpiece => hunclosed (hpiece.trans hsub)

theorem unclosed_of_not_mem {text : Bytes} (hmem : closeBrace ∉ text) : Unclosed text :=
  fun hsub => hmem (hsub.subset List.mem_cons_self)

/-- The end of a block lies in one of two pieces, or the first ends and the second starts with
its halves. -/
theorem Unclosed.append {left right : Bytes} (hleft : Unclosed left) (hright : Unclosed right)
    (hmeet : left.getLast? ≠ some closeBrace ∨ right.head? ≠ some closeParen) :
    Unclosed (left ++ right) := by
  rintro ⟨first, second, htext⟩
  rw [List.append_assoc] at htext
  rcases List.append_eq_append_iff.mp htext with ⟨middle, rfl, hmiddle⟩ | ⟨middle, rfl, hmiddle⟩
  · rcases middle with _ | ⟨a, _ | ⟨b, middle⟩⟩
    · exact hright ⟨[], second, by simpa using hmiddle⟩
    · simp only [List.cons_append, List.nil_append, List.cons.injEq] at hmiddle
      obtain ⟨rfl, hmiddle⟩ := hmiddle
      rcases hmeet with hmeet | hmeet
      · simp at hmeet
      · rw [← hmiddle] at hmeet
        simp at hmeet
    · simp only [List.cons_append, List.nil_append, List.cons.injEq] at hmiddle
      obtain ⟨rfl, rfl, -⟩ := hmiddle
      exact hleft ⟨first, middle, by simp⟩
  · exact hright ⟨middle, second, by rw [List.append_assoc]; exact hmiddle.symm⟩

theorem Unclosed.append_cons {left right : Bytes} {b : UInt8} (hleft : Unclosed left)
    (hright : Unclosed (b :: right)) (hb : b ≠ closeParen) : Unclosed (left ++ b :: right) :=
  hleft.append hright (.inr fun hhead => hb (Option.some.inj hhead))

theorem Unclosed.append_of_not_mem {left right : Bytes} (hleft : closeBrace ∉ left)
    (hright : Unclosed right) : Unclosed (left ++ right) :=
  (unclosed_of_not_mem hleft).append hright
    (.inl fun hlast => hleft (List.mem_of_getLast? hlast))

theorem closeBrace_not_mem_keyText {before after : Bytes} (hbefore : IsWhite before)
    (hafter : IsWhite after) : closeBrace ∉ keyText before after := by
  simp only [keyText, List.mem_append, List.mem_cons, not_or]
  exact ⟨⟨by decide, hbefore.not_mem (by decide)⟩, by decide, hafter.not_mem (by decide),
    by decide⟩

theorem unclosed_listed {left before after contents right : Bytes} (hleft : Unclosed left)
    (hbefore : IsWhite before) (hafter : IsWhite after) (hcontents : Unclosed contents)
    (hright : Unclosed right) :
    Unclosed (left ++ (keyText before after ++ (contents ++ closeBracket :: right))) := by
  have hclosing : Unclosed (closeBracket :: right) :=
    .append_of_not_mem (show closeBrace ∉ [closeBracket] by decide) hright
  have hcontents := hcontents.append_cons hclosing (by decide)
  have hkey := Unclosed.append_of_not_mem (closeBrace_not_mem_keyText hbefore hafter) hcontents
  exact @Unclosed.append_cons left _ 0x69 hleft hkey (by decide)

/-! Pieces without a key. -/

theorem KeyFree.of_infix {text piece : Bytes} (hfree : KeyFree text) (hsub : piece <:+: text) :
    KeyFree piece := by
  rintro left before after right hbefore hafter rfl
  obtain ⟨first, second, rfl⟩ := hsub
  exact hfree (first ++ left) before after (right ++ second) hbefore hafter (by simp)

theorem comma_not_mem_keyText {before after : Bytes} (hbefore : IsWhite before)
    (hafter : IsWhite after) : comma ∉ keyText before after := by
  simp only [keyText, List.mem_append, List.mem_cons, not_or]
  exact ⟨⟨by decide, hbefore.comma_not_mem⟩, by decide, hafter.comma_not_mem, by decide⟩

theorem KeyFree.append_comma {left right : Bytes} (hleft : KeyFree left)
    (hright : KeyFree right) : KeyFree (left ++ comma :: right) := by
  intro first before after second hbefore hafter htext
  have hcomma := comma_not_mem_keyText hbefore hafter
  rcases List.append_eq_append_iff.mp htext with ⟨middle, rfl, hmiddle⟩ | ⟨middle, rfl, hmiddle⟩
  · cases middle with
    | nil => cases hmiddle
    | cons b middle =>
        obtain ⟨rfl, rfl⟩ := List.cons.inj hmiddle
        exact hright middle before after second hbefore hafter rfl
  · obtain ⟨more, rfl, -⟩ := exists_of_append_eq_append_cons hmiddle hcomma
    exact hleft first before after more hbefore hafter rfl

theorem KeyFree.append_blank {left blank : Bytes} (hleft : KeyFree left) (hblank : IsBlank blank) :
    KeyFree (left ++ blank) := by
  intro first before after second hbefore hafter htext
  have hbracket : openBracket ∉ blank := by
    intro hmem
    have hfound := List.all_eq_true.mp hblank _ hmem
    cases hfound
  have hsplit : left ++ blank = (first ++ (listKey ++ before ++ colon :: after)) ++
      openBracket :: second := by
    rw [htext]
    simp [keyText]
  obtain ⟨middle, rfl, -⟩ := exists_of_append_eq_append_cons_of_not_mem hsplit hbracket
  exact hleft first before after middle hbefore hafter (by simp [keyText])

/-! A new list in a body. -/

/-- The pieces around a new list have no key before it and do not end the block. -/
theorem exists_of_placed {symbolicName : String} {lineBreak body new : Bytes}
    (hplaced : Placed symbolicName lineBreak body new) (hbreak : IsBlank lineBreak)
    (hbody : Unclosed body) (hfree : KeyFree body) :
    ∃ left right, new = left ++ (listProperty symbolicName [] ++ right) ∧ KeyFree left ∧
      Unclosed left ∧ Unclosed right := by
  cases hplaced with
  | alone => exact ⟨body, [], by simp, hfree, hbody, unclosed_of_not_mem (by simp)⟩
  | @behind byte code line right indent hpieces hcomma hindent =>
      obtain ⟨init, hinit, hsub⟩ : ∃ init, code ++ separator byte = init ++ [comma] ∧
          init <:+: body := by
        rw [hpieces]
        by_cases hbyte : byte = comma
        · obtain ⟨init, rfl⟩ := hcomma hbyte
          exact ⟨init, by simp [separator, hbyte], ⟨[], comma :: (line ++ right), by simp⟩⟩
        · exact ⟨code, by simp [separator, hbyte], ⟨[], line ++ right, by simp⟩⟩
      have hline : line <:+: body := ⟨code, right, by rw [hpieces]; simp⟩
      have hright : right <:+: body := ⟨code ++ line, [], by rw [hpieces]; simp⟩
      have hstart : IsBlank (lineBreak ++ indent) := by
        rw [IsBlank, List.all_append, hbreak, hindent]
        rfl
      refine ⟨init ++ comma :: (line ++ (lineBreak ++ indent)), right, ?_, ?_, ?_,
        hbody.of_infix hright⟩
      · rw [← List.append_assoc, hinit]
        simp
      · exact (hfree.of_infix hsub).append_comma
          ((hfree.of_infix hline).append_blank hstart)
      · have hblank : ∀ b, isAsciiBlank b = false → b ∉ lineBreak ++ indent := by
          intro b hb hmem
          rw [List.all_eq_true.mp hstart b hmem] at hb
          cases hb
        have hend : Unclosed (line ++ (lineBreak ++ indent)) :=
          (hbody.of_infix hline).append (unclosed_of_not_mem (hblank _ (by decide)))
            (.inr fun hhead => hblank closeParen (by decide) (List.mem_of_head? hhead))
        exact (hbody.of_infix hsub).append_cons
          (.append_of_not_mem (show closeBrace ∉ [comma] by decide) hend) (by decide)

/-! Imports. -/

/-- An import from a path without the character that starts a marker. -/
structure UnmarkedImport extends Import where
  path_marker : '@' ∉ path.toList

theorem UnmarkedImport.at_not_mem_line (import_ : UnmarkedImport) (text : Bytes) :
    0x40 ∉ import_.line text := by
  have hname : 0x40 ∉ utf8 import_.name :=
    (isNames_of_isIdent import_.name_isIdent).not_mem (by decide) (by decide)
  have hpath : 0x40 ∉ utf8 import_.path := not_mem_utf8 rfl (by decide) import_.path_marker
  have hend : 0x40 ∉ lineBreak text := by
    intro hmem
    have hblank := List.all_eq_true.mp (isBlank_lineBreak text) _ hmem
    cases hblank
  rw [← import_.importStatement_eq_line]
  simp only [importStatement, List.mem_append, not_or]
  exact ⟨⟨⟨⟨⟨by decide, hname⟩, by decide⟩, hpath⟩, by decide⟩, hend⟩

theorem MarkerFree.append_left {left right : Bytes} (hright : MarkerFree right)
    (hleft : 0x40 ∉ left) : MarkerFree (left ++ right) := by
  intro before white after hwhite htext
  obtain ⟨middle, rfl, hmiddle⟩ := exists_of_append_eq_append_cons
    (show left ++ right = before ++ 0x40 :: ((openingText white).tail ++ after) from htext) hleft
  exact hright middle white after hwhite hmiddle

def Frame.withImport (frame : Frame) (import_ : UnmarkedImport) (text : Bytes) : Frame where
  lead := import_.line text ++ frame.lead
  white := frame.white
  rest := frame.rest
  lead_free := frame.lead_free.append_left (import_.at_not_mem_line text)
  white_isWhite := frame.white_isWhite

namespace ListedSource

variable (source : ListedSource) (import_ : UnmarkedImport)

theorem text_eq : source.text = (source.lead ++ (openingText source.white ++ source.left)) ++
    (keyText source.before source.after ++ (source.contents ++ closeBracket :: (source.right ++
      closeBrace :: closeParen :: source.rest))) := by
  rw [text, Frame.text_eq, body]
  simp

theorem take_list_start : source.text.take source.list.start =
    source.lead ++ (openingText source.white ++ source.left) := by
  rw [text_eq]
  exact List.take_left' (by simp [list, listAt, Frame.bodyStart]; omega)

theorem slice_contents : source.text.slice source.list.contents = source.contents := by
  refine slice_of_eq_append (source.text_eq.trans (List.append_assoc ..).symm) ?_ ?_
  · simp [list, listAt, Frame.bodyStart]
    omega
  · simp [list, listAt, Frame.bodyStart]
    omega

theorem drop_list_stop : source.text.drop source.list.stop =
    source.right ++ closeBrace :: closeParen :: source.rest := by
  rw [text_eq, List.append_cons, ← List.append_assoc, ← List.append_assoc]
  exact List.drop_left' (by simp [list, listAt, Frame.bodyStart]; omega)

theorem list_entries : source.list.entries source.text = listEntries source.contents := by
  rw [ListProperty.entries, slice_contents]

def prepend : ListedSource where
  toFrame := source.withImport import_ source.text
  left := source.left
  before := []
  after := [space]
  contents := prependedContents (utf8 import_.name) (trim source.contents)
  right := source.right
  unclosed := by
    obtain ⟨front, hcontents, hfront⟩ := exists_prependedContents
      (isNames_of_isIdent import_.name_isIdent) (trim source.contents)
    obtain ⟨lead, trail, -, -, htrim⟩ := exists_white_trim source.contents
    have htrimmed : Unclosed (trim source.contents) :=
      source.unclosed.of_infix ⟨source.left ++ (keyText source.before source.after ++ lead),
        trail ++ closeBracket :: source.right, by
          conv_rhs => rw [htrim]
          simp⟩
    rw [hcontents]
    exact unclosed_listed (source.unclosed.of_infix ⟨[], _, rfl⟩) ⟨[], by simp, rfl⟩
      ⟨[[space]], by decide, rfl⟩
      (.append_of_not_mem (hfront.not_mem (by decide) (by decide)) htrimmed)
      (source.unclosed.of_infix ⟨source.left ++ (keyText source.before source.after ++
        (source.contents ++ [closeBracket])), [], by simp⟩)
  left_free := source.left_free
  before_white := ⟨[], by simp, rfl⟩
  after_white := ⟨[[space]], by decide, rfl⟩
  contents_open := by
    obtain ⟨front, hcontents, hfront⟩ := exists_prependedContents
      (isNames_of_isIdent import_.name_isIdent) (trim source.contents)
    rw [hcontents, List.mem_append, not_or]
    exact ⟨hfront.not_mem (by decide) (by decide),
      fun hmem => source.contents_open (mem_of_mem_trim hmem)⟩

theorem rewire_eq : rewire source.text import_.name import_.path .firstClose =
    .rewired (source.prepend import_).text source.block
      (.prepended (listEntries source.contents).length) := by
  have hscan : BlockScan.firstClose.scan source.text = some ⟨source.block, some source.list⟩ :=
    source.scan_text
  rw [rewire_of_listed hscan, take_list_start, slice_contents, drop_list_stop, list_entries,
    listProperty_eq, (source.prepend import_).text_eq, import_.importStatement_eq_line]
  simp [prepend, Frame.withImport]

theorem listEntries_prepend : listEntries (source.prepend import_).contents =
    utf8 import_.name :: listEntries source.contents := by
  rw [prepend, listEntries_prependedContents import_.name_isIdent (utf8_ne_nil import_.name_ne),
    listEntries_trim]

end ListedSource

namespace BareSource

variable (source : BareSource)

theorem text_eq : source.text = (source.lead ++ openingText source.white) ++
    (source.body ++ closeBrace :: closeParen :: source.rest) := by
  rw [text, Frame.text_eq, List.append_assoc]

theorem length_opening :
    (source.lead ++ openingText source.white).length = source.block.openBrace + 1 := by
  rw [block, source.block_openBrace, List.length_append, Frame.bodyStart]

theorem exists_insert (hfree : KeyFree source.body) (import_ : UnmarkedImport) :
    ∃ target : ListedSource,
      rewire source.text import_.name import_.path .firstClose =
        .rewired target.text source.block .inserted ∧
      target.lead = import_.line source.text ++ source.lead ∧
      target.contents = utf8 import_.name := by
  have hscan : BlockScan.firstClose.scan source.text = some ⟨source.block, none⟩ :=
    source.scan_text
  have hopen := source.length_opening
  have hclose : source.block.closeBrace = source.block.openBrace + 1 + source.body.length := by
    rw [block, source.block_openBrace]
    rfl
  have htake : source.text.take (source.block.openBrace + 1) =
      source.lead ++ openingText source.white := by
    rw [text_eq]
    exact List.take_left' hopen
  have hbody : source.text.slice source.block.body = source.body :=
    slice_of_eq_append source.text_eq hopen.symm (by rw [hopen]; exact hclose)
  have hdrop : source.text.drop source.block.closeBrace =
      closeBrace :: closeParen :: source.rest := by
    rw [text_eq, ← List.append_assoc]
    exact List.drop_left' (by rw [List.length_append, hopen, hclose])
  obtain ⟨new, hplaced, hrewire⟩ := exists_rewire_bare hscan import_.name import_.path
  rw [hbody] at hplaced
  obtain ⟨left, right, rfl, hleftFree, hleft, hright⟩ :=
    exists_of_placed hplaced (isBlank_lineBreak _) source.unclosed hfree
  have hname := isNames_of_isIdent import_.name_isIdent
  refine ⟨{
    toFrame := source.withImport import_ source.text
    left
    before := []
    after := [space]
    contents := utf8 import_.name
    right
    unclosed := unclosed_listed hleft ⟨[], by simp, rfl⟩ ⟨[[space]], by decide, rfl⟩
      (unclosed_of_not_mem (hname.not_mem (by decide) (by decide))) hright
    left_free := hleftFree
    before_white := ⟨[], by simp, rfl⟩
    after_white := ⟨[[space]], by decide, rfl⟩
    contents_open := hname.not_mem (by decide) (by decide) }, ?_, rfl, rfl⟩
  rw [hrewire, htake, hdrop, listProperty_eq, ListedSource.text_eq,
    import_.importStatement_eq_line]
  simp [Frame.withImport, prependedContents]

end BareSource

/-! Any number of imports. -/

/-- A text that starts with a lead and has a list with some entries. -/
def IsListed (lead : Bytes) (entries : List Bytes) (text : Bytes) : Prop :=
  ∃ source : ListedSource, source.text = text ∧ source.lead = lead ∧
    listEntries source.contents = entries

theorem rewireAll_listed {lead : Bytes} {entries : List Bytes} {text : Bytes}
    (hlisted : IsListed lead entries text) (imports : List UnmarkedImport) :
    ∃ final lines,
      rewireAll .firstClose text (imports.map UnmarkedImport.toImport) = some ⟨final,
        (List.range imports.length).map fun index => .prepended (entries.length + index),
          lines⟩ ∧
      IsListed (lines ++ lead)
        ((imports.map fun import_ => utf8 import_.name).reverse ++ entries) final := by
  have hrun := @rewireAll_of_step .firstClose (imports.map UnmarkedImport.toImport) IsListed ?_
    lead entries text hlisted
  · simpa [Function.comp_def] using hrun
  intro import_ hmem lead entries text
  obtain ⟨import_, -, rfl⟩ := List.mem_map.mp hmem
  rintro ⟨source, rfl, rfl, rfl⟩
  exact ⟨_, source.block, source.rewire_eq import_, source.prepend import_, rfl, rfl,
    source.listEntries_prepend import_⟩

/-- Any number of imports into a text whose block has a list or no key at all: every one is
carried out, the names are listed newest first in front of the entries that the list had, and the
block is found behind the import lines. -/
theorem rewireAll_found {text : Bytes} {block : Block} {list : Option ListProperty}
    (hscan : scan text = some ⟨block, list⟩)
    (hfree : list = none → KeyFree (text.slice block.span)) (import_ : UnmarkedImport)
    (imports : List UnmarkedImport) :
    let entries := (list.map fun list => list.entries text).getD []
    let edits := (List.range (imports.length + 1)).map fun index =>
      ListEdit.prepended (entries.length + index)
    ∃ final lines, rewireAll .firstClose text
        ((import_ :: imports).map UnmarkedImport.toImport) =
        some ⟨final, if list.isSome then edits else .inserted :: edits.tail, lines⟩ ∧
      ∃ found list', scan final = some ⟨found, some list'⟩ ∧
        found.start = lines.length + block.start ∧
        list'.entries final =
          ((import_ :: imports).map fun import_ => utf8 import_.name).reverse ++ entries := by
  cases list with
  | none =>
      obtain ⟨source, rfl, rfl⟩ := exists_bareSource hscan
      have hblock : KeyFree (blockText source.white source.body) := by
        have hslice : source.text.slice source.block.span = blockText source.white source.body :=
          source.slice_block source.body
        rw [← hslice]
        exact hfree rfl
      have hbody : KeyFree source.body :=
        hblock.of_infix ⟨openingText source.white, [closeBrace, closeParen], by simp [blockText]⟩
      obtain ⟨first, hfirst, hlead, hcontents⟩ := source.exists_insert hbody import_
      have hentries : listEntries first.contents = [utf8 import_.name] := by
        rw [hcontents]
        exact listEntries_prependedContents import_.name_isIdent import_.utf8_name_ne []
      obtain ⟨_, lines, hrest, target, rfl, htargetLead, htarget⟩ :=
        rewireAll_listed ⟨first, rfl, rfl, hentries⟩ imports
      refine ⟨target.text, lines ++ import_.line source.text,
        (rewireAll_cons hfirst hrest).trans ?_, _, _, target.scan_text, ?_, ?_⟩
      · simp [List.range_succ_eq_map, Function.comp_def, Nat.add_comm 1]
      · simp [ListedSource.block, BareSource.block, Frame.block, htargetLead, hlead,
          Nat.add_assoc]
      · rw [target.list_entries, htarget]
        simp
  | some list =>
      obtain ⟨source, rfl, rfl, rfl⟩ := exists_listedSource hscan
      obtain ⟨_, lines, hrest, target, rfl, hlead, htarget⟩ :=
        rewireAll_listed ⟨source, rfl, rfl, rfl⟩ (import_ :: imports)
      refine ⟨target.text, lines, ?_, _, _, target.scan_text, ?_, ?_⟩
      · rw [hrest]
        simp [source.list_entries]
      · simp [ListedSource.block, Frame.block, hlead]
      · rw [target.list_entries, htarget]
        simp [source.list_entries]

theorem rewireAll_found_twice :
    let text := utf8 "@Component(\x7b a: ']', // a\n\x7d) // \x7d)"
    ∃ final lines, rewireAll .firstClose text
        [⟨"A", "./a", by decide, by decide⟩, ⟨"B", "./b", by decide, by decide⟩] =
        some ⟨final, [.inserted, .prepended 1], lines⟩ ∧
      ∃ found list, scan final = some ⟨found, some list⟩ ∧ found.start = lines.length + 0 ∧
        list.entries final = [utf8 "B", utf8 "A"] := by
  intro text
  have hscan : scan text = some ⟨⟨0, 28, 11, 26⟩, none⟩ := by decide +kernel
  refine rewireAll_found hscan ?_ ⟨⟨"A", "./a", by decide, by decide⟩, by decide⟩
    [⟨⟨"B", "./b", by decide, by decide⟩, by decide⟩]
  rintro - left before after right - - htext
  have hbracket : openBracket ∉ text.slice ⟨0, 28⟩ := by decide +kernel
  refine hbracket ?_
  rw [show text.slice ⟨0, 28⟩ = _ from htext]
  simp [keyText]

end Extraction.FirstClose
