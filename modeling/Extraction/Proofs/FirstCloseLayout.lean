import Extraction.Proofs.Entries
import Extraction.Proofs.Search
import Extraction.Source.FirstClose
/-!
The layout of a declaration that the plain text heuristic finds. Its block ends at the first `})`
and its list at the first `]` behind a key. White space is that of Unicode here; no byte of it is
one that a marker or a key is made of.
-/

namespace Extraction

open Byte Bytes
open Extraction.Balanced (openingText keyText length_openingText length_keyText)
open Extraction.Balanced (prefix_of_prefix_append_cons)

/-- A byte that no character of white space has. -/
def Byte.IsVisible (b : UInt8) : Prop :=
  ∀ word ∈ whiteSpaceWords, b ∉ word

instance (b : UInt8) : Decidable (IsVisible b) :=
  inferInstanceAs (Decidable (∀ word ∈ whiteSpaceWords, b ∉ word))

namespace Bytes

theorem IsWhite.blankWidth_append {white : Bytes} (hwhite : IsWhite white) {b : UInt8}
    (hb : IsVisible b) (rest : Bytes) : blankWidth (white ++ b :: rest) = white.length := by
  have hstart : trimStart (b :: rest) = b :: rest := by
    refine trimStart_of_forall fun word hword hstarts => ?_
    have hlength := length_of_mem_whiteSpaceWords word hword
    cases word with
    | nil => simp at hlength
    | cons first word =>
        obtain ⟨rfl, -⟩ := List.cons_prefix_cons.mp hstarts
        exact hb _ hword List.mem_cons_self
  rw [blankWidth, trimStart_append hwhite, hstart, List.length_append, Nat.add_sub_cancel]

theorem exists_of_getElem?_blankWidth {text : Bytes} {b : UInt8}
    (h : text[blankWidth text]? = some b) :
    ∃ white rest, IsWhite white ∧ white.length = blankWidth text ∧ text = white ++ b :: rest := by
  obtain ⟨white, hwhite, htext⟩ := exists_white_trimStart text
  have hwidth : blankWidth text = white.length := by
    rw [blankWidth, congrArg List.length htext, List.length_append, Nat.add_sub_cancel]
  rw [hwidth, htext, List.getElem?_append_right (Nat.le_refl _), Nat.sub_self,
    ← List.head?_eq_getElem?, List.head?_eq_some_iff] at h
  obtain ⟨rest, hrest⟩ := h
  exact ⟨white, rest, hwhite, hwidth.symm, htext.trans (congrArg _ hrest)⟩

end Bytes

namespace FirstClose

/-! What the patterns of the heuristic match, as text. -/

theorem separator?_eq_some_iff {byte : UInt8} {text : Bytes} {width : Nat}
    (hbyte : IsVisible byte) :
    separator? byte text = some width ↔
      ∃ white rest, IsWhite white ∧ text = white ++ byte :: rest ∧ width = white.length + 1 := by
  simp only [separator?, beq_iff_eq]
  constructor
  · intro h
    split at h
    · next hfound =>
        obtain ⟨white, rest, hwhite, hlength, htext⟩ := exists_of_getElem?_blankWidth hfound
        exact ⟨white, rest, hwhite, htext, by simpa [hlength] using h.symm⟩
    · contradiction
  · rintro ⟨white, rest, hwhite, rfl, rfl⟩
    rw [hwhite.blankWidth_append hbyte]
    simp

theorem opening?_eq_some_iff {text : Bytes} {width : Nat} :
    opening? text = some width ↔
      ∃ white rest, IsWhite white ∧ text = openingText white ++ rest ∧
        width = (openingText white).length := by
  constructor
  · intro h
    simp only [opening?, List.isPrefixOf_iff_prefix, beq_iff_eq] at h
    split at h
    · next hmarker =>
        obtain ⟨rest, rfl⟩ := hmarker
        rw [List.drop_left] at h
        split at h
        · next hbrace =>
            rw [List.getElem?_append_right (Nat.le_add_right _ _), Nat.add_sub_cancel_left]
              at hbrace
            obtain ⟨white, after, hwhite, hlength, rfl⟩ := exists_of_getElem?_blankWidth hbrace
            exact ⟨white, after, hwhite, by simp [openingText],
              by simpa [hlength] using h.symm⟩
        · contradiction
    · contradiction
  · rintro ⟨white, rest, hwhite, rfl, rfl⟩
    have htext : openingText white ++ rest = marker ++ (white ++ openBrace :: rest) := by
      simp [openingText]
    rw [htext, opening?, if_pos (by simp [List.isPrefixOf_iff_prefix]), List.drop_left,
      hwhite.blankWidth_append (by decide)]
    simp

theorem listOpening?_eq_some_iff {text : Bytes} {width : Nat} :
    listOpening? text = some width ↔
      ∃ before after rest, IsWhite before ∧ IsWhite after ∧
        text = keyText before after ++ rest ∧ width = (keyText before after).length := by
  have hcolon : IsVisible colon := by decide
  have hbracket : IsVisible openBracket := by decide
  have hdrop : ∀ before rest : Bytes, (listKey ++ (before ++ colon :: rest)).drop
      (listKey.length + (before.length + 1)) = rest := by
    intro before rest
    rw [List.append_cons, ← List.append_assoc]
    exact List.drop_left' (by simp)
  constructor
  · intro h
    simp only [listOpening?, List.isPrefixOf_iff_prefix] at h
    split at h
    · next hkey =>
        obtain ⟨rest, rfl⟩ := hkey
        rw [List.drop_left] at h
        split at h
        · next colonWidth hfound =>
            obtain ⟨before, rest, hbefore, rfl, rfl⟩ :=
              (separator?_eq_some_iff hcolon).mp hfound
            obtain ⟨bracketWidth, hfound, rfl⟩ := Option.map_eq_some_iff.mp h
            rw [hdrop] at hfound
            obtain ⟨after, rest, hafter, rfl, rfl⟩ :=
              (separator?_eq_some_iff hbracket).mp hfound
            exact ⟨before, after, rest, hbefore, hafter, by simp [keyText],
              by simp; omega⟩
        · contradiction
    · contradiction
  · rintro ⟨before, after, rest, hbefore, hafter, rfl, rfl⟩
    have htext : keyText before after ++ rest =
        listKey ++ (before ++ colon :: (after ++ openBracket :: rest)) := by
      simp [keyText]
    rw [htext, listOpening?, if_pos (by simp [List.isPrefixOf_iff_prefix]), List.drop_left,
      (separator?_eq_some_iff hcolon).mpr ⟨before, _, hbefore, rfl, rfl⟩]
    simp only [hdrop, (separator?_eq_some_iff hbracket).mpr ⟨after, rest, hafter, rfl, rfl⟩]
    simp
    omega

theorem list?_eq_some_iff {text : Bytes} {contents : Span} :
    list? text = some contents ↔
      ∃ before after inner rest, IsWhite before ∧ IsWhite after ∧
        text = keyText before after ++ (inner ++ closeBracket :: rest) ∧ closeBracket ∉ inner ∧
        contents = ⟨(keyText before after).length,
          (keyText before after).length + inner.length⟩ := by
  constructor
  · intro h
    rw [list?] at h
    split at h
    · next start hopening =>
        obtain ⟨before, after, rest, hbefore, hafter, rfl, rfl⟩ :=
          listOpening?_eq_some_iff.mp hopening
        rw [List.drop_left] at h
        obtain ⟨width, hclose, rfl⟩ := Option.map_eq_some_iff.mp h
        obtain ⟨inner, rest, rfl, rfl, hinner⟩ := indexOf?_singleton_eq_some_iff.mp hclose
        exact ⟨before, after, inner, rest, hbefore, hafter, rfl, hinner, rfl⟩
    · contradiction
  · rintro ⟨before, after, inner, rest, hbefore, hafter, rfl, hinner, rfl⟩
    rw [list?, listOpening?_eq_some_iff.mpr ⟨before, after, _, hbefore, hafter, rfl, rfl⟩]
    simp only [List.drop_left,
      indexOf?_singleton_eq_some_iff.mpr ⟨inner, rest, rfl, rfl, hinner⟩]
    rfl

theorem not_mem_openingText {white : Bytes} (hwhite : IsWhite white) {b : UInt8}
    (hvisible : IsVisible b) (hmarker : b ∉ marker ++ [openBrace]) : b ∉ openingText white := by
  rw [List.mem_append, not_or] at hmarker
  rw [openingText, List.mem_append, List.mem_append, not_or, not_or]
  exact ⟨⟨hmarker.1, hwhite.not_mem hvisible⟩, hmarker.2⟩

theorem at_not_mem_tail_openingText {white : Bytes} (hwhite : IsWhite white) :
    0x40 ∉ (openingText white).tail := by
  have htail : (openingText white).tail = marker.tail ++ white ++ [openBrace] := rfl
  rw [htail, List.mem_append, List.mem_append, not_or, not_or]
  exact ⟨⟨by decide, hwhite.not_mem (by decide)⟩, by decide⟩

theorem letter_not_mem_tail_keyText {before after : Bytes} (hbefore : IsWhite before)
    (hafter : IsWhite after) : 0x69 ∉ (keyText before after).tail := by
  have htail : (keyText before after).tail =
      listKey.tail ++ (before ++ (colon :: (after ++ [openBracket]))) := by
    simp [keyText]
    rfl
  simp only [htail, List.mem_append, List.mem_cons, not_or]
  exact ⟨by decide, hbefore.not_mem (by decide), by decide, hafter.not_mem (by decide),
    by decide, by simp⟩

def MarkerFree (text : Bytes) : Prop :=
  ∀ left white right, IsWhite white → text ≠ left ++ (openingText white ++ right)

def KeyFree (text : Bytes) : Prop :=
  ∀ left before after right, IsWhite before → IsWhite after →
    text ≠ left ++ (keyText before after ++ right)

/-- No list stands in a text; a key may, if no bracket closes it. -/
def ListFree (text : Bytes) : Prop :=
  ∀ left before after contents right, IsWhite before → IsWhite after →
    text ≠ left ++ (keyText before after ++ (contents ++ closeBracket :: right))

/-- The end of a block does not stand in a text. -/
def Unclosed (text : Bytes) : Prop :=
  ¬ [closeBrace, closeParen] <:+: text

theorem MarkerFree.opening?_eq_none {lead : Bytes} (hfree : MarkerFree lead) (hlead : lead ≠ [])
    (rest : Bytes) : opening? (lead ++ 0x40 :: rest) = none := by
  rw [Option.eq_none_iff_forall_ne_some]
  intro width hwidth
  obtain ⟨white, tail, hwhite, htail, -⟩ := opening?_eq_some_iff.mp hwidth
  obtain ⟨right, rfl⟩ := prefix_of_prefix_append_cons ⟨tail, htail.symm⟩ hlead
    (at_not_mem_tail_openingText hwhite)
  exact hfree [] white right hwhite rfl

theorem KeyFree.list?_eq_none {left : Bytes} (hfree : KeyFree left) (hleft : left ≠ [])
    (rest : Bytes) : list? (left ++ 0x69 :: rest) = none := by
  rw [Option.eq_none_iff_forall_ne_some]
  intro contents hcontents
  obtain ⟨before, after, inner, tail, hbefore, hafter, htail, -, -⟩ :=
    list?_eq_some_iff.mp hcontents
  obtain ⟨right, rfl⟩ := prefix_of_prefix_append_cons ⟨_, htail.symm⟩ hleft
    (letter_not_mem_tail_keyText hbefore hafter)
  exact hfree [] before after right hbefore hafter rfl

theorem list?_ne_none {before after tail : Bytes} (hbefore : IsWhite before)
    (hafter : IsWhite after) (htail : closeBracket ∈ tail) :
    list? (keyText before after ++ tail) ≠ none := by
  obtain ⟨inner, rest, rfl, hinner⟩ := List.eq_append_cons_of_mem htail
  rw [list?_eq_some_iff.mpr ⟨before, after, inner, rest, hbefore, hafter, rfl, hinner, rfl⟩]
  simp

/-! The list in the text of a block. -/

def blockText (white body : Bytes) : Bytes :=
  openingText white ++ (body ++ [closeBrace, closeParen])

def listAt (offset : Nat) (left before after contents : Bytes) : ListProperty :=
  let start := offset + left.length
  let stop := start + (keyText before after).length + contents.length
  ⟨start, stop + 1, ⟨start + (keyText before after).length, stop⟩⟩

theorem exists_of_blockText {white body lead before after contents rest : Bytes}
    (hwhite : IsWhite white)
    (h : blockText white body =
      lead ++ (keyText before after ++ (contents ++ closeBracket :: rest))) :
    ∃ left right, lead = openingText white ++ left ∧
      body = left ++ (keyText before after ++ (contents ++ closeBracket :: right)) := by
  obtain ⟨left, rfl, hbody⟩ := exists_of_append_eq_append_cons
    (show openingText white ++ (body ++ [closeBrace, closeParen]) =
      lead ++ 0x69 :: ((keyText before after).tail ++ (contents ++ closeBracket :: rest)) from h)
    (not_mem_openingText hwhite (by decide) (by decide))
  have hsplit : body ++ [closeBrace, closeParen] =
      (left ++ (keyText before after ++ contents)) ++ closeBracket :: rest := by
    rw [hbody]
    simp
    rfl
  obtain ⟨right, rfl, -⟩ := exists_of_append_eq_append_cons_of_not_mem hsplit (by decide)
  exact ⟨left, right, rfl, by simp⟩

theorem listFree_of_findList {white body : Bytes} {base : Nat}
    (h : findList base (blockText white body) = none) : ListFree body := by
  rw [findList, Option.map_eq_none_iff, firstMatch?_eq_none_iff] at h
  rintro left before after contents right hbefore hafter rfl
  exact list?_ne_none hbefore hafter (by simp) (h (openingText white ++ left)
    (keyText before after ++ (contents ++ closeBracket :: (right ++ [closeBrace, closeParen])))
    (by simp [blockText]))

section BlockText

variable {white : Bytes} (hwhite : IsWhite white) (base : Nat)
include hwhite

theorem findList_bare {body : Bytes} (hfree : ListFree body) :
    findList base (blockText white body) = none := by
  rw [findList, Option.map_eq_none_iff, firstMatch?_eq_none_iff]
  intro lead rest htext
  rw [Option.eq_none_iff_forall_ne_some]
  intro contents hcontents
  obtain ⟨before, after, inner, tail, hbefore, hafter, rfl, -, -⟩ :=
    list?_eq_some_iff.mp hcontents
  obtain ⟨left, right, -, rfl⟩ := exists_of_blockText hwhite htext
  exact hfree left before after inner right hbefore hafter rfl

theorem findList_listed {left before after contents : Bytes} (right : Bytes)
    (hfree : KeyFree left) (hbefore : IsWhite before) (hafter : IsWhite after)
    (hcontents : closeBracket ∉ contents) :
    findList base (blockText white
        (left ++ (keyText before after ++ (contents ++ closeBracket :: right)))) =
      some (listAt (base + (openingText white).length) left before after contents) := by
  have htext : blockText white
      (left ++ (keyText before after ++ (contents ++ closeBracket :: right))) =
        (openingText white ++ left) ++ (keyText before after ++
          (contents ++ closeBracket :: (right ++ [closeBrace, closeParen]))) := by
    simp [blockText]
  have hfirst := firstMatch?_eq_some_iff.mpr ⟨openingText white ++ left, _, htext, rfl,
    list?_eq_some_iff.mpr ⟨before, after, contents, _, hbefore, hafter, rfl, hcontents, rfl⟩, ?_⟩
  · rw [findList, hfirst]
    simp only [Option.map_some, listAt, List.length_append, Option.some.injEq,
      ListProperty.mk.injEq, Span.mk.injEq]
    omega
  · -- An earlier key would stand in the opening, which lacks its letter, or before the key.
    intro first second hlead hsecond
    have hfreeSecond : KeyFree second := by
      rintro skipped before' after' right' hbefore' hafter' rfl
      obtain ⟨middle, -, hleft⟩ := exists_of_append_eq_append_cons
        (show openingText white ++ left = (first ++ skipped) ++
          0x69 :: ((keyText before' after').tail ++ right') by rw [hlead]; simp; rfl)
        (not_mem_openingText hwhite (by decide) (by decide))
      exact hfree middle before' after' right' hbefore' hafter' hleft
    exact hfreeSecond.list?_eq_none hsecond _

theorem exists_of_findList {body : Bytes} {list : ListProperty}
    (h : findList base (blockText white body) = some list) :
    ∃ left before after contents right,
      body = left ++ (keyText before after ++ (contents ++ closeBracket :: right)) ∧
      KeyFree left ∧ IsWhite before ∧ IsWhite after ∧ closeBracket ∉ contents := by
  obtain ⟨⟨start, span⟩, hfirst, -⟩ := Option.map_eq_some_iff.mp h
  obtain ⟨lead, rest, htext, rfl, hlist, hnone⟩ := firstMatch?_eq_some_iff.mp hfirst
  obtain ⟨before, after, contents, tail, hbefore, hafter, rfl, hcontents, rfl⟩ :=
    list?_eq_some_iff.mp hlist
  obtain ⟨left, right, rfl, rfl⟩ := exists_of_blockText hwhite htext
  refine ⟨left, before, after, contents, right, rfl, ?_, hbefore, hafter, hcontents⟩
  rintro first before' after' second hbefore' hafter' rfl
  have hearlier := hnone (openingText white ++ first) (keyText before' after' ++ second)
    (by simp) (by simp [keyText])
  rw [List.append_assoc] at hearlier
  exact list?_ne_none hbefore' hafter' (by simp) hearlier

end BlockText

/-! The text around a block. -/

/-- The end of a block stands in its text only behind the body. -/
theorem indexOf?_blockText {white body : Bytes} (hwhite : IsWhite white) (hbody : Unclosed body)
    (rest : Bytes) :
    indexOf? [closeBrace, closeParen] (blockText white body ++ rest) =
      some ((openingText white).length + body.length) := by
  have htext : blockText white body ++ rest =
      (openingText white ++ body) ++ closeBrace :: closeParen :: rest := by
    simp [blockText]
  refine indexOf?_eq_some_iff.mpr ⟨openingText white ++ body, _, htext, by simp, ⟨rest, rfl⟩, ?_⟩
  intro left right hlead hright hstarts
  obtain ⟨tail, rfl⟩ := prefix_of_prefix_append_cons hstarts hright (by decide)
  obtain ⟨middle, -, rfl⟩ := exists_of_append_eq_append_cons
    (show openingText white ++ body = left ++ closeBrace :: (closeParen :: tail) from hlead)
    (not_mem_openingText hwhite (by decide) (by decide))
  exact hbody ⟨middle, tail, by simp⟩

theorem exists_of_indexOf?_opening {white tail : Bytes} {offset : Nat} (hwhite : IsWhite white)
    (h : indexOf? [closeBrace, closeParen] (openingText white ++ tail) = some offset) :
    ∃ body rest, tail = body ++ closeBrace :: closeParen :: rest ∧ Unclosed body := by
  obtain ⟨lead, rest, htext, -, ⟨rest, rfl⟩, hfree⟩ := indexOf?_eq_some_iff.mp h
  obtain ⟨body, rfl, rfl⟩ := exists_of_append_eq_append_cons htext
    (not_mem_openingText hwhite (by decide) (by decide))
  refine ⟨body, rest, rfl, ?_⟩
  rintro ⟨left, right, rfl⟩
  exact hfree (openingText white ++ left) ([closeBrace, closeParen] ++ right) (by simp) (by simp)
    ⟨right ++ closeBrace :: closeParen :: rest, by simp⟩

/-- What surrounds the body of a block: the text before its marker, the white space behind the
marker, and the text behind the block. -/
structure Frame where
  lead : Bytes
  white : Bytes
  rest : Bytes
  lead_free : MarkerFree lead
  white_isWhite : IsWhite white

namespace Frame

variable (frame : Frame)

def text (body : Bytes) : Bytes :=
  frame.lead ++ (blockText frame.white body ++ frame.rest)

def bodyStart : Nat :=
  frame.lead.length + (openingText frame.white).length

def block (body : Bytes) : Block :=
  { start := frame.lead.length
    stop := frame.bodyStart + body.length + 2
    openBrace := frame.lead.length + marker.length + frame.white.length
    closeBrace := frame.bodyStart + body.length }

theorem block_openBrace (body : Bytes) : (frame.block body).openBrace + 1 = frame.bodyStart := by
  simp [block, bodyStart, Nat.add_assoc]

theorem slice_block (body : Bytes) :
    (frame.text body).slice (frame.block body).span = blockText frame.white body := by
  have hlength : (frame.block body).stop - (frame.block body).start =
      (blockText frame.white body).length := by
    simp [block, bodyStart, blockText]
    omega
  have hdrop : (frame.text body).drop (frame.block body).start =
      blockText frame.white body ++ frame.rest := List.drop_left
  rw [slice, Block.span, hlength]
  exact (congrArg _ hdrop).trans List.take_left

/-- The text is found to be a block around any body that does not end it; the list is looked for
in the block. -/
theorem scan_text {body : Bytes} (hbody : Unclosed body) :
    scan (frame.text body) = some
      ⟨frame.block body, findList frame.lead.length (blockText frame.white body)⟩ := by
  have htext : frame.text body = frame.lead ++
      (openingText frame.white ++ (body ++ closeBrace :: closeParen :: frame.rest)) := by
    simp [text, blockText]
  have hfirst : firstMatch? opening? (frame.text body) =
      some (frame.lead.length, (openingText frame.white).length) := by
    refine firstMatch?_eq_some_iff.mpr ⟨frame.lead, _, htext, rfl,
      opening?_eq_some_iff.mpr ⟨frame.white, _, frame.white_isWhite, rfl, rfl⟩, ?_⟩
    intro left right hlead hright
    have hfree : MarkerFree right := by
      rintro first white second hwhite rfl
      exact frame.lead_free (left ++ first) white second hwhite (by simp [hlead])
    exact hfree.opening?_eq_none hright _
  have hdrop : (frame.text body).drop frame.lead.length =
      blockText frame.white body ++ frame.rest := List.drop_left
  rw [scan, hfirst]
  simp only [hdrop, indexOf?_blockText frame.white_isWhite hbody]
  have hblock : (Block.mk frame.lead.length
      (frame.lead.length + ((openingText frame.white).length + body.length) + 2)
      (frame.lead.length + (openingText frame.white).length - 1)
      (frame.lead.length + ((openingText frame.white).length + body.length))) =
        frame.block body := by
    simp [block, bodyStart, Nat.add_assoc]
    omega
  rw [hblock, frame.slice_block]

end Frame

theorem exists_frame {text : Bytes} {declaration : Declaration}
    (h : scan text = some declaration) :
    ∃ (frame : Frame) (body : Bytes), frame.text body = text ∧ Unclosed body ∧
      declaration =
        ⟨frame.block body, findList frame.lead.length (blockText frame.white body)⟩ := by
  have hscan := h
  rw [scan] at h
  split at h
  · cases h
  · next start width hfirst =>
      obtain ⟨lead, tail, rfl, rfl, hopening, hnone⟩ := firstMatch?_eq_some_iff.mp hfirst
      obtain ⟨white, more, hwhite, rfl, rfl⟩ := opening?_eq_some_iff.mp hopening
      have hlead : MarkerFree lead := by
        rintro left white' right hwhite' rfl
        have hfree := hnone left _ rfl (by simp [openingText])
        rw [List.append_assoc,
          opening?_eq_some_iff.mpr ⟨white', _, hwhite', rfl, rfl⟩] at hfree
        cases hfree
      rw [List.drop_left] at h
      split at h
      · cases h
      · next close hclose =>
          obtain ⟨body, rest, rfl, hbody⟩ := exists_of_indexOf?_opening hwhite hclose
          let frame : Frame := ⟨lead, white, rest, hlead, hwhite⟩
          have htext : frame.text body = lead ++
              (openingText white ++ (body ++ closeBrace :: closeParen :: rest)) := by
            simp [frame, Frame.text, blockText]
          rw [← htext, frame.scan_text hbody] at hscan
          exact ⟨frame, body, htext, hbody, (Option.some.inj hscan).symm⟩

structure BareSource extends Frame where
  body : Bytes
  unclosed : Unclosed body
  free : ListFree body

namespace BareSource

variable (source : BareSource)

def text : Bytes :=
  source.toFrame.text source.body

def block : Block :=
  source.toFrame.block source.body

theorem scan_text : scan source.text = some ⟨source.block, none⟩ := by
  rw [text, source.toFrame.scan_text source.unclosed,
    findList_bare source.white_isWhite _ source.free]
  rfl

end BareSource

structure ListedSource extends Frame where
  left : Bytes
  before : Bytes
  after : Bytes
  contents : Bytes
  right : Bytes
  unclosed : Unclosed (left ++ (keyText before after ++ (contents ++ closeBracket :: right)))
  left_free : KeyFree left
  before_white : IsWhite before
  after_white : IsWhite after
  contents_open : closeBracket ∉ contents

namespace ListedSource

variable (source : ListedSource)

def body : Bytes :=
  source.left ++ (keyText source.before source.after ++
    (source.contents ++ closeBracket :: source.right))

def text : Bytes :=
  source.toFrame.text source.body

def block : Block :=
  source.toFrame.block source.body

def list : ListProperty :=
  listAt source.bodyStart source.left source.before source.after source.contents

theorem scan_text : scan source.text = some ⟨source.block, some source.list⟩ := by
  have hbody : Unclosed source.body := source.unclosed
  rw [text, source.toFrame.scan_text hbody, body,
    findList_listed source.white_isWhite _ source.right source.left_free source.before_white
      source.after_white source.contents_open]
  rfl

end ListedSource

theorem exists_bareSource {text : Bytes} {block : Block} (h : scan text = some ⟨block, none⟩) :
    ∃ source : BareSource, source.text = text ∧ source.block = block := by
  obtain ⟨frame, body, rfl, hbody, hdeclaration⟩ := exists_frame h
  obtain ⟨rfl, hlist⟩ := Declaration.mk.inj hdeclaration
  exact ⟨⟨frame, body, hbody, listFree_of_findList hlist.symm⟩, rfl, rfl⟩

theorem exists_listedSource {text : Bytes} {block : Block} {list : ListProperty}
    (h : scan text = some ⟨block, some list⟩) :
    ∃ source : ListedSource, source.text = text ∧ source.block = block ∧ source.list = list := by
  obtain ⟨frame, body, rfl, hbody, hdeclaration⟩ := exists_frame h
  obtain ⟨rfl, hlist⟩ := Declaration.mk.inj hdeclaration
  obtain ⟨left, before, after, contents, right, rfl, hleft, hbefore, hafter, hcontents⟩ :=
    exists_of_findList frame.white_isWhite frame.lead.length hlist.symm
  let source : ListedSource :=
    ⟨frame, left, before, after, contents, right, hbody, hleft, hbefore, hafter, hcontents⟩
  have hscan : some (Declaration.mk source.block (some source.list)) = some ⟨_, some list⟩ :=
    source.scan_text.symm.trans h
  obtain ⟨-, hlist⟩ := Declaration.mk.inj (Option.some.inj hscan)
  exact ⟨source, rfl, rfl, Option.some.inj hlist⟩

end FirstClose

end Extraction
