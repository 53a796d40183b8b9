import Extraction.Proofs.Boundaries
import Extraction.Proofs.FirstCloseLayout
import Extraction.Proofs.Pieces
import Extraction.Proofs.Slices
import Extraction.Source.Scan
/-!
What both strategies find stands in the text: every offset of a block and of its list is that of
the byte it is named for, and the offsets are in order.
-/

namespace Extraction

open Byte Bytes
open Extraction.Balanced (openingText keyText)

/-- A block with its marker, its braces and its closing parenthesis at its offsets; a block
without the parenthesis ends with its brace. -/
structure Block.StandsIn (block : Block) (text : Bytes) : Prop where
  marker_at : marker <+: text.drop block.start
  marker_le : block.start + marker.length ≤ block.openBrace
  white : IsWhite (text.slice ⟨block.start + marker.length, block.openBrace⟩)
  openBrace_at : text[block.openBrace]? = some Byte.openBrace
  openBrace_lt : block.openBrace < block.closeBrace
  closeBrace_at : text[block.closeBrace]? = some Byte.closeBrace
  stop : block.stop = block.closeBrace + 1 ∨
    block.closeBrace + 1 < block.stop ∧
      IsWhite (text.slice ⟨block.closeBrace + 1, block.stop - 1⟩) ∧
      text[block.stop - 1]? = some closeParen

/-- A list with its key and its brackets at its offsets, between the braces of a block. -/
structure ListProperty.StandsIn (list : ListProperty) (block : Block) (text : Bytes) : Prop where
  openBrace_lt : block.openBrace < list.start
  key_at : listKey <+: text.drop list.start
  key_lt : list.start + listKey.length < list.contents.start
  openBracket_at : text[list.contents.start - 1]? = some openBracket
  contents_le : list.contents.start ≤ list.contents.stop
  closeBracket_at : text[list.contents.stop]? = some closeBracket
  stop_eq : list.stop = list.contents.stop + 1
  stop_le : list.stop ≤ block.closeBrace

structure Declaration.StandsIn (declaration : Declaration) (text : Bytes) : Prop where
  block : declaration.block.StandsIn text
  list : ∀ list, declaration.list = some list → list.StandsIn declaration.block text

theorem Block.StandsIn.closeBrace_lt_stop {block : Block} {text : Bytes}
    (hblock : block.StandsIn text) : block.closeBrace < block.stop := by
  have hstop := hblock.stop
  omega

theorem ListProperty.StandsIn.exists_slice {list : ListProperty} {block : Block} {text : Bytes}
    (hlist : list.StandsIn block text) :
    ∃ gap, text.slice ⟨list.start, list.stop⟩ =
      listKey ++ (gap ++ openBracket :: (text.slice list.contents ++ [closeBracket])) := by
  have hkey := hlist.key_lt
  have hcontents := hlist.contents_le
  have hopen : text.slice ⟨list.contents.start - 1, list.contents.start⟩ = [openBracket] := by
    have hslice := slice_succ hlist.openBracket_at
    rwa [Nat.sub_add_cancel (by omega)] at hslice
  have hclose : text.slice ⟨list.contents.stop, list.stop⟩ = [closeBracket] := by
    rw [hlist.stop_eq]
    exact slice_succ hlist.closeBracket_at
  have hstop := hlist.stop_eq
  refine ⟨text.slice ⟨list.start + listKey.length, list.contents.start - 1⟩, ?_⟩
  rw [← text.slice_append_slice (show list.start ≤ list.start + listKey.length by omega)
      (show list.start + listKey.length ≤ list.stop by omega),
    ← text.slice_append_slice (show list.start + listKey.length ≤ list.contents.start - 1 by omega)
      (show list.contents.start - 1 ≤ list.stop by omega),
    ← text.slice_append_slice (show list.contents.start - 1 ≤ list.contents.start by omega)
      (show list.contents.start ≤ list.stop by omega),
    ← text.slice_append_slice hcontents (show list.contents.stop ≤ list.stop by omega),
    slice_of_prefix_drop hlist.key_at, hopen, hclose]
  rfl

section Boundaries

variable {text : Bytes} {block : Block} {list : ListProperty}

theorem Block.StandsIn.isBoundary_start (hblock : block.StandsIn text) :
    text.isBoundary block.start = true :=
  isBoundary_of_getElem? (@getElem?_of_prefix_drop _ marker.tail _ 0x40 hblock.marker_at)
    (by decide)

theorem Block.StandsIn.isBoundary_closeBrace (hblock : block.StandsIn text) :
    text.isBoundary block.closeBrace = true :=
  isBoundary_of_getElem? hblock.closeBrace_at (by decide)

theorem ListProperty.StandsIn.isBoundary_start (hlist : list.StandsIn block text) :
    text.isBoundary list.start = true :=
  isBoundary_of_getElem? (@getElem?_of_prefix_drop _ listKey.tail _ 0x69 hlist.key_at)
    (by decide)

variable (hunbroken : Unbroken text)
include hunbroken

theorem Block.StandsIn.isBoundary_stop (hblock : block.StandsIn text) :
    text.isBoundary block.stop = true := by
  rcases hblock.stop with hstop | ⟨hlt, -, hparen⟩
  · rw [hstop]
    exact hunbroken.isBoundary_succ hblock.closeBrace_at (by decide)
  · have hboundary := hunbroken.isBoundary_succ hparen (by decide)
    rwa [Nat.sub_add_cancel (by omega)] at hboundary

theorem ListProperty.StandsIn.isBoundary_contents (hlist : list.StandsIn block text) :
    text.isBoundary list.contents.start = true ∧ text.isBoundary list.contents.stop = true ∧
      text.isBoundary list.stop = true := by
  refine ⟨?_, isBoundary_of_getElem? hlist.closeBracket_at (by decide), ?_⟩
  · have hboundary := hunbroken.isBoundary_succ hlist.openBracket_at (by decide)
    have hkey := hlist.key_lt
    rwa [Nat.sub_add_cancel (by omega)] at hboundary
  · rw [hlist.stop_eq]
    exact hunbroken.isBoundary_succ hlist.closeBracket_at (by decide)

end Boundaries

section Pieces

variable {text lead white body tail : Bytes} {block : Block}

theorem block_standsIn_of_pieces
    (htext : text = lead ++ (openingText white ++ (body ++ closeBrace :: tail)))
    (hwhite : IsWhite white) (hstart : block.start = lead.length)
    (hopen : block.openBrace = lead.length + marker.length + white.length)
    (hclose : block.closeBrace = block.openBrace + 1 + body.length)
    (hstop : block.stop = block.closeBrace + 1 ∨
      ∃ gap rest, IsWhite gap ∧ tail = gap ++ closeParen :: rest ∧
        block.stop = block.closeBrace + 1 + gap.length + 1) : block.StandsIn text := by
  refine ⟨?_, ?_, ?_, ?_, ?_, ?_, ?_⟩
  · rw [hstart, htext, List.drop_left]
    exact ⟨white ++ openBrace :: (body ++ closeBrace :: tail), by simp [openingText]⟩
  · omega
  · have hslice := @slice_of_eq_append text (lead ++ marker) white
      (openBrace :: (body ++ closeBrace :: tail)) (by simp [htext, openingText])
      ⟨block.start + marker.length, block.openBrace⟩ (by simp [hstart]) (by simp [hopen])
    rwa [hslice]
  · exact @getElem?_of_eq_append text (lead ++ (marker ++ white)) (body ++ closeBrace :: tail)
      openBrace (by simp [htext, openingText]) _ (by simp [hopen, Nat.add_assoc])
  · omega
  · exact @getElem?_of_eq_append text (lead ++ (openingText white ++ body)) tail closeBrace
      (by simp [htext]) _ (by simp; omega)
  · refine hstop.imp_right ?_
    rintro ⟨gap, rest, hgap, rfl, hstop⟩
    refine ⟨by omega, ?_, ?_⟩
    · have hslice := @slice_of_eq_append text
        (lead ++ (openingText white ++ (body ++ [closeBrace]))) gap (closeParen :: rest)
        (by simp [htext]) ⟨block.closeBrace + 1, block.stop - 1⟩
        (by simp; omega) (by simp; omega)
      rwa [hslice]
    · exact @getElem?_of_eq_append text
        (lead ++ (openingText white ++ (body ++ closeBrace :: gap))) rest closeParen
        (by simp [htext]) _ (by simp; omega)

theorem list_standsIn_of_pieces {left before after contents right : Bytes}
    {list : ListProperty}
    (htext : text = lead ++ (openingText white ++ (left ++ (keyText before after ++
      (contents ++ closeBracket :: right)) ++ closeBrace :: tail)))
    (hopen : block.openBrace = lead.length + marker.length + white.length)
    (hclose : block.closeBrace = block.openBrace + 1 + (left ++ (keyText before after ++
      (contents ++ closeBracket :: right))).length)
    (hstart : list.start = block.openBrace + 1 + left.length)
    (hcontents : list.contents.start = list.start + (keyText before after).length)
    (hinner : list.contents.stop = list.contents.start + contents.length)
    (hstop : list.stop = list.contents.stop + 1) : list.StandsIn block text := by
  have hkey := Balanced.length_keyText before after
  have hlength : block.closeBrace = block.openBrace + 1 + left.length +
      (keyText before after).length + contents.length + 1 + right.length := by
    simp [hclose]
    omega
  refine ⟨by omega, ?_, by omega, ?_, by omega, ?_, hstop, by omega⟩
  · have hdrop : text.drop list.start = keyText before after ++
        (contents ++ closeBracket :: (right ++ closeBrace :: tail)) := by
      have hsplit : text = (lead ++ (openingText white ++ left)) ++ (keyText before after ++
          (contents ++ closeBracket :: (right ++ closeBrace :: tail))) := by
        simp [htext]
      rw [hsplit]
      exact List.drop_left' (by simp [hstart, hopen]; omega)
    rw [hdrop, keyText]
    exact ⟨_, by rw [List.append_assoc, List.append_assoc]⟩
  · exact @getElem?_of_eq_append text (lead ++ (openingText white ++ (left ++
      (listKey ++ (before ++ colon :: after)))))
      (contents ++ closeBracket :: (right ++ closeBrace :: tail)) openBracket
      (by simp [htext, keyText]) _ (by simp; omega)
  · exact @getElem?_of_eq_append text (lead ++ (openingText white ++ (left ++
      (keyText before after ++ contents)))) (right ++ closeBrace :: tail) closeBracket
      (by simp [htext]) _ (by simp; omega)

end Pieces

theorem Balanced.IsBlank.isWhite {text : Bytes} (hblank : Balanced.IsBlank text) :
    IsWhite text := by
  refine ⟨text.map ([·]), ?_, by simp [List.flatten_eq_flatMap, List.flatMap_map]⟩
  intro word hword
  obtain ⟨b, hb, rfl⟩ := List.mem_map.mp hword
  rcases Balanced.eq_of_isAsciiBlank (List.all_eq_true.mp hblank b hb) with
    rfl | rfl | rfl | rfl | rfl <;> decide

theorem Mode.prefix_of_view {mode : Mode} {text piece : Bytes} {right : CodeView}
    (h : mode.view text = piece.map some ++ right) : piece <+: text := by
  induction piece generalizing mode text with
  | nil => exact List.nil_prefix
  | cons b piece ih =>
      cases text with
      | nil => cases h
      | cons first text =>
          rw [Mode.view, List.map_cons, List.cons_append] at h
          obtain ⟨hfirst, hrest⟩ := List.cons.inj h
          split at hfirst
          · obtain rfl := Option.some.inj hfirst
            exact List.cons_prefix_cons.mpr ⟨rfl, ih hrest⟩
          · cases hfirst

theorem Mode.getElem?_of_view {mode : Mode} {text : Bytes} {offset : Nat} {b : UInt8}
    (h : (mode.view text)[offset]? = some (some b)) : text[offset]? = some b := by
  induction text generalizing mode offset with
  | nil => cases h
  | cons first text ih =>
      cases offset with
      | zero =>
          have hshown : mode.shown first text.head? = some b := Option.some.inj h
          rw [Mode.eq_of_shown_eq_some hshown]
          rfl
      | succ offset => exact ih h

namespace Balanced

theorem Frame.block_standsIn (frame : Frame) (body : Bytes) :
    (frame.block body).StandsIn (frame.text body) := by
  refine block_standsIn_of_pieces rfl frame.blank_isBlank.isWhite (by simp)
    (by simp [Frame.block, blockAt]) (by simp [Frame.block, blockAt]) ?_
  cases hclosing : separator? closeParen (codeView frame.rest) with
  | none => exact .inl (by simp [Frame.block, blockAt, hclosing])
  | some width =>
      obtain ⟨gap, more, hgap, hview, rfl⟩ := (separator?_eq_some_iff (by decide)).mp hclosing
      obtain ⟨rest, hrest⟩ := Mode.prefix_of_view
        (show Mode.code.view frame.rest = (gap ++ [closeParen]).map some ++ more by
          rw [List.map_append, List.append_assoc]
          exact hview)
      refine .inr ⟨gap, rest, hgap.isWhite, by simpa using hrest.symm, ?_⟩
      simp [Frame.block, blockAt, hclosing]
      omega

theorem standsIn_of_scan {text : Bytes} {declaration : Declaration}
    (h : scan text = some declaration) : declaration.StandsIn text := by
  obtain ⟨block, list⟩ := declaration
  cases list with
  | none =>
      obtain ⟨source, rfl, rfl⟩ := exists_bareSource h
      exact ⟨source.toFrame.block_standsIn source.body, by simp⟩
  | some list =>
      obtain ⟨source, rfl, rfl, rfl⟩ := exists_listedSource h
      refine ⟨source.toFrame.block_standsIn source.body, ?_⟩
      rintro list ⟨rfl⟩
      exact list_standsIn_of_pieces rfl (by simp [ListedSource.block, Frame.block, blockAt])
        (by simp [ListedSource.block, Frame.block, blockAt, ListedSource.body])
        (by simp [ListedSource.block, Frame.block, blockAt, ListedSource.list, listedAt,
          Frame.bodyStart])
        rfl (by simp [ListedSource.list, listedAt]) rfl

end Balanced

namespace FirstClose

theorem Frame.text_eq (frame : Frame) (body : Bytes) :
    frame.text body = frame.lead ++ (openingText frame.white ++
      (body ++ closeBrace :: closeParen :: frame.rest)) := by
  simp [text, blockText]

theorem Frame.block_standsIn (frame : Frame) (body : Bytes) :
    (frame.block body).StandsIn (frame.text body) := by
  refine block_standsIn_of_pieces (frame.text_eq body) frame.white_isWhite rfl rfl
    (by simp [Frame.block, Frame.bodyStart]; omega) (.inr ⟨[], frame.rest, ⟨[], by simp, rfl⟩,
      rfl, by simp [Frame.block]⟩)

theorem standsIn_of_scan {text : Bytes} {declaration : Declaration}
    (h : scan text = some declaration) : declaration.StandsIn text := by
  obtain ⟨block, list⟩ := declaration
  cases list with
  | none =>
      obtain ⟨source, rfl, rfl⟩ := exists_bareSource h
      exact ⟨source.toFrame.block_standsIn source.body, by simp⟩
  | some list =>
      obtain ⟨source, rfl, rfl, rfl⟩ := exists_listedSource h
      refine ⟨source.toFrame.block_standsIn source.body, ?_⟩
      rintro list ⟨rfl⟩
      exact list_standsIn_of_pieces (source.toFrame.text_eq source.body) rfl
        (by simp [ListedSource.block, Frame.block, Frame.bodyStart, ListedSource.body]; omega)
        (by simp [ListedSource.block, Frame.block, ListedSource.list, listAt,
          Frame.bodyStart]; omega)
        rfl rfl rfl

end FirstClose

theorem BlockScan.standsIn {strategy : BlockScan} {text : Bytes} {declaration : Declaration}
    (h : strategy.scan text = some declaration) : declaration.StandsIn text := by
  cases strategy with
  | firstClose => exact FirstClose.standsIn_of_scan h
  | balanced => exact Balanced.standsIn_of_scan h

end Extraction
