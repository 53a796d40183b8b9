import Extraction.Proofs.CheckedPlan
/-!
The offsets that a scan finds. They are in order and inside the text, each is that of the byte
that it is named for, and none of them splits a character.
-/

namespace Extraction

open Byte Bytes

/-- The offsets of a block's marker, of its braces and of its end. -/
def Block.offsets (block : Block) : List Nat :=
  [block.start, block.start + marker.length, block.openBrace, block.closeBrace, block.stop - 1,
    block.stop]

def ListProperty.offsets (list : ListProperty) : List Nat :=
  [list.start, list.contents.start - 1, list.contents.start, list.contents.stop, list.stop]

section Boundaries

variable {text : Bytes} {block : Block} {list : ListProperty} (hunbroken : Unbroken text)
include hunbroken

theorem Block.StandsIn.isBoundary_offsets (hblock : block.StandsIn text) :
    ∀ offset ∈ block.offsets, text.isBoundary offset = true := by
  have hmarker : text.isBoundary (block.start + marker.length) = true := by
    have hparen : text[block.start + 10]? = some openParen := by
      obtain ⟨rest, hrest⟩ := hblock.marker_at
      rw [← List.getElem?_drop, ← hrest]
      rfl
    exact hunbroken.isBoundary_succ hparen (by decide)
  have hbeforeStop : text.isBoundary (block.stop - 1) = true := by
    rcases hblock.stop with hstop | ⟨-, -, hparen⟩
    · rw [hstop, Nat.add_sub_cancel]
      exact hblock.isBoundary_closeBrace
    · exact isBoundary_of_getElem? hparen (by decide)
  simp only [offsets, List.forall_mem_cons]
  exact ⟨hblock.isBoundary_start, hmarker, isBoundary_of_getElem? hblock.openBrace_at (by decide),
    hblock.isBoundary_closeBrace, hbeforeStop, hblock.isBoundary_stop hunbroken, by simp⟩

theorem ListProperty.StandsIn.isBoundary_offsets (hlist : list.StandsIn block text) :
    ∀ offset ∈ list.offsets, text.isBoundary offset = true := by
  obtain ⟨hstart, hcontents, hstop⟩ := hlist.isBoundary_contents hunbroken
  simp only [offsets, List.forall_mem_cons]
  exact ⟨hlist.isBoundary_start, isBoundary_of_getElem? hlist.openBracket_at (by decide), hstart,
    hcontents, hstop, by simp⟩

end Boundaries

/-- What a scan finds is well formed, whatever the source holds: the offsets are in order and
inside the source, marker, key, braces, brackets and parenthesis stand where they are said to
stand, and each offset lies between two characters. -/
theorem BlockScan.scan_offsets {strategy : BlockScan} {source : String} {block : Block}
    {list : Option ListProperty} (hscan : strategy.scan (utf8 source) = some ⟨block, list⟩) :
    (block.start + 11 ≤ block.openBrace ∧ block.openBrace < block.closeBrace ∧
        block.closeBrace < block.stop ∧ block.stop ≤ (utf8 source).length) ∧
      block.StandsIn (utf8 source) ∧ (∀ offset ∈ block.offsets, IsCharOffset source offset) ∧
      ∀ property, list = some property → property.StandsIn block (utf8 source) ∧
        ∀ offset ∈ property.offsets, IsCharOffset source offset := by
  obtain ⟨hblock, hlist⟩ := BlockScan.standsIn hscan
  have hunbroken := unbroken_utf8 source
  have hstop := le_length_of_isBoundary (hblock.isBoundary_stop hunbroken)
  refine ⟨⟨hblock.marker_le, hblock.openBrace_lt, hblock.closeBrace_lt_stop, hstop⟩, hblock,
    fun offset hoffset => ?_, fun property hproperty =>
      ⟨hlist property hproperty, fun offset hoffset => ?_⟩⟩
  · exact isBoundary_utf8_iff.mp (hblock.isBoundary_offsets hunbroken offset hoffset)
  · have hproperty := hlist property hproperty
    exact isBoundary_utf8_iff.mp (hproperty.isBoundary_offsets hunbroken offset hoffset)

/-- A literal whose escape takes the first byte of a character along stands in front of the block
and in its list, and a bracket of the list is not closed. -/
theorem BlockScan.scan_offsets_illNested :
    let source := "'\\é' @Component(\n\x7b imports: [(\"\\é\x7d)\"] \x7d /*)*/)"
    BlockScan.balanced.scan (utf8 source) =
        some ⟨⟨6, 41, 18, 40⟩, some ⟨20, 39, ⟨30, 38⟩⟩⟩ ∧
      (utf8 source)[38]? = some closeBracket ∧ IsCharOffset source 38 ∧
      BlockScan.firstClose.scan (utf8 source) = some ⟨⟨6, 37, 18, 35⟩, none⟩ ∧
      (utf8 source)[36]? = some closeParen ∧ IsCharOffset source 36 := by
  intro source
  have hbalanced : BlockScan.balanced.scan (utf8 source) =
      some ⟨⟨6, 41, 18, 40⟩, some ⟨20, 39, ⟨30, 38⟩⟩⟩ := by
    decide +kernel
  have hfirst : BlockScan.firstClose.scan (utf8 source) = some ⟨⟨6, 37, 18, 35⟩, none⟩ := by
    decide +kernel
  obtain ⟨-, -, -, hlist⟩ := BlockScan.scan_offsets hbalanced
  obtain ⟨hproperty, hoffsets⟩ := hlist _ rfl
  obtain ⟨-, hblock, hcut, -⟩ := BlockScan.scan_offsets hfirst
  have hparen := hblock.stop.resolve_left (by decide)
  exact ⟨hbalanced, hproperty.closeBracket_at, hoffsets 38 (by decide), hfirst, hparen.2.2,
    hcut 36 (by decide)⟩

end Extraction
