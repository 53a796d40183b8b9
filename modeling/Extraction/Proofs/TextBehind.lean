import Extraction.Proofs.ScanResult
/-!
The text behind a block. Where a block ends with its closing parenthesis, no look-ahead of a scan
goes beyond it: whatever text is put in place of the one behind the block, the same block is found
and the same list.
-/

namespace Extraction

open Byte Bytes

namespace FirstClose

def Frame.followedBy (frame : Frame) (tail : Bytes) : Frame :=
  { frame with rest := tail }

theorem Frame.take_text_append (frame : Frame) (body tail : Bytes) :
    (frame.text body).take (frame.block body).stop ++ tail =
      (frame.followedBy tail).text body := by
  have htext : frame.text body = (frame.lead ++ blockText frame.white body) ++ frame.rest :=
    (List.append_assoc ..).symm
  have hstop : (frame.block body).stop = (frame.lead ++ blockText frame.white body).length := by
    simp [block, bodyStart, blockText]
    omega
  rw [htext, hstop, List.take_left, List.append_assoc]
  rfl

theorem scan_take_append {text : Bytes} {declaration : Declaration}
    (h : scan text = some declaration) (tail : Bytes) :
    scan (text.take declaration.block.stop ++ tail) = some declaration := by
  obtain ⟨frame, body, rfl, hbody, rfl⟩ := exists_frame h
  rw [frame.take_text_append body tail, (frame.followedBy tail).scan_text hbody]
  rfl

end FirstClose

namespace Balanced

/-- The frame with a parenthesis behind white space, and another text behind that. -/
def Frame.closedBy (frame : Frame) (gap tail : Bytes) : Frame :=
  { frame with rest := gap ++ closeParen :: tail }

theorem separator?_codeView_gap {gap : Bytes} (hgap : IsBlank gap) (tail : Bytes) :
    separator? closeParen (codeView (gap ++ closeParen :: tail)) = some (gap.length + 1) := by
  have hview : codeView (gap ++ closeParen :: tail) =
      gap.map some ++ some closeParen :: codeView tail := by
    rw [codeView_plain_append hgap.isPlain, ← List.singleton_append,
      codeView_plain_append (by decide)]
    rfl
  exact (separator?_eq_some_iff (by decide)).mpr ⟨gap, _, hgap, hview, rfl⟩

/-- A block whose last byte is a parenthesis has it behind its closing brace and white space. -/
theorem Frame.exists_gap (frame : Frame) {body : Bytes}
    (hparen : (frame.text body)[(frame.block body).stop - 1]? = some closeParen) :
    ∃ gap tail, IsBlank gap ∧ frame.rest = gap ++ closeParen :: tail := by
  cases hclosing : separator? closeParen (codeView frame.rest) with
  | none =>
      have hstop : (frame.block body).stop - 1 = (frame.block body).closeBrace := by
        simp [block, blockAt, hclosing]
      have hbrace := (frame.block_standsIn body).closeBrace_at
      rw [hstop, hbrace] at hparen
      cases hparen
  | some width =>
      obtain ⟨gap, more, hgap, hview, -⟩ := (separator?_eq_some_iff (by decide)).mp hclosing
      obtain ⟨tail, htail⟩ := Mode.prefix_of_view
        (show Mode.code.view frame.rest = (gap ++ [closeParen]).map some ++ more by
          rw [List.map_append, List.append_assoc]
          exact hview)
      exact ⟨gap, tail, hgap, by simpa using htail.symm⟩

section Gap

variable (frame : Frame) {gap rest : Bytes} (hgap : IsBlank gap)
  (hrest : frame.rest = gap ++ closeParen :: rest)
include hgap hrest

theorem Frame.take_text_append (body tail : Bytes) :
    (frame.text body).take (frame.block body).stop ++ tail =
      (frame.closedBy gap tail).text body := by
  have htext : frame.text body = (frame.lead ++ (openingText frame.blank ++
      (body ++ closeBrace :: (gap ++ [closeParen])))) ++ rest := by
    simp [text, hrest]
  have hstop : (frame.block body).stop = (frame.lead ++ (openingText frame.blank ++
      (body ++ closeBrace :: (gap ++ [closeParen])))).length := by
    simp [block, blockAt, hrest, separator?_codeView_gap hgap]
    omega
  rw [htext, hstop, List.take_left]
  simp [text, closedBy]

theorem Frame.block_closedBy (body tail : Bytes) :
    (frame.closedBy gap tail).block body = frame.block body := by
  simp [block, blockAt, closedBy, hrest, separator?_codeView_gap hgap]

end Gap

theorem scan_take_append {text : Bytes} {declaration : Declaration}
    (h : scan text = some declaration)
    (hparen : text[declaration.block.stop - 1]? = some closeParen) (tail : Bytes) :
    scan (text.take declaration.block.stop ++ tail) = some declaration := by
  obtain ⟨block, list⟩ := declaration
  cases list with
  | none =>
      obtain ⟨source, rfl, rfl⟩ := exists_bareSource h
      obtain ⟨gap, rest, hgap, hrest⟩ := source.toFrame.exists_gap hparen
      let target : BareSource := { source with toFrame := source.toFrame.closedBy gap tail }
      have htext : source.text.take source.block.stop ++ tail = target.text :=
        source.toFrame.take_text_append hgap hrest source.body tail
      have hblock : target.block = source.block :=
        source.toFrame.block_closedBy hgap hrest source.body tail
      rw [htext, target.scan_text, hblock]
  | some list =>
      obtain ⟨source, rfl, rfl, rfl⟩ := exists_listedSource h
      obtain ⟨gap, rest, hgap, hrest⟩ := source.toFrame.exists_gap hparen
      let target : ListedSource := { source with toFrame := source.toFrame.closedBy gap tail }
      have htext : source.text.take source.block.stop ++ tail = target.text :=
        source.toFrame.take_text_append hgap hrest source.body tail
      have hblock : target.block = source.block :=
        source.toFrame.block_closedBy hgap hrest source.body tail
      rw [htext, target.scan_text, hblock]
      rfl

end Balanced

/-- A block that ends with its parenthesis is found with the same list whatever text follows it. -/
theorem BlockScan.scan_replace_tail {strategy : BlockScan} {text : Bytes}
    {declaration : Declaration} (h : strategy.scan text = some declaration)
    (hparen : text[declaration.block.stop - 1]? = some closeParen) (tail : Bytes) :
    strategy.scan (text.take declaration.block.stop ++ tail) = some declaration := by
  cases strategy with
  | firstClose => exact FirstClose.scan_take_append h tail
  | balanced => exact Balanced.scan_take_append h hparen tail

/-- Behind the early end that the heuristic finds in a literal, and behind the true one. -/
theorem BlockScan.scan_replace_tail_literal :
    let text := utf8 "@Component(\x7b template: '\x7d)', imports: [A] \x7d\n) /*"
    let tail := utf8 "'*/ imports: [B] @Component(\x7b imports: [C] \x7d) \""
    let early : Declaration := ⟨⟨0, 26, 11, 24⟩, none⟩
    let late : Declaration := ⟨⟨0, 45, 11, 42⟩, some ⟨29, 41, ⟨39, 40⟩⟩⟩
    firstClose.scan (text.take 26 ++ tail) = some early ∧
      balanced.scan (text.take 45 ++ tail) = some late := by
  intro text tail early late
  have hearly : firstClose.scan text = some early := by decide +kernel
  have hlate : balanced.scan text = some late := by decide +kernel
  exact ⟨scan_replace_tail hearly (by decide +kernel) tail,
    scan_replace_tail hlate (by decide +kernel) tail⟩

end Extraction
