import Extraction.Proofs.Insert
import Extraction.Proofs.ScanResult
import Extraction.Proofs.AnchorPieces
/-!
The text that rewiring makes, piece by piece, whichever strategy found the block.
-/

namespace Extraction

open Byte Bytes
open Extraction.Balanced (IsBlank isBlank_indent separator)

/-- A body with a new list in it: at its end, or on a new line behind the last code and the
comments that trail it. -/
inductive Placed (symbolicName : String) (lineBreak body : Bytes) : Bytes → Prop
  | alone : Placed symbolicName lineBreak body (body ++ listProperty symbolicName [])
  | behind {byte : UInt8} {code line right indent : Bytes} (hbody : body = code ++ (line ++ right))
      (hcomma : byte = comma → ∃ init, code = init ++ [comma]) (hindent : IsBlank indent) :
      Placed symbolicName lineBreak body (code ++ (separator byte ++ (line ++
        (lineBreak ++ (indent ++ (listProperty symbolicName [] ++ right))))))

variable {text : Bytes} {block : Block}

theorem Block.StandsIn.pieces (hblock : block.StandsIn text) :
    text = text.take (block.openBrace + 1) ++
        (text.slice block.body ++ text.drop block.closeBrace) ∧
      (text.take (block.openBrace + 1)).length = block.openBrace + 1 ∧
      (text.take (block.openBrace + 1) ++ text.slice block.body).length = block.closeBrace := by
  have hlt := hblock.openBrace_lt
  have hclose := (List.getElem?_eq_some_iff.mp hblock.closeBrace_at).1
  have hbefore : text.take (block.openBrace + 1) ++ text.slice block.body =
      text.take block.closeBrace := text.take_append_slice hlt
  refine ⟨?_, ?_, ?_⟩
  · rw [← List.append_assoc, hbefore, List.take_append_drop]
  · rw [List.length_take]
    omega
  · rw [hbefore, List.length_take]
    omega

theorem insertList_of_cuts (hblock : block.StandsIn text) {anchor : Anchor}
    (hfound : propertyAnchor text block.body = some anchor) {code line right : Bytes}
    (hslice : text.slice block.body = code ++ (line ++ right))
    (hcuts : anchor.Cuts block.body code line right) (symbolicName : String)
    (lineBreak : Bytes) :
    text.take block.start ++ (block.insertList text symbolicName lineBreak ++
        text.drop block.stop) =
      text.take (block.openBrace + 1) ++ ((code ++ (separator anchor.lastCodeByte ++ (line ++
        (lineBreak ++ (block.indent text anchor.afterCode ++
          (listProperty symbolicName [] ++ right)))))) ++ text.drop block.closeBrace) := by
  have hlt := hblock.openBrace_lt
  have hmarker := hblock.marker_le
  have hstop := hblock.closeBrace_lt_stop
  have hlength := le_length_of_isBoundary hblock.isBoundary_closeBrace
  obtain ⟨hafter, hline, hend, -⟩ :=
    @propertyAnchor_bounds text block.body hlt hlength anchor hfound
  have hafter : block.openBrace + 1 < anchor.afterCode := hafter
  have hend : anchor.lineEnd ≤ block.closeBrace := hend
  obtain ⟨hpieces, hopen, -⟩ := hblock.pieces
  have hbody : text = text.take (block.openBrace + 1) ++
      (code ++ (line ++ (right ++ text.drop block.closeBrace))) := by
    rw [hslice] at hpieces
    exact hpieces.trans (by simp)
  have hafterEq : anchor.afterCode = (text.take (block.openBrace + 1) ++ code).length := by
    rw [List.length_append, hopen]
    exact hcuts.afterCode
  have htake : text.take anchor.afterCode = text.take (block.openBrace + 1) ++ code := by
    conv_lhs => rw [hbody, ← List.append_assoc]
    exact List.take_left' hafterEq.symm
  have hmiddle : text.slice ⟨anchor.afterCode, anchor.lineEnd⟩ = line :=
    slice_of_eq_append (hbody.trans (List.append_assoc ..).symm) hafterEq
      (hcuts.lineEnd.trans (by rw [hafterEq]))
  have hdrop : text.drop anchor.lineEnd = right ++ text.drop block.closeBrace := by
    conv_lhs => rw [hbody, ← List.append_assoc, ← List.append_assoc]
    exact List.drop_left' (by rw [List.length_append, ← hafterEq, hcuts.lineEnd])
  have hsource := text.take_slice_drop (separator anchor.lastCodeByte ++ (line ++
    (lineBreak ++ (block.indent text anchor.afterCode ++ listProperty symbolicName []))))
    (show block.start ≤ anchor.afterCode by omega)
    (show anchor.lineEnd ≤ block.stop by omega)
  rw [htake, hdrop] at hsource
  rw [Block.insertList, hfound]
  simpa [hmiddle, separator] using hsource

theorem insertList_of_none (hblock : block.StandsIn text)
    (hfound : propertyAnchor text block.body = none) (symbolicName : String)
    (lineBreak : Bytes) :
    text.take block.start ++ (block.insertList text symbolicName lineBreak ++
        text.drop block.stop) =
      text.take block.closeBrace ++ (listProperty symbolicName [] ++
        text.drop block.closeBrace) := by
  have hmarker := hblock.marker_le
  have hlt := hblock.openBrace_lt
  have hsource := text.take_slice_drop (listProperty symbolicName [])
    (show block.start ≤ block.closeBrace by omega) (Nat.le_of_lt hblock.closeBrace_lt_stop)
  rw [Block.insertList, hfound]
  simpa using hsource

theorem exists_placed (hblock : block.StandsIn text) (symbolicName : String)
    (lineBreak : Bytes) :
    ∃ body, Placed symbolicName lineBreak (text.slice block.body) body ∧
      text.take block.start ++ (block.insertList text symbolicName lineBreak ++
          text.drop block.stop) =
        text.take (block.openBrace + 1) ++ (body ++ text.drop block.closeBrace) := by
  cases hfound : propertyAnchor text block.body with
  | none =>
      refine ⟨_, .alone, ?_⟩
      have hclose : text.take block.closeBrace =
          text.take (block.openBrace + 1) ++ text.slice block.body :=
        (text.take_append_slice hblock.openBrace_lt).symm
      rw [insertList_of_none hblock hfound, hclose]
      simp
  | some anchor =>
      obtain ⟨code, line, right, hslice, hcuts⟩ := exists_of_propertyAnchor hfound
      exact ⟨_, .behind hslice hcuts.comma (isBlank_indent block text anchor.afterCode),
        insertList_of_cuts hblock hfound hslice hcuts symbolicName lineBreak⟩

variable {strategy : BlockScan}

theorem rewire_of_bare (hscan : strategy.scan text = some ⟨block, none⟩)
    (symbolicName modulePath : String) :
    rewire text symbolicName modulePath strategy =
      .rewired (importStatement symbolicName modulePath (lineBreak text) ++
        (text.take block.start ++ (block.insertList text symbolicName (lineBreak text) ++
          text.drop block.stop))) block .inserted := by
  rw [rewire, hscan]
  simp

/-- A block without a list gets one in its body. -/
theorem exists_rewire_bare (hscan : strategy.scan text = some ⟨block, none⟩)
    (symbolicName modulePath : String) :
    ∃ body, Placed symbolicName (lineBreak text) (text.slice block.body) body ∧
      rewire text symbolicName modulePath strategy =
        .rewired (importStatement symbolicName modulePath (lineBreak text) ++
          (text.take (block.openBrace + 1) ++ (body ++ text.drop block.closeBrace)))
          block .inserted := by
  obtain ⟨body, hplaced, hsource⟩ :=
    exists_placed (strategy.standsIn hscan).block symbolicName (lineBreak text)
  refine ⟨body, hplaced, ?_⟩
  rw [rewire_of_bare hscan, hsource]

/-- A list gets the name in front of its trimmed contents. -/
theorem rewire_of_listed {list : ListProperty}
    (hscan : strategy.scan text = some ⟨block, some list⟩) (symbolicName modulePath : String) :
    rewire text symbolicName modulePath strategy =
      .rewired (importStatement symbolicName modulePath (lineBreak text) ++
        (text.take list.start ++ (listProperty symbolicName (trim (text.slice list.contents)) ++
          text.drop list.stop))) block (.prepended (list.entries text).length) := by
  obtain ⟨hblock, hlist⟩ := strategy.standsIn hscan
  have hblock : block.StandsIn text := hblock
  have hlist : list.StandsIn block text := hlist list rfl
  have hmarker := hblock.marker_le
  have hopen := hlist.openBrace_lt
  have hclose := hlist.stop_le
  have hstop := hblock.closeBrace_lt_stop
  have hsource := text.take_slice_drop
    (listProperty symbolicName (trim (text.slice list.contents)))
    (show block.start ≤ list.start by omega) (show list.stop ≤ block.stop by omega)
  rw [rewire, hscan, ← hsource]
  simp [Block.prependEntry]

theorem exists_rewire_of_scan {declaration : Declaration}
    (hscan : strategy.scan text = some declaration) (symbolicName modulePath : String) :
    ∃ source edit,
      rewire text symbolicName modulePath strategy = .rewired source declaration.block edit := by
  obtain ⟨block, _ | list⟩ := declaration
  · obtain ⟨body, -, hrewire⟩ := exists_rewire_bare hscan symbolicName modulePath
    exact ⟨_, _, hrewire⟩
  · exact ⟨_, _, rewire_of_listed hscan symbolicName modulePath⟩

end Extraction
