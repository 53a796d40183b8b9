import Extraction.Proofs.CheckedRewire
/-!
What rewiring leaves of a text. Outside the block every byte stays behind the import line. In the
block the span of the list is replaced, or a comma and a list are put between the braces.
-/

namespace Extraction

open Byte Bytes

section Block

variable {text : Bytes} {block : Block}

/-- Without its insertions the new block is the old one. -/
theorem Block.exists_insertList (hblock : block.StandsIn text) (symbolicName : String)
    (lineBreak : Bytes) :
    ∃ first second separator piece, block.openBrace < first ∧ first ≤ second ∧
      second ≤ block.closeBrace ∧ (separator = [] ∨ separator = [comma]) ∧
      listProperty symbolicName [] <:+: piece ∧
      block.insertList text symbolicName lineBreak = text.slice ⟨block.start, first⟩ ++
        (separator ++ (text.slice ⟨first, second⟩ ++ (piece ++ text.slice ⟨second, block.stop⟩))) ∧
      text.slice ⟨block.start, first⟩ ++
        (text.slice ⟨first, second⟩ ++ text.slice ⟨second, block.stop⟩) =
          text.slice block.span := by
  have hlt := hblock.openBrace_lt
  have hmarker := hblock.marker_le
  have hstop := hblock.closeBrace_lt_stop
  have hlength := le_length_of_isBoundary hblock.isBoundary_closeBrace
  have hdelete : ∀ {first second}, block.openBrace < first → first ≤ second →
      second ≤ block.closeBrace → text.slice ⟨block.start, first⟩ ++
        (text.slice ⟨first, second⟩ ++ text.slice ⟨second, block.stop⟩) =
          text.slice block.span := by
    intro first second hfirst hle hsecond
    rw [slice_append_slice text hle (by omega), slice_append_slice text (by omega) (by omega)]
    rfl
  rw [insertList]
  cases hfound : propertyAnchor text block.body with
  | none =>
      refine ⟨block.closeBrace, block.closeBrace, [], listProperty symbolicName [], hlt,
        Nat.le_refl _, Nat.le_refl _, .inl rfl, List.infix_rfl, ?_,
        hdelete hlt (Nat.le_refl _) (Nat.le_refl _)⟩
      simp [slice]
  | some anchor =>
      obtain ⟨hafter, hline, hend, -⟩ :=
        @propertyAnchor_bounds text block.body hlt hlength anchor hfound
      have hafter : block.openBrace < anchor.afterCode :=
        Nat.lt_of_succ_lt hafter
      refine ⟨anchor.afterCode, anchor.lineEnd,
        (if anchor.lastCodeByte == comma then [] else [comma]),
        lineBreak ++ (block.indent text anchor.afterCode ++ listProperty symbolicName []), hafter,
        hline, hend, ?_, ⟨lineBreak ++ block.indent text anchor.afterCode, [], by simp⟩, by simp,
        hdelete hafter hline hend⟩
      split
      · exact .inl rfl
      · exact .inr rfl

theorem Block.exists_prependEntry (hblock : block.StandsIn text) {list : ListProperty}
    (hlist : list.StandsIn block text) (symbolicName : String) :
    ∃ replacement, trim (text.slice list.contents) <:+: replacement ∧
      block.prependEntry list text symbolicName = text.slice ⟨block.start, list.start⟩ ++
        (replacement ++ text.slice ⟨list.stop, block.stop⟩) ∧
      text.slice ⟨block.start, list.start⟩ ++ (text.slice ⟨list.start, list.stop⟩ ++
        text.slice ⟨list.stop, block.stop⟩) = text.slice block.span := by
  have hmarker := hblock.marker_le
  have hstop := hblock.closeBrace_lt_stop
  have hopen := hlist.openBrace_lt
  have hkey := hlist.key_lt
  have hcontents := hlist.contents_le
  have hlistStop := hlist.stop_eq
  have hclose := hlist.stop_le
  refine ⟨listProperty symbolicName (trim (text.slice list.contents)), ?_,
    by simp [prependEntry], ?_⟩
  · unfold listProperty
    split
    · next hempty =>
        rw [List.isEmpty_iff.mp hempty]
        exact List.nil_infix
    · exact ⟨_, _, rfl⟩
  · rw [slice_append_slice text (by omega) (by omega),
      slice_append_slice text (by omega) (by omega)]
    rfl

end Block

/-- Rewiring a source text cuts it only where it can be cut. Without a block it puts the import
line in front; else it changes the block as its list, or the lack of one, asks for. -/
theorem rewire_preserves (source symbolicName modulePath : String) (strategy : BlockScan) :
    let text := utf8 source
    let importLine := importStatement symbolicName modulePath (lineBreak text)
    let outcome := rewire text symbolicName modulePath strategy
    rewire? text symbolicName modulePath strategy = some outcome ∧
    match strategy.scan text with
    | none => outcome = .blockNotFound (importLine ++ text)
    | some ⟨block, some list⟩ =>
        block.start ≤ list.start ∧ list.start ≤ list.contents.start ∧
        list.contents.stop ≤ list.stop ∧ list.stop ≤ block.stop ∧ block.stop ≤ text.length ∧
        ∃ replacement, trim (text.slice list.contents) <:+: replacement ∧
          outcome = .rewired (importLine ++ text.take block.start ++
              (text.slice ⟨block.start, list.start⟩ ++
                (replacement ++ text.slice ⟨list.stop, block.stop⟩)) ++
              text.drop block.stop) block (.prepended (list.entries text).length) ∧
          text.slice ⟨block.start, list.start⟩ ++ (text.slice ⟨list.start, list.stop⟩ ++
            text.slice ⟨list.stop, block.stop⟩) = text.slice block.span
    | some ⟨block, none⟩ =>
        block.start ≤ block.openBrace ∧ block.closeBrace ≤ block.stop ∧
        block.stop ≤ text.length ∧
        ∃ first second separator piece, block.openBrace < first ∧ first ≤ second ∧
          second ≤ block.closeBrace ∧ (separator = [] ∨ separator = [comma]) ∧
          utf8 "imports: [" ++ utf8 symbolicName ++ utf8 "]" <:+: piece ∧
          outcome = .rewired (importLine ++ text.take block.start ++
              (text.slice ⟨block.start, first⟩ ++ (separator ++
                (text.slice ⟨first, second⟩ ++ (piece ++ text.slice ⟨second, block.stop⟩)))) ++
              text.drop block.stop) block .inserted ∧
          text.slice ⟨block.start, first⟩ ++ (text.slice ⟨first, second⟩ ++
            text.slice ⟨second, block.stop⟩) = text.slice block.span := by
  intro text importLine outcome
  have hunbroken : Unbroken text := unbroken_utf8 source
  refine ⟨rewire?_eq hunbroken symbolicName modulePath strategy, ?_⟩
  have houtcome : outcome = rewire text symbolicName modulePath strategy := rfl
  rw [rewire] at houtcome
  cases hscan : strategy.scan text with
  | none =>
      rw [hscan] at houtcome
      exact houtcome
  | some declaration =>
      obtain ⟨block, list⟩ := declaration
      obtain ⟨hblock, hlist⟩ := strategy.standsIn hscan
      have hblock : block.StandsIn text := hblock
      rw [hscan] at houtcome
      have hmarker := hblock.marker_le
      have hclose := hblock.closeBrace_lt_stop
      have hlength := le_length_of_isBoundary (hblock.isBoundary_stop hunbroken)
      cases list with
      | none =>
          obtain ⟨first, second, separator, piece, hfirst, hle, hsecond, hseparator, hpiece,
            hinsert, hdelete⟩ := Block.exists_insertList hblock symbolicName (lineBreak text)
          refine ⟨by omega, by omega, hlength, first, second, separator, piece, hfirst, hle,
            hsecond, hseparator, hpiece, ?_, hdelete⟩
          rw [houtcome]
          simp only [hinsert]
          rfl
      | some list =>
          have hlist : list.StandsIn block text := hlist list rfl
          have hopen := hlist.openBrace_lt
          have hkey := hlist.key_lt
          have hstop := hlist.stop_eq
          have hstopLe := hlist.stop_le
          obtain ⟨replacement, hverbatim, hprepend, hsplit⟩ :=
            Block.exists_prependEntry hblock hlist symbolicName
          refine ⟨by omega, by omega, by omega, by omega, hlength, replacement, hverbatim, ?_,
            hsplit⟩
          rw [houtcome]
          simp only [hprepend]
          rfl

end Extraction
