import Extraction.Proofs.AnchorPieces
import Extraction.Proofs.ScanResult
import Extraction.Source.Rewire
/-!
Rewiring with every cut checked. A checked function gives no result if a range that it cuts out of
the text is reversed, leaves the text or splits a character; on well-formed text each of them
gives the result of the function that it checks.
-/

namespace Extraction

open Byte Bytes

/-! The functions with their cuts checked. -/

def FirstClose.scan? (text : Bytes) : Option (Option Declaration) :=
  match firstMatch? opening? text with
  | none => some none
  | some (start, width) => do
      let rest ← text.slice? ⟨start, text.length⟩
      match indexOf? [closeBrace, closeParen] rest with
      | none => return none
      | some close =>
          let block : Block :=
            { start
              stop := start + close + 2
              openBrace := start + width - 1
              closeBrace := start + close }
          let blockText ← text.slice? block.span
          return some { block, list := findList start blockText }

/-- The rest of the text is cut off at an `@` of code to look for the marker. -/
def Balanced.scan? (text : Bytes) : Option (Option Declaration) :=
  if (codeView text).zipIdx.all fun (code, offset) =>
      code != some 0x40 || (Span.mk offset text.length).fits text then
    some (scan text)
  else none

def BlockScan.scan? : BlockScan → Bytes → Option (Option Declaration)
  | .firstClose => FirstClose.scan?
  | .balanced => Balanced.scan?

def Block.prependFirst? (block : Block) (list : ListProperty) (text : Bytes)
    (symbolicName : String) : Option Bytes := do
  let existing ← text.slice? list.contents
  let left ← text.slice? ⟨block.start, list.start⟩
  let right ← text.slice? ⟨list.stop, block.stop⟩
  return left ++ listProperty symbolicName (trim existing) ++ right

def Block.indent? (block : Block) (text : Bytes) (offset : Nat) : Option Bytes := do
  let before ← text.slice? ⟨0, offset⟩
  let start := offset - (before.reverse.takeWhile (· != lineFeed)).length
  if start ≤ block.openBrace then return [space, space]
  let line ← text.slice? ⟨start, offset⟩
  let blanks ← line.slice? ⟨0, (line.takeWhile fun b => b == space || b == tab).length⟩
  return if blanks.isEmpty then [space, space] else blanks

/-- The bytes of the text are cut at the end of the body. -/
def propertyAnchor? (text : Bytes) (body : Span) : Option (Option Anchor) :=
  if body.stop ≤ text.length then some (propertyAnchor text body) else none

def Block.insertList? (block : Block) (text : Bytes) (symbolicName : String)
    (lineBreak : Bytes) : Option Bytes := do
  match ← propertyAnchor? text block.body with
  | none =>
      let left ← text.slice? ⟨block.start, block.closeBrace⟩
      let right ← text.slice? ⟨block.closeBrace, block.stop⟩
      return left ++ listProperty symbolicName [] ++ right
  | some anchor =>
      let indent ← block.indent? text anchor.afterCode
      let left ← text.slice? ⟨block.start, anchor.afterCode⟩
      let line ← text.slice? ⟨anchor.afterCode, anchor.lineEnd⟩
      let right ← text.slice? ⟨anchor.lineEnd, block.stop⟩
      return left ++ (if anchor.lastCodeByte == comma then [] else [comma]) ++ line ++
        lineBreak ++ indent ++ listProperty symbolicName [] ++ right

def rewire? (text : Bytes) (symbolicName modulePath : String) (strategy : BlockScan) :
    Option RewireOutcome := do
  let lineBreak := lineBreak text
  let importLine := importStatement symbolicName modulePath lineBreak
  match ← strategy.scan? text with
  | none => return .blockNotFound (importLine ++ text)
  | some { block, list := some list } =>
      let newBlock ← block.prependFirst? list text symbolicName
      let entries ← list.entries? text
      let left ← text.slice? ⟨0, block.start⟩
      let right ← text.slice? ⟨block.stop, text.length⟩
      return .rewired (importLine ++ left ++ newBlock ++ right) block (.prepended entries.length)
  | some { block, list := none } =>
      let newBlock ← block.insertList? text symbolicName lineBreak
      let left ← text.slice? ⟨0, block.start⟩
      let right ← text.slice? ⟨block.stop, text.length⟩
      return .rewired (importLine ++ left ++ newBlock ++ right) block .inserted

/-! Cuts between boundaries. -/

theorem slice?_eq {text : Bytes} {start stop : Nat} (hle : start ≤ stop)
    (hstart : text.isBoundary start = true) (hstop : text.isBoundary stop = true) :
    text.slice? ⟨start, stop⟩ = some (text.slice ⟨start, stop⟩) := by
  rw [slice?, if_pos]
  simp [Span.fits, hle, hstart, hstop]

theorem slice_zero (text : Bytes) (stop : Nat) : text.slice ⟨0, stop⟩ = text.take stop :=
  rfl

theorem slice_length (text : Bytes) (start : Nat) :
    text.slice ⟨start, text.length⟩ = text.drop start := by
  rw [slice, List.take_of_length_le]
  simp

theorem lineStart_cases {text : Bytes} {offset : Nat} (hoffset : offset ≤ text.length) :
    lineStart text offset ≤ offset ∧
      (lineStart text offset = 0 ∨
        ∃ before, lineStart text offset = before + 1 ∧ text[before]? = some lineFeed) := by
  refine ⟨Nat.sub_le _ _, ?_⟩
  have hsplit := List.takeWhile_append_dropWhile (p := (· != lineFeed))
    (l := (text.take offset).reverse)
  have hhead := List.head?_dropWhile_not (· != lineFeed) (text.take offset).reverse
  unfold lineStart
  generalize (text.take offset).reverse.takeWhile (· != lineFeed) = line at hsplit ⊢
  generalize (text.take offset).reverse.dropWhile (· != lineFeed) = lead at hsplit hhead
  have hlength : line.length + lead.length = offset := by
    have hsum := congrArg List.length hsplit
    simpa [Nat.min_eq_left hoffset] using hsum
  cases lead with
  | nil =>
      left
      simp only [List.length_nil] at hlength
      omega
  | cons b lead =>
      right
      obtain rfl : b = lineFeed := by simpa using hhead
      refine ⟨lead.length, ?_, ?_⟩
      · simp only [List.length_cons] at hlength
        omega
      · have hreverse := congrArg List.reverse hsplit
        rw [List.reverse_append, List.reverse_cons, List.reverse_reverse] at hreverse
        have htext := (List.take_append_drop offset text).symm
        rw [← hreverse] at htext
        exact @getElem?_of_eq_append text lead.reverse (line.reverse ++ text.drop offset) lineFeed
          (htext.trans (by simp)) _ (by simp)

theorem slice?_takeWhile {line : Bytes} (hunbroken : Unbroken line) {keeps : UInt8 → Bool}
    (hkeeps : ∀ b, keeps b = true → IsAscii b) :
    line.slice? ⟨0, (line.takeWhile keeps).length⟩ = some (line.takeWhile keeps) := by
  have hsplit := List.takeWhile_append_dropWhile (p := keeps) (l := line)
  have hall : ∀ b ∈ line.takeWhile keeps, IsAscii b := fun b hb =>
    hkeeps b (List.all_eq_true.mp List.all_takeWhile b hb)
  generalize line.takeWhile keeps = blanks at hsplit hall
  have hslice : line.slice ⟨0, blanks.length⟩ = blanks := by
    rw [slice_zero, ← hsplit, List.take_left]
  rw [slice?_eq (Nat.zero_le _) (isBoundary_zero line), hslice]
  rcases List.eq_nil_or_concat' blanks with rfl | ⟨init, b, rfl⟩
  · exact isBoundary_zero line
  · rw [List.length_append, List.length_singleton]
    refine hunbroken.isBoundary_succ (@getElem?_of_eq_append line init (line.dropWhile keeps) b
      ?_ _ rfl) (hall b (by simp))
    rw [List.append_cons]
    exact hsplit.symm

/-! Each checked function gives the result of the function that it checks. -/

section Checked

variable {text : Bytes}

theorem Balanced.scan?_eq : scan? text = some (scan text) := by
  rw [scan?, if_pos]
  rw [List.all_eq_true]
  rintro ⟨code, offset⟩ hmem
  cases hcode : code != some 0x40 with
  | true => simp [hcode]
  | false =>
      obtain rfl : code = some 0x40 := by simpa using hcode
      have hat := Mode.getElem?_of_view (List.mk_mem_zipIdx_iff_getElem?.mp hmem)
      have hboundary := isBoundary_of_getElem? hat (by decide)
      simp [Span.fits, hboundary, le_length_of_isBoundary hboundary, isBoundary_length]

variable (hunbroken : Unbroken text)
include hunbroken

theorem FirstClose.scan?_eq : scan? text = some (scan text) := by
  cases hfirst : firstMatch? opening? text with
  | none => simp [scan?, scan, hfirst]
  | some found =>
      obtain ⟨start, width⟩ := found
      have hstart : text.isBoundary start = true := by
        obtain ⟨lead, rest, rfl, rfl, hopening, -⟩ := firstMatch?_eq_some_iff.mp hfirst
        obtain ⟨white, rest, -, rfl, -⟩ := opening?_eq_some_iff.mp hopening
        exact isBoundary_of_getElem? (@getElem?_of_eq_append _ lead
          ((Balanced.openingText white).tail ++ rest) 0x40 rfl _ rfl) (by decide)
      have hrest := slice?_eq (le_length_of_isBoundary hstart) hstart (isBoundary_length text)
      rw [scan?, scan, hfirst]
      simp only [hrest, Option.bind_eq_bind, Option.bind_some, slice_length]
      cases hclose : indexOf? [closeBrace, closeParen] (text.drop start) with
      | none => rfl
      | some close =>
          have hscan : scan text = some ⟨⟨start, start + close + 2, start + width - 1,
              start + close⟩, findList start (text.slice ⟨start, start + close + 2⟩)⟩ := by
            simp only [scan, hfirst, hclose]
            rfl
          have hblock := (standsIn_of_scan hscan).block
          have hle : start ≤ start + close + 2 := by omega
          have hslice := slice?_eq hle hstart (hblock.isBoundary_stop hunbroken)
          simp only [Block.span]
          rw [hslice]
          rfl

theorem BlockScan.scan?_eq (strategy : BlockScan) :
    strategy.scan? text = some (strategy.scan text) := by
  cases strategy with
  | firstClose => exact FirstClose.scan?_eq hunbroken
  | balanced => exact Balanced.scan?_eq

theorem Block.prependFirst?_eq {block : Block} {list : ListProperty}
    (hblock : block.StandsIn text) (hlist : list.StandsIn block text) (symbolicName : String) :
    block.prependFirst? list text symbolicName =
      some (block.prependEntry list text symbolicName) := by
  obtain ⟨hopen, hclose, hstop⟩ := hlist.isBoundary_contents hunbroken
  have hstart := hlist.isBoundary_start
  have hblockStop := hblock.isBoundary_stop hunbroken
  have hlt := hblock.closeBrace_lt_stop
  have hcontents := slice?_eq hlist.contents_le hopen hclose
  have hleft := slice?_eq (by have := hblock.marker_le; have := hlist.openBrace_lt; omega)
    hblock.isBoundary_start hstart
  have hright := slice?_eq (by have := hlist.stop_le; omega) hstop hblockStop
  simp [prependFirst?, prependEntry, hcontents, hleft, hright]

theorem Block.indent?_eq (block : Block) {offset : Nat}
    (hoffset : text.isBoundary offset = true) :
    block.indent? text offset = some (block.indent text offset) := by
  obtain ⟨hle, hline⟩ := lineStart_cases (le_length_of_isBoundary hoffset)
  have hboundary : text.isBoundary (lineStart text offset) = true := by
    rcases hline with hzero | ⟨before, hbefore, hfeed⟩
    · rw [hzero]
      exact isBoundary_zero text
    · rw [hbefore]
      exact hunbroken.isBoundary_succ hfeed (by decide)
  have hbefore := slice?_eq (Nat.zero_le offset) (isBoundary_zero text) hoffset
  have hline := slice?_eq hle hboundary hoffset
  have hsub : Unbroken (text.slice ⟨lineStart text offset, offset⟩) :=
    hunbroken.of_infix ((List.take_prefix _ _).isInfix.trans (List.drop_suffix _ _).isInfix)
  have hblanks := @slice?_takeWhile _ hsub (fun b => b == space || b == tab) fun b hb => by
    rcases Bool.or_eq_true_iff.mp hb with hb | hb
    · rw [beq_iff_eq.mp hb]
      decide
    · rw [beq_iff_eq.mp hb]
      decide
  have hstart : offset - ((text.slice ⟨0, offset⟩).reverse.takeWhile (· != lineFeed)).length =
      lineStart text offset := rfl
  rw [indent?, hbefore]
  simp only [Option.bind_eq_bind, Option.bind_some, hstart]
  by_cases hfirst : lineStart text offset ≤ block.openBrace
  · simp [Block.indent, hfirst]
  · simp [Block.indent, hfirst, hline, hblanks]

theorem Block.insertList?_eq {block : Block} (hblock : block.StandsIn text)
    (symbolicName : String) (lineBreak : Bytes) :
    block.insertList? text symbolicName lineBreak =
      some (block.insertList text symbolicName lineBreak) := by
  have hlt := hblock.openBrace_lt
  have hmarker := hblock.marker_le
  have hcloseStop := hblock.closeBrace_lt_stop
  have hstart := hblock.isBoundary_start
  have hclose := hblock.isBoundary_closeBrace
  have hstop := hblock.isBoundary_stop hunbroken
  have hlength := le_length_of_isBoundary hclose
  have hanchor : propertyAnchor? text block.body = some (propertyAnchor text block.body) :=
    if_pos hlength
  rw [insertList?, insertList, hanchor]
  simp only [Option.bind_eq_bind, Option.bind_some]
  cases hfound : propertyAnchor text block.body with
  | none =>
      have hleft := slice?_eq (by omega) hstart hclose
      have hright := slice?_eq (by omega) hclose hstop
      simp [hleft, hright]
  | some anchor =>
      obtain ⟨hafter, hline, hend, hboundaries⟩ :=
        @propertyAnchor_bounds text block.body hlt hlength anchor hfound
      obtain ⟨hafterCode, hlineEnd⟩ := hboundaries hclose
      have hafter : block.openBrace + 1 < anchor.afterCode := hafter
      have hend : anchor.lineEnd ≤ block.closeBrace := hend
      have hleft := slice?_eq (by omega) hstart hafterCode
      have hmiddle := slice?_eq hline hafterCode hlineEnd
      have hright := slice?_eq (by omega) hlineEnd hstop
      simp [Block.indent?_eq hunbroken block hafterCode, hleft, hmiddle, hright]

end Checked

/-- On a text of whole characters, rewiring cuts nothing that it cannot cut. -/
theorem rewire?_eq {text : Bytes} (hunbroken : Unbroken text) (symbolicName modulePath : String)
    (strategy : BlockScan) :
    rewire? text symbolicName modulePath strategy =
      some (rewire text symbolicName modulePath strategy) := by
  rw [rewire?, rewire, strategy.scan?_eq hunbroken]
  simp only [Option.bind_eq_bind, Option.bind_some]
  cases hscan : strategy.scan text with
  | none => rfl
  | some declaration =>
      obtain ⟨block, list⟩ := declaration
      obtain ⟨hblock, hlist⟩ := strategy.standsIn hscan
      have hstart := hblock.isBoundary_start
      have hstop := hblock.isBoundary_stop hunbroken
      have hleft := slice?_eq (Nat.zero_le _) (isBoundary_zero text) hstart
      have hright := slice?_eq (le_length_of_isBoundary hstop) hstop (isBoundary_length text)
      cases list with
      | none =>
          have hnew := Block.insertList?_eq hunbroken hblock symbolicName (lineBreak text)
          simp [hnew, hleft, hright, slice_zero, slice_length]
      | some list =>
          have hlist := hlist list rfl
          have hnew := Block.prependFirst?_eq hunbroken hblock hlist symbolicName
          obtain ⟨hopen, hclose, -⟩ := hlist.isBoundary_contents hunbroken
          have hentries : list.entries? text = some (list.entries text) := by
            rw [ListProperty.entries?, slice?_eq hlist.contents_le hopen hclose]
            rfl
          simp [hnew, hentries, hleft, hright, slice_zero, slice_length]

end Extraction
