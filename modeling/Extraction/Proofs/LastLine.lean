import Extraction.Proofs.AnchorPieces
import Extraction.Proofs.Insert
/-!
A new list below the last property of a block, when that property ends a line of its own: the
comma comes right behind the property, and the list goes on a new line with the same indent.
-/

namespace Extraction

open Byte Bytes
open Extraction.Balanced (IsBlank openingText)

theorem flatten_tokens (text : Bytes) : ((tokens text).map Token.text).flatten = text := by
  obtain ⟨first, second, htext, hfirst, hsecond⟩ :=
    exists_append_of_tokens (List.append_nil (tokens text)).symm
  rw [eq_nil_of_tokens_eq_nil hsecond, List.append_nil] at htext
  rw [← hfirst, htext]

theorem lastCode?_of_quiet {items : List Token}
    (hquiet : ∀ token ∈ items, token.codeByte? = none) (offset : Nat) :
    lastCode? offset items = none := by
  induction items generalizing offset with
  | nil => rfl
  | cons token items ih =>
      obtain ⟨htoken, hitems⟩ := List.forall_mem_cons.mp hquiet
      rw [lastCode?, ih hitems, htoken]
      rfl

theorem lastCode?_append {token : Token} {byte : UInt8} {rest : List Token}
    (hbyte : token.codeByte? = some byte) (hquiet : ∀ token ∈ rest, token.codeByte? = none)
    (before : List Token) (offset : Nat) :
    lastCode? offset (before ++ token :: rest) =
      some (offset + (before.map Token.text).flatten.length + token.width, byte, rest) := by
  induction before generalizing offset with
  | nil =>
      rw [List.nil_append, lastCode?, lastCode?_of_quiet hquiet, hbyte]
      rfl
  | cons first before ih =>
      rw [List.cons_append, lastCode?, ih]
      simp [Token.width, Nat.add_assoc]

theorem of_isIdent {b : UInt8} (hident : isIdent b = true) :
    isPlain b = true ∧ isAsciiBlank b = false ∧ b ≠ comma ∧ Mode.Calm (some b) := by
  have hnot : ∀ {c}, isIdent c = false → b ≠ c := by
    rintro c hc rfl
    cases hident.symm.trans hc
  refine ⟨?_, ?_, hnot (by decide), ?_, ?_⟩
  · rw [← Bool.not_eq_false]
    intro hplain
    cases hident.symm.trans (not_isIdent_of_not_isPlain hplain)
  · rw [← Bool.not_eq_true]
    intro hblank
    cases hident.symm.trans (Balanced.not_isIdent_of_isAsciiBlank hblank)
  · exact fun h => hnot (by decide) (Option.some.inj h)
  · exact fun h => hnot (by decide) (Option.some.inj h)

theorem propertyAnchor_of_line {text : Bytes} {body : Span} {init rest : Bytes} {byte : UInt8}
    (hslice : text.slice body = init ++ byte :: lineFeed :: rest) (hinit : EndsInCode init)
    (hident : isIdent byte = true) (hrest : IsBlank rest) :
    propertyAnchor text body =
      some ⟨body.start + init.length + 1, byte, body.start + init.length + 1⟩ := by
  obtain ⟨hplain, hcode, -, hcalm⟩ := of_isIdent hident
  have hline : (byte :: lineFeed :: rest).all isPlain = true := by
    rw [List.all_cons, List.all_cons, hplain, hrest.isPlain]
    decide
  have hquiet : ∀ token ∈ (lineFeed :: rest).map Token.code, token.codeByte? = none := by
    intro token hmem
    obtain ⟨b, hb, rfl⟩ := List.mem_map.mp hmem
    have hblank : IsBlank (lineFeed :: rest) := hrest
    exact if_pos (List.all_eq_true.mp hblank b hb)
  have htoken : (Token.code byte).codeByte? = some byte := by
    simp [Token.codeByte?, hcode]
  rw [propertyAnchor, hslice, hinit.tokens_append (Balanced.calm_cons hcalm),
    tokens_of_plain hline, List.map_cons, lastCode?_append htoken hquiet, flatten_tokens]
  rfl

theorem lineStart_eq {text left line : Bytes} {offset : Nat} (hoffset : offset ≤ text.length)
    (htake : text.take offset = left ++ lineFeed :: line) (hline : lineFeed ∉ line) :
    lineStart text offset = left.length + 1 := by
  have hlength := congrArg List.length htake
  rw [List.length_take_of_le hoffset, List.length_append, List.length_cons] at hlength
  have hwhole : ∀ b ∈ line.reverse, (b != lineFeed) = true := by
    intro b hb
    rw [bne_iff_ne]
    rintro rfl
    exact hline (List.mem_reverse.mp hb)
  rw [lineStart, htake, List.reverse_append, List.reverse_cons, List.append_assoc,
    List.takeWhile_append_of_pos hwhole]
  simp
  omega

/-- A body whose last code ends a line of its own: the text above the line, its indent, and the
line up to its last byte. -/
structure LastLine (body above indent line : Bytes) (byte : UInt8) (rest : Bytes) : Prop where
  body_eq : body = above ++ lineFeed :: (indent ++ (line ++ byte :: lineFeed :: rest))
  indent_ne : indent ≠ []
  indent_spaces : (indent.all fun b => b == space || b == tab) = true
  line_start : ((line ++ [byte]).head?.any fun b => b == space || b == tab) = false
  line_whole : lineFeed ∉ line
  ends : EndsInCode (above ++ lineFeed :: (indent ++ line))
  byte_ident : isIdent byte = true
  rest_blank : IsBlank rest

theorem LastLine.takeWhile_eq {body above indent line rest : Bytes} {byte : UInt8}
    (hlast : LastLine body above indent line byte rest) :
    (indent ++ (line ++ [byte])).takeWhile (fun b => b == space || b == tab) = indent := by
  have hstart := hlast.line_start
  rw [List.takeWhile_append_of_pos (List.all_eq_true.mp hlast.indent_spaces)]
  cases hline : line ++ [byte] with
  | nil => simp at hline
  | cons b more =>
      rw [hline, List.head?_cons, Option.any_some] at hstart
      simp [hstart]

theorem LastLine.lineFeed_not_mem {body above indent line rest : Bytes} {byte : UInt8}
    (hlast : LastLine body above indent line byte rest) :
    lineFeed ∉ indent ++ (line ++ [byte]) := by
  simp only [List.mem_append, List.mem_singleton, not_or]
  refine ⟨?_, hlast.line_whole, ?_⟩
  · intro hmem
    cases List.all_eq_true.mp hlast.indent_spaces _ hmem
  · rintro rfl
    cases hlast.byte_ident

namespace Balanced.BareSource

variable {source : BareSource} {above indent line rest : Bytes} {byte : UInt8}
  (hlast : LastLine source.body above indent line byte rest)
include hlast

theorem indent_lastLine :
    source.block.indent source.text
      (source.bodyStart + (above ++ lineFeed :: (indent ++ (line ++ [byte]))).length) = indent := by
  have hopen : source.block.openBrace + 1 = source.bodyStart := source.block_openBrace source.body
  obtain ⟨outer, hwidth, htext⟩ : ∃ outer : Bytes,
      outer.length = source.bodyStart + above.length ∧
      source.text = (outer ++ [lineFeed]) ++ ((indent ++ (line ++ [byte])) ++
        lineFeed :: (rest ++ closeBrace :: source.rest)) := by
    refine ⟨source.lead ++ openingText source.blank ++ above, ?_, ?_⟩
    · rw [List.length_append, source.length_before_body]
    · simp [text, Frame.text, hlast.body_eq]
  have hstop : source.bodyStart + (above ++ lineFeed :: (indent ++ (line ++ [byte]))).length =
      (outer ++ [lineFeed]).length + (indent ++ (line ++ [byte])).length := by
    simp [hwidth]
    omega
  have hstart : lineStart source.text
      (source.bodyStart + (above ++ lineFeed :: (indent ++ (line ++ [byte]))).length) =
        source.bodyStart + above.length + 1 := by
    rw [hstop, ← hwidth, ← List.length_append]
    refine lineStart_eq ?_ ?_ hlast.lineFeed_not_mem
    · rw [htext]
      simp
    · rw [htext, ← List.append_assoc _ (indent ++ (line ++ [byte])) (lineFeed :: _),
        List.take_left, List.append_assoc]
      rfl
  have hslice : source.text.slice ⟨source.bodyStart + above.length + 1,
      source.bodyStart + (above ++ lineFeed :: (indent ++ (line ++ [byte]))).length⟩ =
        indent ++ (line ++ [byte]) :=
    slice_of_eq_append htext (by simp [hwidth]) hstop
  rw [Block.indent]
  simp only [hstart, hslice, hlast.takeWhile_eq]
  rw [if_neg]
  simp only [Bool.or_eq_true, decide_eq_true_eq, List.isEmpty_iff, not_or]
  exact ⟨by omega, hlast.indent_ne⟩

/-- A new list below the last line has the indent of the line. -/
theorem rewire_lastLine (symbolicName modulePath : String) :
    rewire source.text symbolicName modulePath .balanced =
      .rewired (importStatement symbolicName modulePath (lineBreak source.text) ++
        source.toFrame.text (above ++ lineFeed :: (indent ++ (line ++ byte :: comma ::
          (lineBreak source.text ++ (indent ++ (listProperty symbolicName [] ++
            lineFeed :: rest))))))) source.block .inserted := by
  have hstart : source.block.body.start = source.bodyStart := source.block_openBrace source.body
  have hcode : source.body =
      (above ++ lineFeed :: (indent ++ line)) ++ byte :: lineFeed :: rest := by
    rw [hlast.body_eq]
    simp
  have hsplit : source.body = (above ++ lineFeed :: (indent ++ (line ++ [byte]))) ++
      lineFeed :: rest := by
    rw [hlast.body_eq]
    simp
  have hwidth : source.block.body.start + (above ++ lineFeed :: (indent ++ line)).length + 1 =
      source.bodyStart + (above ++ lineFeed :: (indent ++ (line ++ [byte]))).length := by
    rw [hstart]
    simp
    omega
  have hanchor := @propertyAnchor_of_line source.text source.block.body _ rest byte
    (source.slice_body.trans hcode) hlast.ends hlast.byte_ident hlast.rest_blank
  obtain ⟨htake, hdrop⟩ := source.take_drop_body hsplit
  obtain ⟨hle, hstop⟩ := source.block_stop_le hsplit
  have hcomma : (byte == comma) = false :=
    beq_eq_false_iff_ne.mpr (of_isIdent hlast.byte_ident).2.2.1
  rw [hwidth] at hanchor
  have hsource := source.text.take_slice_drop (comma :: (lineBreak source.text ++
    (indent ++ listProperty symbolicName []))) hle hstop
  have hempty : ∀ offset, source.text.slice ⟨offset, offset⟩ = [] := by
    intro offset
    simp [slice]
  rw [htake, hdrop] at hsource
  rw [rewire]
  simp only [BlockScan.scan, source.scan_text, Block.insertList, hanchor, hcomma,
    source.indent_lastLine hlast, hempty]
  simpa [Frame.text] using hsource

end Balanced.BareSource

end Extraction
