import Extraction.Proofs.Anchors
import Extraction.Proofs.Prepend
import Extraction.Proofs.TokenKinds
/-!
A new list in a block that had none. The place for it leaves the body in two pieces that are read
as before: the first ends in code, with a comma behind its last code, so that the key in front of
the second is the first of the body.
-/

namespace Extraction

open Byte CodeView Bytes

namespace Balanced

theorem KeyFree.of_append {depth : Nat} {previous : Option UInt8} {view rest : CodeView}
    (hfree : KeyFree depth previous (view ++ rest)) : KeyFree depth previous view := by
  intro left before after right hview
  exact hfree left before after (right ++ rest) (by rw [hview]; simp)

theorem KeyFree.append_comma {depth : Nat} {previous : Option UInt8} {view rest : CodeView}
    (hfree : KeyFree depth previous view) (hquiet : Quiet rest) :
    KeyFree depth previous (view ++ some comma :: rest) := by
  intro left before after right hview hbefore hafter hdepth
  rw [List.append_assoc] at hview
  have hletter : ∀ tail : CodeView, (keyText before after).map some ++ right ≠
      some comma :: tail := by
    intro tail htail
    cases (List.cons.inj htail).1
  rcases List.append_eq_append_iff.mp hview with ⟨more, rfl, hmore⟩ | ⟨more, rfl, hmore⟩
  · cases more with
    | nil => exact absurd hmore.symm (hletter rest)
    | cons code more =>
        obtain ⟨rfl, rfl⟩ := List.cons.inj hmore
        have hblank := hquiet 0x69 (List.mem_append_right _ (by
          exact List.mem_append_left _ List.mem_cons_self))
        cases hblank
  · cases more with
    | nil => exact absurd hmore (hletter rest)
    | cons code more =>
        obtain ⟨tail, htail⟩ := prefix_of_prefix_append_cons ⟨right, hmore⟩
          (List.cons_ne_nil code more)
          (not_mem_tail_keyText (show StopsKey (some comma) = true by decide) hbefore hafter)
        exact hfree left before after tail (by rw [← htail]; simp) hbefore hafter hdepth

/-- Two pieces between which a list can be put into a block. -/
structure Gap (left right : Bytes) : Prop where
  left_ends : EndsInCode left
  left_closed : blockDepth? 0 (codeView left) = some 0
  left_free : KeyFree 0 (some openBrace) (codeView left)
  left_previous : ((codeView left).getLast?.getD (some openBrace)).any isIdent = false
  right_ends : EndsInCode right
  right_closed : blockDepth? 0 (codeView right) = some 0

theorem gap_of_quiet {body : Bytes} (hends : EndsInCode body)
    (hbare : BareBody 0 (some openBrace) (codeView body)) (hquiet : Quiet (codeView body)) :
    Gap body [] :=
  ⟨hends, hbare.closed, hbare.free, hquiet.getLast?_any_isIdent rfl, .nil, rfl⟩

/-- Behind a comma only white space and comments follow up to the gap. -/
theorem gap_of_comma {init line right : Bytes} (hinit : EndsInCode init)
    (hclosed : blockDepth? 0 (codeView init) = some 0)
    (hfree : KeyFree 0 (some openBrace) (codeView init)) (hline : EndsInCode line)
    (hquiet : Quiet (codeView line)) (hright : EndsInCode right)
    (hrightQuiet : Quiet (codeView right)) :
    Gap (init ++ ([comma] ++ line)) right := by
  have hcalm : Mode.Calm ([comma] ++ line).head? := calm_cons (by decide)
  have hview : codeView (init ++ ([comma] ++ line)) =
      codeView init ++ some comma :: codeView line := by
    rw [codeView_append hinit hcalm, codeView_plain_append (by decide)]
    rfl
  refine ⟨hinit.append (.plain_append (by decide) hline) hcalm, ?_, ?_, ?_, hright,
    hrightQuiet.blockDepth?_eq 0⟩
  · rw [hview]
    exact (depth?_append_of_eq hclosed).trans (hquiet.blockDepth?_eq 0)
  · rw [hview]
    exact hfree.append_comma hquiet
  · rw [hview, List.getLast?_append, List.getLast?_cons, Option.some_or, Option.getD_some]
    exact hquiet.getLast?_any_isIdent (by decide)

/-! The line that the trailing comments end on. -/

theorem IsBlank.quiet_view {text : Bytes} (hblank : IsBlank text) (mode : Mode) :
    Quiet (mode.view text) :=
  fun b hb => List.all_eq_true.mp hblank b (Mode.mem_of_mem_view hb)

def IsLineStart (text : Bytes) : Prop :=
  ∃ indent, IsBlank indent ∧
    (text = lineFeed :: indent ∨ text = carriageReturn :: lineFeed :: indent)

theorem IsLineStart.isBlank {text : Bytes} (hstart : IsLineStart text) : IsBlank text := by
  obtain ⟨indent, hindent, rfl | rfl⟩ := hstart
  · exact hindent
  · exact hindent

theorem IsLineStart.calm {text : Bytes} (hstart : IsLineStart text) : Mode.Calm text.head? := by
  obtain ⟨indent, -, rfl | rfl⟩ := hstart
  · exact calm_cons (by decide)
  · exact calm_cons (by decide)

theorem IsLineStart.lineComment_after {text : Bytes} (hstart : IsLineStart text) :
    Mode.lineComment.after text none = .code := by
  obtain ⟨indent, hindent, rfl | rfl⟩ := hstart
  · exact Mode.after_code_of_plain hindent.isPlain
  · exact Mode.after_code_of_plain hindent.isPlain

section LineEnd

variable {text : Bytes}
  (hline : text.head? = some lineFeed ∨ ∃ rest, text = carriageReturn :: lineFeed :: rest)
include hline

theorem endsInCode_of_lineComment (hends : Mode.lineComment.after text none = .code) :
    EndsInCode text := by
  rcases hline with hline | ⟨rest, rfl⟩
  · have hresumes : Mode.lineComment.Resumes text := .inr (.inr ⟨rfl, hline⟩)
    have hne : text ≠ [] := by
      rintro rfl
      cases hline
    rwa [hresumes.after_eq hne] at hends
  · exact hends

theorem quiet_of_lineComment (hquiet : Quiet (Mode.lineComment.view text)) :
    Quiet (codeView text) := by
  rcases hline with hline | ⟨rest, rfl⟩
  · have hresumes : Mode.lineComment.Resumes text := .inr (.inr ⟨rfl, hline⟩)
    rwa [hresumes.view_eq] at hquiet
  · have hreturn : codeView (carriageReturn :: lineFeed :: rest) =
        [some carriageReturn] ++ codeView (lineFeed :: rest) := rfl
    have hcomment : Mode.lineComment.view (carriageReturn :: lineFeed :: rest) =
        [none] ++ codeView (lineFeed :: rest) := rfl
    rw [hcomment] at hquiet
    rw [hreturn]
    refine .append ?_ hquiet.of_append.2
    intro b hb
    obtain rfl := Option.some.inj (List.mem_singleton.mp hb)
    decide

end LineEnd

theorem StopsLine.quiet {first second start : Bytes} (hstops : StopsLine first second)
    (hstart : IsLineStart start) (hends : EndsInCode (first ++ second))
    (hquiet : Quiet (codeView (first ++ second))) :
    EndsInCode (first ++ start) ∧ Quiet (codeView (first ++ start)) ∧ EndsInCode second ∧
      Quiet (codeView second) := by
  rw [EndsInCode, Mode.after_append, Option.or_none] at hends
  rcases hstops with hcode | ⟨hcomment, hline⟩
  · have hfirstEnds := EndsInCode.of_after hcode
    rw [codeView_append_of_after hcode] at hquiet
    obtain ⟨hfirst, hsecond⟩ := hquiet.of_append
    rw [hcode] at hends
    refine ⟨hfirstEnds.append (.of_plain hstart.isBlank.isPlain) hstart.calm, ?_, hends,
      hsecond⟩
    rw [codeView_append hfirstEnds hstart.calm]
    exact hfirst.append (hstart.isBlank.quiet_view .code)
  · have hcalm : Mode.Calm second.head? := by
      rcases hline with hline | ⟨rest, rfl⟩
      · rw [hline]
        decide
      · exact calm_cons (by decide)
    have hfirstComment : Mode.code.after first start.head? = .lineComment :=
      (Mode.after_congr _ _ hstart.calm hcalm).trans hcomment
    have hfirstView : Mode.code.viewBefore first start.head? =
        Mode.code.viewBefore first second.head? := Mode.viewBefore_congr _ _ hstart.calm hcalm
    rw [codeView, Mode.view_append, hcomment] at hquiet
    obtain ⟨hfirst, hsecond⟩ := hquiet.of_append
    rw [hcomment] at hends
    refine ⟨?_, ?_, ?_, ?_⟩
    · rw [EndsInCode, Mode.after_append, Option.or_none, hfirstComment]
      exact hstart.lineComment_after
    · rw [codeView, Mode.view_append, hfirstComment, hfirstView]
      exact hfirst.append (hstart.isBlank.quiet_view .lineComment)
    · exact endsInCode_of_lineComment hline hends
    · exact quiet_of_lineComment hline hsecond

theorem isBlank_indent (block : Block) (text : Bytes) (offset : Nat) :
    IsBlank (block.indent text offset) := by
  unfold Block.indent
  simp only
  split
  · decide
  · rw [IsBlank, List.all_eq_true]
    intro b hb
    have hspace := List.all_eq_true.mp List.all_takeWhile b hb
    simp only [Bool.or_eq_true, beq_iff_eq] at hspace
    rcases hspace with rfl | rfl <;> decide

theorem isLineStart_lineBreak (text : Bytes) {indent : Bytes} (hindent : IsBlank indent) :
    IsLineStart (lineBreak text ++ indent) := by
  unfold lineBreak
  split
  · exact ⟨indent, hindent, .inr rfl⟩
  · exact ⟨indent, hindent, .inl rfl⟩

theorem BareBody.of_append {view rest : CodeView}
    (hbare : BareBody 0 (some openBrace) (view ++ rest))
    (hrest : ∀ depth, blockDepth? depth rest = some depth) :
    blockDepth? 0 view = some 0 ∧ KeyFree 0 (some openBrace) view := by
  refine ⟨?_, hbare.free.of_append⟩
  obtain ⟨depth, hdepth, hclosed⟩ := exists_depth?_of_append hbare.closed
  have hzero : depth = 0 := Option.some.inj ((hrest depth).symm.trans hclosed)
  rw [hzero] at hdepth
  exact hdepth

def separator (byte : UInt8) : Bytes :=
  if byte == comma then [] else [comma]

/-- The place for a new property in a body with code: the text up to the last code, the comments
that trail it on its line, and what follows them. -/
structure Site (body : Bytes) (byte : UInt8) (code line right : Bytes) : Prop where
  body_eq : body = code ++ (line ++ right)
  code_after : Mode.code.after code (line ++ right).head? = .code
  ends : EndsInCode (line ++ right)
  quiet : Quiet (codeView (line ++ right))
  last_comma : byte = comma →
    ∃ init, code = init ++ [comma] ∧ Mode.code.after init (some comma) = .code
  stops : StopsLine line right
  last : ∃ before token, (tokens body).filter Token.isSignificant = before ++ [token] ∧
    (byte = comma ↔ token = .code comma) ∧
    (tokens (line ++ right)).filter Token.isSignificant = []

/-- A body with a new list in it. -/
inductive Inserted (name : String) (lineBreak body : Bytes) : Bytes → Prop
  | alone (hquiet : Quiet (codeView body))
      (hnone : (tokens body).filter Token.isSignificant = []) :
      Inserted name lineBreak body (body ++ listProperty name [])
  | behind {byte : UInt8} {code line right indent : Bytes} (hsite : Site body byte code line right)
      (hindent : IsBlank indent) :
      Inserted name lineBreak body (code ++ (separator byte ++ (line ++
        (lineBreak ++ (indent ++ (listProperty name [] ++ right))))))

theorem exists_separator {first second : Bytes} {byte : UInt8}
    (hcode : Mode.code.after first second.head? = .code) (hquiet : Quiet (codeView second))
    (hbare : BareBody 0 (some openBrace) (codeView (first ++ second)))
    (hcomma : byte = comma →
      ∃ init, first = init ++ [comma] ∧ Mode.code.after init (some comma) = .code) :
    ∃ init, first ++ separator byte = init ++ [comma] ∧
      EndsInCode init ∧ blockDepth? 0 (codeView init) = some 0 ∧
        KeyFree 0 (some openBrace) (codeView init) := by
  rw [codeView_append_of_after hcode] at hbare
  by_cases hbyte : byte = comma
  · obtain ⟨init, rfl, hinit⟩ := hcomma hbyte
    rw [codeView_append (.of_after hinit) (calm_cons (by decide)), List.append_assoc] at hbare
    have hrest : ∀ depth, blockDepth? depth (codeView [comma] ++ codeView second) = some depth :=
      hquiet.blockDepth?_eq
    exact ⟨init, by simp [separator, hbyte], .of_after hinit, hbare.of_append hrest⟩
  · exact ⟨first, by simp [separator, hbyte], .of_after hcode,
      hbare.of_append hquiet.blockDepth?_eq⟩

namespace BareSource

variable (source : BareSource)

theorem slice_body : source.text.slice source.block.body = source.body := by
  have hstart : source.block.body.start = source.bodyStart + ([] : Bytes).length :=
    source.block_openBrace source.body
  have hstop : source.block.body.stop = source.bodyStart + source.body.length :=
    source.block_closeBrace source.body
  have hdrop : source.text.drop (source.bodyStart + ([] : Bytes).length) =
      source.body ++ closeBrace :: source.rest := source.drop_text [] source.body
  rw [slice, hstop, hstart, hdrop]
  simp

theorem block_stop_le {left right : Bytes} (hbody : source.body = left ++ right) :
    source.block.start ≤ source.bodyStart + left.length ∧
      source.bodyStart + left.length ≤ source.block.stop := by
  have hstop := source.block_stop source.body
  rw [source.block_closeBrace, hbody] at hstop
  simp only [List.length_append] at hstop
  constructor
  · simp [block, Frame.bodyStart]
    omega
  · rw [block, hbody]
    omega

theorem take_drop_body {left right : Bytes} (hbody : source.body = left ++ right) :
    source.text.take (source.bodyStart + left.length) =
        source.lead ++ (openingText source.blank ++ left) ∧
      source.text.drop (source.bodyStart + left.length) =
        right ++ closeBrace :: source.rest := by
  rw [text, hbody]
  exact ⟨source.take_text left right, source.drop_text left right⟩

theorem exists_inserted (name : String) :
    ∃ body, Inserted name (lineBreak source.text) source.body body ∧
      source.text.take source.block.start ++
          (source.block.insertList source.text name (lineBreak source.text) ++
            source.text.drop source.block.stop) =
        source.lead ++ (openingText source.blank ++ (body ++ closeBrace :: source.rest)) := by
  have hlast := lastCode?_tokens source.body_ends source.block.body.start
  have hsignificant := @lastCode?_significant source.block.body.start (tokens source.body)
    fun _ => codeByte?_of_mem_tokens
  unfold Block.insertList
  rw [propertyAnchor, slice_body]
  generalize lastCode? source.block.body.start (tokens source.body) = last
    at hlast hsignificant ⊢
  cases last with
  | none =>
      refine ⟨_, .alone hlast hsignificant, ?_⟩
      have hbody : source.body = source.body ++ [] := (List.append_nil _).symm
      have hclose : source.block.closeBrace = source.bodyStart + source.body.length :=
        source.block_closeBrace source.body
      obtain ⟨hle, hstop⟩ := source.block_stop_le hbody
      obtain ⟨htake, hdrop⟩ := source.take_drop_body hbody
      have hsource := source.text.take_slice_drop (listProperty name []) hle hstop
      rw [htake, hdrop] at hsource
      simpa [hclose] using hsource
  | some found =>
      obtain ⟨stop, byte, more⟩ := found
      obtain ⟨code, behind, hbody, hafter, -, rfl, hcode, hends, hquiet, hcomma⟩ := hlast
      obtain ⟨hrest, before, token, hbefore, hbyte⟩ := hsignificant
      have hstart : source.block.body.start = source.bodyStart :=
        source.block_openBrace source.body
      rw [hstart] at hafter
      obtain ⟨line, right, rfl, hlineEnd, hstops⟩ : ∃ line right, behind = line ++ right ∧
          trailingComments stop stop (tokens behind) = stop + line.length ∧
            StopsLine line right := by
        rcases trailingComments_tokens hends stop stop with hline | hline
        · exact ⟨[], behind, rfl, hline, .inl rfl⟩
        · exact hline
      refine ⟨_, .behind ⟨hbody, hcode, hends, hquiet, hcomma, hstops, before, token, hbefore,
        hbyte, hrest⟩ (isBlank_indent source.block source.text stop), ?_⟩
      have hlineBody : source.body = (code ++ line) ++ right := by simp [hbody]
      obtain ⟨hle, -⟩ := source.block_stop_le hbody
      obtain ⟨-, hstop⟩ := source.block_stop_le hlineBody
      obtain ⟨htake, hdrop⟩ := source.take_drop_body hbody
      obtain ⟨-, hright⟩ := source.take_drop_body hlineBody
      rw [List.length_append, ← Nat.add_assoc] at hstop hright
      rw [← hafter] at hle hstop htake hdrop hright
      have hslice : source.text.slice ⟨stop, stop + line.length⟩ = line := by
        rw [slice, hdrop, Nat.add_sub_cancel_left, List.append_assoc, List.take_left]
      have hsource := source.text.take_slice_drop (separator byte ++
        (line ++ (lineBreak source.text ++ (source.block.indent source.text stop ++
          listProperty name [])))) hle hstop
      rw [htake, hright] at hsource
      simp only [List.append_assoc] at hsource
      simpa [hlineEnd, hslice, separator] using hsource

theorem exists_gap (name : String) :
    ∃ left right, Gap left right ∧
      source.text.take source.block.start ++
          (source.block.insertList source.text name (lineBreak source.text) ++
            source.text.drop source.block.stop) =
        source.lead ++ (openingText source.blank ++ (left ++
          (listProperty name [] ++ (right ++ closeBrace :: source.rest)))) := by
  obtain ⟨body, hinserted, hsource⟩ := source.exists_inserted name
  cases hinserted with
  | alone hquiet =>
      refine ⟨source.body, [], gap_of_quiet source.body_ends source.bare hquiet, ?_⟩
      simpa using hsource
  | @behind byte code line right indent hsite hindent =>
      have hbare := source.bare
      rw [hsite.body_eq] at hbare
      obtain ⟨init, hinit, hinitEnds, hclosed, hfree⟩ :=
        exists_separator hsite.code_after hsite.quiet hbare hsite.last_comma
      obtain ⟨hlineEnds, hlineQuiet, hrightEnds, hrightQuiet⟩ :=
        StopsLine.quiet hsite.stops (isLineStart_lineBreak source.text hindent) hsite.ends
          hsite.quiet
      refine ⟨_, right, gap_of_comma hinitEnds hclosed hfree hlineEnds hlineQuiet hrightEnds
        hrightQuiet, ?_⟩
      have hpiece : ∀ tail, code ++ (separator byte ++ tail) = init ++ comma :: tail := by
        intro tail
        rw [← List.append_assoc, hinit, List.append_assoc, List.singleton_append]
      simpa [hpiece] using hsource

theorem exists_insert (import_ : QuotedImport) :
    ∃ target : ListedSource,
      rewire source.text import_.name import_.path .balanced =
        .rewired target.text source.block .inserted ∧
      target.lead = import_.line source.text ++ source.lead ∧
      target.contents = utf8 import_.name := by
  obtain ⟨left, right, hgap, hsource⟩ := source.exists_gap import_.name
  have hnames := import_.isNames_name
  have hcontents : listDepth? 0 (codeView (utf8 import_.name)) = some 0 := by
    rw [codeView_of_plain hnames.isPlain]
    exact hnames.listDepth?_eq 0
  refine ⟨{
    toFrame := source.withImport import_ source.text
    left
    before := []
    after := [space]
    contents := utf8 import_.name
    right
    left_ends := hgap.left_ends
    contents_ends := .of_plain hnames.isPlain
    right_ends := hgap.right_ends
    listed := ⟨hgap.left_closed, hgap.left_free, hgap.left_previous, by decide, by decide,
      hcontents, hgap.right_closed⟩ }, ?_, rfl, rfl⟩
  rw [rewire]
  simp only [BlockScan.scan, source.scan_text, listProperty_eq, Import.importStatement_eq_line,
    List.append_assoc] at hsource ⊢
  simpa [ListedSource.text, ListedSource.body, Frame.text, Frame.withImport, prependedContents]
    using hsource

end BareSource

end Balanced

end Extraction
