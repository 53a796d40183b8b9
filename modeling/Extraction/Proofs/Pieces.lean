import Extraction.Proofs.Layout
import Extraction.Proofs.Reading
/-!
Texts that a block is found in, as the pieces that they are put together from. The pieces end in
code, so the view of the text is put together from the views of the pieces, and a text put
together from such pieces is scanned into the block that they make.
-/

namespace Extraction

open Byte CodeView

/-- Code is read behind a text that starts in code. -/
def EndsInCode (text : Bytes) : Prop :=
  Mode.code.after text none = .code

instance (text : Bytes) : Decidable (EndsInCode text) :=
  inferInstanceAs (Decidable (_ = _))

theorem codeView_eq_viewBefore (text : Bytes) :
    codeView text = Mode.code.viewBefore text none :=
  Mode.view_eq_viewBefore _ _

namespace EndsInCode

theorem nil : EndsInCode [] := rfl

theorem of_plain {text : Bytes} (hplain : text.all isPlain = true) : EndsInCode text :=
  Mode.after_code_of_plain hplain

theorem of_after {text : Bytes} {next : Option UInt8}
    (hcode : Mode.code.after text next = .code) : EndsInCode text :=
  (Mode.after_eq_code_congr hcode .none).1

theorem after_eq {text : Bytes} {next : Option UInt8} (hends : EndsInCode text)
    (hcalm : Mode.Calm next) : Mode.code.after text next = .code :=
  (Mode.after_eq_code_congr hends hcalm).1

theorem viewBefore_eq {text : Bytes} {next : Option UInt8} (hends : EndsInCode text)
    (hcalm : Mode.Calm next) : Mode.code.viewBefore text next = codeView text := by
  rw [(Mode.after_eq_code_congr hends hcalm).2, codeView_eq_viewBefore]

theorem append {left right : Bytes} (hleft : EndsInCode left) (hright : EndsInCode right)
    (hcalm : Mode.Calm right.head?) : EndsInCode (left ++ right) := by
  rw [EndsInCode, Mode.after_append, Option.or_none, hleft.after_eq hcalm]
  exact hright

theorem append_of_after {left right : Bytes}
    (hcode : Mode.code.after left right.head? = .code) (hright : EndsInCode right) :
    EndsInCode (left ++ right) := by
  rw [EndsInCode, Mode.after_append, Option.or_none, hcode]
  exact hright

theorem plain_append {text rest : Bytes} (hplain : text.all isPlain = true)
    (hrest : EndsInCode rest) : EndsInCode (text ++ rest) := by
  rw [EndsInCode, Mode.after_append, Mode.after_code_of_plain hplain]
  exact hrest

theorem of_append {left right : Bytes} (hends : EndsInCode (left ++ right))
    (hleft : EndsInCode left) (hcalm : Mode.Calm right.head?) : EndsInCode right := by
  rw [EndsInCode, Mode.after_append, Option.or_none, hleft.after_eq hcalm] at hends
  exact hends

theorem of_plain_append {text rest : Bytes} (hends : EndsInCode (text ++ rest))
    (hplain : text.all isPlain = true) : EndsInCode rest := by
  rw [EndsInCode, Mode.after_append, Mode.after_code_of_plain hplain] at hends
  exact hends

end EndsInCode

theorem codeView_append_of_after {left right : Bytes}
    (hcode : Mode.code.after left right.head? = .code) :
    codeView (left ++ right) = codeView left ++ codeView right := by
  rw [codeView, Mode.view_append, hcode, ← (Mode.after_eq_code_congr hcode .none).2,
    ← codeView_eq_viewBefore]
  rfl

theorem codeView_append {left right : Bytes} (hleft : EndsInCode left)
    (hcalm : Mode.Calm right.head?) :
    codeView (left ++ right) = codeView left ++ codeView right :=
  codeView_append_of_after (hleft.after_eq hcalm)

theorem codeView_of_plain {text : Bytes} (hplain : text.all isPlain = true) :
    codeView text = text.map some := by
  rw [codeView_eq_viewBefore, Mode.viewBefore_code_of_plain hplain]

theorem codeView_plain_append {text rest : Bytes} (hplain : text.all isPlain = true) :
    codeView (text ++ rest) = text.map some ++ codeView rest := by
  rw [codeView, Mode.view_append, Mode.viewBefore_code_of_plain hplain,
    Mode.after_code_of_plain hplain]
  rfl

theorem exists_pieces {text piece : Bytes} {left right : CodeView}
    (hview : codeView text = left ++ (piece.map some ++ right))
    (hplain : piece.all isPlain = true)
    (hhead : piece.head?.any (fun b => b != lineFeed && b != star) = true) :
    ∃ first second, text = first ++ (piece ++ second) ∧ EndsInCode first ∧
      codeView first = left ∧ codeView second = right := by
  obtain ⟨first, tail, rfl, rfl, htail⟩ := Mode.view_eq_append hview
  cases piece with
  | nil => cases hhead
  | cons b piece =>
      have hne : b ≠ lineFeed ∧ b ≠ star := by simpa using hhead
      have hslash : b ≠ slash := by
        rintro rfl
        cases hplain
      obtain ⟨⟨more, rfl⟩, hmode⟩ := Mode.view_eq_some_cons htail
      have hcode := hmode.resolve_right (fun h => hne.1 h.2)
      have hcalm : Mode.Calm (b :: more).head? :=
        ⟨fun h => hslash (Option.some.inj h), fun h => hne.2 (Option.some.inj h)⟩
      have hends := EndsInCode.of_after hcode
      rw [hcode] at htail
      obtain ⟨whole, second, hmore, hwhole, hsecond⟩ := Mode.view_eq_append htail
      rw [Mode.eq_of_viewBefore_eq_map hwhole] at hmore hsecond
      rw [hmore]
      refine ⟨first, second, rfl, hends, (hends.viewBefore_eq hcalm).symm, ?_⟩
      rw [← hsecond, Mode.after_code_of_plain hplain, codeView]

namespace Balanced

theorem isPlain_of_isAsciiBlank {b : UInt8} (h : isAsciiBlank b = true) : isPlain b = true := by
  rcases eq_of_isAsciiBlank h with rfl | rfl | rfl | rfl | rfl <;> decide

theorem IsBlank.isPlain {text : Bytes} (h : IsBlank text) : text.all isPlain = true :=
  List.all_eq_true.mpr fun b hb => isPlain_of_isAsciiBlank (List.all_eq_true.mp h b hb)

theorem isPlain_keyText {before after : Bytes} (hbefore : IsBlank before)
    (hafter : IsBlank after) : (keyText before after).all isPlain = true := by
  rw [keyText, List.all_append, List.all_append, List.all_cons, List.all_append,
    hbefore.isPlain, hafter.isPlain]
  decide

theorem isPlain_openingText {blank : Bytes} (hblank : IsBlank blank) :
    (openingText blank).all isPlain = true := by
  rw [openingText, List.all_append, List.all_append, hblank.isPlain]
  decide

theorem calm_cons {b : UInt8} {rest : Bytes} (hcalm : Mode.Calm (some b)) :
    Mode.Calm (b :: rest).head? :=
  hcalm

theorem calm_openingText (blank rest : Bytes) :
    Mode.Calm (openingText blank ++ rest).head? :=
  @calm_cons 0x40 _ (by decide)

theorem calm_keyText (before after rest : Bytes) :
    Mode.Calm (keyText before after ++ rest).head? :=
  @calm_cons 0x69 _ (by decide)

/-- What surrounds the body of a block: the text before its marker, the white space behind the
marker, and the text behind its closing brace. -/
structure Frame where
  lead : Bytes
  blank : Bytes
  rest : Bytes
  lead_ends : EndsInCode lead
  lead_free : MarkerFree (codeView lead)
  blank_isBlank : IsBlank blank

namespace Frame

def text (frame : Frame) (body : Bytes) : Bytes :=
  frame.lead ++ (openingText frame.blank ++ (body ++ closeBrace :: frame.rest))

def block (frame : Frame) (body : Bytes) : Block :=
  blockAt (codeView frame.lead) frame.blank (codeView body) (codeView frame.rest)

def bodyStart (frame : Frame) : Nat :=
  frame.lead.length + marker.length + frame.blank.length + 1

theorem codeView_text (frame : Frame) {body : Bytes} (hbody : EndsInCode body) :
    codeView (frame.text body) = blockView (codeView frame.lead) frame.blank (codeView body)
      (codeView frame.rest) := by
  rw [text, codeView_append frame.lead_ends (calm_openingText _ _),
    codeView_plain_append (isPlain_openingText frame.blank_isBlank),
    codeView_append hbody (calm_cons (by decide)), ← List.singleton_append,
    codeView_plain_append (by decide)]
  rfl

@[simp] theorem block_start (frame : Frame) (body : Bytes) :
    (frame.block body).start = frame.lead.length := by
  simp [block, blockAt]

theorem block_openBrace (frame : Frame) (body : Bytes) :
    (frame.block body).openBrace + 1 = frame.bodyStart := by
  simp [block, blockAt, bodyStart]

theorem block_closeBrace (frame : Frame) (body : Bytes) :
    (frame.block body).closeBrace = frame.bodyStart + body.length := by
  simp [block, blockAt, bodyStart]

theorem block_stop (frame : Frame) (body : Bytes) :
    (frame.block body).closeBrace + 1 ≤ (frame.block body).stop := by
  simp [block, blockAt]

theorem block_of_closeParen (frame : Frame) {tail : Bytes}
    (hrest : frame.rest = closeParen :: tail) (body : Bytes) :
    frame.block body =
      { start := frame.lead.length
        stop := frame.bodyStart + body.length + 2
        openBrace := frame.lead.length + marker.length + frame.blank.length
        closeBrace := frame.bodyStart + body.length } := by
  have hview : codeView frame.rest = some closeParen :: codeView tail := by
    rw [hrest]
    exact @codeView_plain_append [closeParen] tail (by decide)
  have hseparator : separator? closeParen (some closeParen :: codeView tail) = some 1 := rfl
  simp [block, blockAt, bodyStart, hview, hseparator]

theorem text_eq (frame : Frame) (body : Bytes) :
    frame.text body =
      (frame.lead ++ openingText frame.blank) ++ (body ++ closeBrace :: frame.rest) :=
  (List.append_assoc _ _ _).symm

theorem length_before_body (frame : Frame) :
    (frame.lead ++ openingText frame.blank).length = frame.bodyStart := by
  simp [bodyStart]
  omega

theorem take_text (frame : Frame) (left right : Bytes) :
    (frame.text (left ++ right)).take (frame.bodyStart + left.length) =
      frame.lead ++ (openingText frame.blank ++ left) := by
  rw [text_eq, ← frame.length_before_body, ← List.length_append, ← List.append_assoc,
    ← List.append_assoc, List.append_assoc _ right, List.take_left, List.append_assoc]

theorem drop_text (frame : Frame) (left right : Bytes) :
    (frame.text (left ++ right)).drop (frame.bodyStart + left.length) =
      right ++ closeBrace :: frame.rest := by
  rw [text_eq, ← frame.length_before_body, ← List.length_append, ← List.append_assoc,
    ← List.append_assoc, List.append_assoc _ right, List.drop_left]

end Frame

structure BareSource extends Frame where
  body : Bytes
  body_ends : EndsInCode body
  bare : BareBody 0 (some openBrace) (codeView body)

namespace BareSource

def text (source : BareSource) : Bytes :=
  source.toFrame.text source.body

def block (source : BareSource) : Block :=
  source.toFrame.block source.body

theorem scan_text (source : BareSource) : scan source.text = some ⟨source.block, none⟩ := by
  rw [scan, text, source.codeView_text source.body_ends]
  exact scanView_bare source.lead_free source.blank_isBlank source.bare

end BareSource

structure ListedSource extends Frame where
  left : Bytes
  before : Bytes
  after : Bytes
  contents : Bytes
  right : Bytes
  left_ends : EndsInCode left
  contents_ends : EndsInCode contents
  right_ends : EndsInCode right
  listed : ListedBody 0 (some openBrace) (codeView left) before after (codeView contents)
    (codeView right)

namespace ListedSource

def body (source : ListedSource) : Bytes :=
  source.left ++ (keyText source.before source.after ++
    (source.contents ++ closeBracket :: source.right))

def text (source : ListedSource) : Bytes :=
  source.toFrame.text source.body

def block (source : ListedSource) : Block :=
  source.toFrame.block source.body

def list (source : ListedSource) : ListProperty :=
  listedAt source.bodyStart (codeView source.left) source.before source.after
    (codeView source.contents)

theorem codeView_body (source : ListedSource) :
    codeView source.body = listedView (codeView source.left) source.before source.after
      (codeView source.contents) (codeView source.right) := by
  rw [body, codeView_append source.left_ends (calm_keyText _ _ _),
    codeView_plain_append
      (isPlain_keyText source.listed.before_blank source.listed.after_blank),
    codeView_append source.contents_ends (calm_cons (by decide)), ← List.singleton_append,
    codeView_plain_append (by decide)]
  rfl

theorem body_ends (source : ListedSource) : EndsInCode source.body := by
  have hclosing : EndsInCode ([closeBracket] ++ source.right) :=
    .plain_append (by decide) source.right_ends
  exact source.left_ends.append
    (.plain_append (isPlain_keyText source.listed.before_blank source.listed.after_blank)
      (source.contents_ends.append hclosing (calm_cons (by decide))))
    (calm_keyText _ _ _)

theorem scan_text (source : ListedSource) :
    scan source.text = some ⟨source.block, some source.list⟩ := by
  rw [scan, text, source.codeView_text source.body_ends, source.codeView_body, block,
    Frame.block, source.codeView_body]
  refine (scanView_listed source.lead_free source.blank_isBlank source.listed).trans ?_
  rw [list, Frame.bodyStart, length_codeView]

end ListedSource

theorem exists_frame {text : Bytes} {lead : CodeView} {blank : Bytes} {body rest : CodeView}
    (hview : codeView text = blockView lead blank body rest) (hlead : MarkerFree lead)
    (hblank : IsBlank blank) :
    ∃ (frame : Frame) (piece : Bytes), frame.text piece = text ∧ EndsInCode piece ∧
      codeView piece = body ∧ frame.block piece = blockAt lead blank body rest ∧
      frame.bodyStart = lead.length + marker.length + blank.length + 1 := by
  obtain ⟨first, second, rfl, hfirst, rfl, hsecond⟩ :=
    exists_pieces hview (isPlain_openingText hblank) rfl
  have hclosing : codeView second = body ++ ([closeBrace].map some ++ rest) := hsecond
  obtain ⟨piece, last, rfl, hpiece, rfl, rfl⟩ := exists_pieces hclosing (by decide) rfl
  exact ⟨⟨first, blank, last, hfirst, hlead, hblank⟩, piece, rfl, hpiece, rfl, rfl,
    by simp [Frame.bodyStart]⟩

theorem exists_bareSource {text : Bytes} {block : Block} (h : scan text = some ⟨block, none⟩) :
    ∃ source : BareSource, source.text = text ∧ source.block = block := by
  have hlayout := layout_of_scanView h
  generalize hview : codeView text = view at hlayout
  generalize hdeclaration : Declaration.mk block none = declaration at hlayout
  cases hlayout with
  | bare hlead hblank hbody =>
      obtain ⟨rfl, -⟩ := Declaration.mk.inj hdeclaration
      obtain ⟨frame, piece, rfl, hends, rfl, hblock, -⟩ := exists_frame hview hlead hblank
      exact ⟨⟨frame, piece, hends, hbody⟩, rfl, hblock⟩
  | listed => cases hdeclaration

theorem exists_listedSource {text : Bytes} {block : Block} {list : ListProperty}
    (h : scan text = some ⟨block, some list⟩) :
    ∃ source : ListedSource, source.text = text ∧ source.block = block ∧
      source.list = list := by
  have hlayout := layout_of_scanView h
  generalize hview : codeView text = view at hlayout
  generalize hdeclaration : Declaration.mk block (some list) = declaration at hlayout
  cases hlayout with
  | bare => cases hdeclaration
  | @listed lead blank left before after contents right rest hlead hblank hbody =>
      obtain ⟨rfl, hlist⟩ := Declaration.mk.inj hdeclaration
      obtain ⟨frame, piece, rfl, hends, hpiece, hblock, hstart⟩ :=
        exists_frame hview hlead hblank
      have hkey := isPlain_keyText hbody.before_blank hbody.after_blank
      obtain ⟨leftText, more, rfl, hleft, rfl, hmore⟩ := exists_pieces hpiece hkey rfl
      have hclosing : codeView more = contents ++ ([closeBracket].map some ++ right) := hmore
      obtain ⟨contentsText, rightText, rfl, hcontents, rfl, rfl⟩ :=
        exists_pieces hclosing (by decide) rfl
      have hright : EndsInCode ([closeBracket] ++ rightText) :=
        (((hends.of_append hleft (calm_keyText _ _ _)).of_plain_append hkey).of_append
          hcontents (calm_cons (by decide)))
      refine ⟨⟨frame, leftText, before, after, contentsText, rightText, hleft, hcontents,
        hright.of_plain_append (by decide), hbody⟩, rfl, hblock, ?_⟩
      rw [Option.some.inj hlist, ListedSource.list, hstart]

end Balanced

end Extraction
