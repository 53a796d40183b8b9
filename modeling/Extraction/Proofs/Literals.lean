import Extraction.Proofs.Pieces
/-!
String literals in a block. A literal hides all its bytes whatever they are, so a text in which
the contents of one are replaced has the same blocks and lists around it.
-/

namespace Extraction

open Byte CodeView Extraction.Balanced

namespace Mode

variable {quote b : UInt8}

theorem code_step_quote (hquote : isQuote quote = true) (next : Option UInt8) :
    code.step quote next = .literal quote := by
  simp [step, hquote]

theorem literal_step_byte (hquote : b ≠ quote) (hbackslash : b ≠ backslash)
    (next : Option UInt8) : (literal quote).step b next = .literal quote := by
  simp [step, hquote, hbackslash]

theorem literal_step_backslash (next : Option UInt8) :
    (literal quote).step backslash next = .escape quote := by
  simp [step]

end Mode

/-- Text between the quotes of a literal: no quote of the kind ends it, and a backslash comes with
the byte that it escapes. -/
inductive Quoted (quote : UInt8) : Bytes → Prop
  | nil : Quoted quote []
  | byte {b : UInt8} {rest : Bytes} (hquote : b ≠ quote) (hbackslash : b ≠ backslash)
      (hrest : Quoted quote rest) : Quoted quote (b :: rest)
  | escape {b : UInt8} {rest : Bytes} (hrest : Quoted quote rest) :
      Quoted quote (backslash :: b :: rest)

namespace Quoted

variable {quote : UInt8}

theorem of_not_mem {text : Bytes} (hquote : quote ∉ text) (hbackslash : backslash ∉ text) :
    Quoted quote text := by
  induction text with
  | nil => exact .nil
  | cons b rest ih =>
      rw [List.mem_cons, not_or] at hquote hbackslash
      exact .byte (Ne.symm hquote.1) (Ne.symm hbackslash.1) (ih hquote.2 hbackslash.2)

theorem append {left right : Bytes} (hleft : Quoted quote left) (hright : Quoted quote right) :
    Quoted quote (left ++ right) := by
  induction hleft with
  | nil => exact hright
  | byte hquote hbackslash _ ih => exact .byte hquote hbackslash ih
  | escape _ ih => exact .escape ih

theorem literal_eq {text : Bytes} (hquoted : Quoted quote text) (next : Option UInt8) :
    (Mode.literal quote).after text next = .literal quote ∧
      (Mode.literal quote).viewBefore text next = List.replicate text.length none := by
  induction hquoted with
  | nil => exact ⟨rfl, rfl⟩
  | @byte b rest hbyte hbackslash _ ih =>
      rw [Mode.after, Mode.viewBefore, Mode.literal_step_byte hbyte hbackslash, ih.1, ih.2]
      exact ⟨rfl, rfl⟩
  | @escape b rest _ ih =>
      rw [Mode.after, Mode.viewBefore, Mode.literal_step_backslash, Mode.after, Mode.viewBefore]
      simp only [Mode.step]
      rw [ih.1, ih.2]
      exact ⟨rfl, rfl⟩

theorem holds_of_append {left right : Bytes} (hquoted : Quoted quote (left ++ right))
    (next : Option UInt8) :
    ((Mode.literal quote).after left next).Holds := by
  generalize htext : left ++ right = text at hquoted
  induction hquoted generalizing left with
  | nil =>
      obtain ⟨rfl, -⟩ := List.append_eq_nil_iff.mp htext
      trivial
  | @byte b rest hbyte hbackslash _ ih =>
      cases left with
      | nil => trivial
      | cons c left =>
          obtain ⟨rfl, hrest⟩ := List.cons.inj htext
          rw [Mode.after, Mode.literal_step_byte hbyte hbackslash]
          exact ih hrest
  | @escape b rest _ ih =>
      cases left with
      | nil => trivial
      | cons c left =>
          obtain ⟨rfl, hrest⟩ := List.cons.inj htext
          rw [Mode.after, Mode.literal_step_backslash]
          cases left with
          | nil => trivial
          | cons d left => exact ih (List.cons.inj hrest).2

end Quoted

def literalText (quote : UInt8) (content : Bytes) : Bytes :=
  quote :: (content ++ [quote])

theorem calm_of_isQuote {quote : UInt8} (hquote : isQuote quote = true) :
    Mode.Calm (some quote) := by
  simp only [isQuote, Bool.or_eq_true, beq_iff_eq] at hquote
  rcases hquote with (rfl | rfl) | rfl <;> decide

theorem code_literalText {quote : UInt8} {content : Bytes} (hquote : isQuote quote = true)
    (hquoted : Quoted quote content) (next : Option UInt8) :
    Mode.code.after (literalText quote content) next = .code ∧
      Mode.code.viewBefore (literalText quote content) next =
        List.replicate (content.length + 2) none := by
  have hne : (quote == backslash) = false := by
    rw [beq_eq_false_iff_ne]
    rintro rfl
    cases hquote
  have hclose : ∀ next, (Mode.literal quote).step quote next = .code := by
    intro next
    simp [Mode.step, hne]
  have hhidden : ∀ next, Mode.code.shown quote next = none := by
    intro next
    simp [Mode.shown, Mode.readsCode, Mode.code_step_quote hquote]
  obtain ⟨hafter, hview⟩ := hquoted.literal_eq (some quote)
  constructor
  · rw [literalText, Mode.after, Mode.code_step_quote hquote, Mode.after_append,
      List.head?_cons, Option.some_or, hafter, Mode.after, hclose, Mode.after_nil]
  · rw [literalText, Mode.viewBefore, Mode.code_step_quote hquote, Mode.viewBefore_append,
      List.head?_cons, Option.some_or, hview, hafter, Mode.viewBefore, Mode.viewBefore_nil,
      hhidden, List.replicate_succ, List.replicate_succ']
    rfl

section Piece

variable {quote : UInt8} {init content rest : Bytes} (hinit : EndsInCode init)
  (hquote : isQuote quote = true) (hquoted : Quoted quote content)
include hinit hquote hquoted

theorem codeView_literal :
    codeView (init ++ (literalText quote content ++ rest)) =
      codeView init ++ (List.replicate (content.length + 2) none ++ codeView rest) := by
  have hcalm : Mode.Calm (literalText quote content ++ rest).head? :=
    Balanced.calm_cons (calm_of_isQuote hquote)
  obtain ⟨hafter, hview⟩ := code_literalText hquote hquoted rest.head?
  rw [codeView_append hinit hcalm, codeView_append_of_after hafter, codeView_eq_viewBefore
    (literalText quote content), (code_literalText hquote hquoted none).2]

theorem endsInCode_literal_iff :
    EndsInCode (init ++ (literalText quote content ++ rest)) ↔ EndsInCode rest := by
  have hcalm : Mode.Calm (literalText quote content ++ rest).head? :=
    Balanced.calm_cons (calm_of_isQuote hquote)
  rw [EndsInCode, Mode.after_append, Option.or_none, hinit.after_eq hcalm, Mode.after_append,
    (code_literalText hquote hquoted _).1]
  rfl

end Piece

/-! Views that differ in how many bytes they hide at one place. -/

/-- The same code around hidden bytes, of which there may be more or fewer. -/
def Veils (view other : CodeView) : Prop :=
  ∃ left right width width', view = left ++ (List.replicate (width + 1) none ++ right) ∧
    other = left ++ (List.replicate (width' + 1) none ++ right)

theorem depth?_replicate_none {opens closes : UInt8 → Bool} (depth width : Nat) :
    depth? opens closes depth (List.replicate width none) = some depth := by
  apply depth?_of_forall
  intro b hb
  cases List.eq_of_mem_replicate hb

namespace Veils

theorem depth?_eq {opens closes : UInt8 → Bool} {view other : CodeView} (h : Veils view other)
    (depth : Nat) : depth? opens closes depth other = depth? opens closes depth view := by
  obtain ⟨left, right, width, width', rfl, rfl⟩ := h
  have hhidden : ∀ depth width, depth? opens closes depth (List.replicate width none ++ right) =
      depth? opens closes depth right := fun depth width =>
    depth?_append_of_eq (depth?_replicate_none depth width)
  rw [depth?_append, depth?_append]
  simp only [hhidden]

theorem getLast?_eq {view other : CodeView} (h : Veils view other) :
    other.getLast? = view.getLast? := by
  obtain ⟨left, right, width, width', rfl, rfl⟩ := h
  simp [List.getLast?_append, List.getLast?_replicate]

theorem keyFree {depth : Nat} {previous : Option UInt8} {view other : CodeView}
    (h : Veils view other) (hfree : Balanced.KeyFree depth previous view) :
    Balanced.KeyFree depth previous other := by
  obtain ⟨left, right, width, width', rfl, rfl⟩ := h
  intro first before after last hview hbefore hafter hdepth
  rw [List.append_assoc] at hview
  have hletter : ∀ tail : CodeView, (keyText before after).map some ++ last ≠ none :: tail := by
    intro tail htail
    cases (List.cons.inj htail).1
  have hbehind : ∀ more : CodeView,
      first = left ++ (List.replicate (width' + 1) none ++ more) →
      right = more ++ ((keyText before after).map some ++ last) →
      (first.getLast?.getD previous).any isIdent = true := by
    rintro more rfl rfl
    have hveils : Veils (left ++ (List.replicate (width + 1) none ++ more))
        (left ++ (List.replicate (width' + 1) none ++ more)) :=
      ⟨left, more, width, width', rfl, rfl⟩
    rw [hveils.getLast?_eq]
    exact hfree _ before after last (by simp) hbefore hafter
      ((hveils.depth?_eq depth).symm.trans hdepth)
  rcases List.append_eq_append_iff.mp hview with ⟨more, rfl, hmore⟩ | ⟨more, rfl, hmore⟩
  · rcases List.append_eq_append_iff.mp hmore with ⟨rest, rfl, hrest⟩ | ⟨rest, hhidden, hrest⟩
    · exact hbehind rest rfl hrest
    · cases rest with
      | nil =>
          rw [List.append_nil] at hhidden
          exact hbehind [] (by rw [hhidden, List.append_nil]) hrest.symm
      | cons code rest =>
          have hcode : code ∈ List.replicate (width' + 1) (none : Option UInt8) := by
            rw [hhidden]
            exact List.mem_append_right _ List.mem_cons_self
          obtain rfl := List.eq_of_mem_replicate hcode
          exact absurd hrest (hletter _)
  · rw [List.replicate_succ, List.cons_append] at hmore
    cases more with
    | nil => exact absurd hmore (hletter _)
    | cons code more =>
        obtain ⟨tail, htail⟩ := prefix_of_prefix_append_cons ⟨last, hmore⟩
          (List.cons_ne_nil code more)
          (not_mem_tail_keyText (show StopsKey none = true by decide) hbefore hafter)
        exact hfree first before after _ (by rw [← htail]; simp; rfl) hbefore hafter hdepth

theorem bareBody {previous : Option UInt8} {view other : CodeView} (h : Veils view other)
    (hbare : BareBody 0 previous view) : BareBody 0 previous other :=
  ⟨(h.depth?_eq 0).trans hbare.closed, h.keyFree hbare.free⟩

theorem listedBody_left {previous : Option UInt8} {left other : CodeView} (h : Veils left other)
    {before after : Bytes} {contents right : CodeView}
    (hlisted : ListedBody 0 previous left before after contents right) :
    ListedBody 0 previous other before after contents right :=
  { hlisted with
    left_closed := (h.depth?_eq 0).trans hlisted.left_closed
    left_free := h.keyFree hlisted.left_free
    key_previous := by
      rw [h.getLast?_eq]
      exact hlisted.key_previous }

theorem listedBody_contents {previous : Option UInt8} {contents other : CodeView}
    (h : Veils contents other) {left : CodeView} {before after : Bytes} {right : CodeView}
    (hlisted : ListedBody 0 previous left before after contents right) :
    ListedBody 0 previous left before after other right :=
  { hlisted with contents_closed := (h.depth?_eq 0).trans hlisted.contents_closed }

theorem listedBody_right {previous : Option UInt8} {right other : CodeView}
    (h : Veils right other) {left : CodeView} {before after : Bytes} {contents : CodeView}
    (hlisted : ListedBody 0 previous left before after contents right) :
    ListedBody 0 previous left before after contents other :=
  { hlisted with right_closed := (h.depth?_eq 0).trans hlisted.right_closed }

end Veils

theorem veils_literal {quote : UInt8} {init content content' rest : Bytes}
    (hinit : EndsInCode init) (hquote : isQuote quote = true) (hquoted : Quoted quote content)
    (hquoted' : Quoted quote content') :
    Veils (codeView (init ++ (literalText quote content ++ rest)))
      (codeView (init ++ (literalText quote content' ++ rest))) := by
  rw [codeView_literal hinit hquote hquoted, codeView_literal hinit hquote hquoted']
  exact ⟨_, _, _, _, rfl, rfl⟩

theorem endsInCode_literal_replace {quote : UInt8} {init content content' rest : Bytes}
    (hinit : EndsInCode init) (hquote : isQuote quote = true) (hquoted : Quoted quote content)
    (hquoted' : Quoted quote content')
    (hends : EndsInCode (init ++ (literalText quote content ++ rest))) :
    EndsInCode (init ++ (literalText quote content' ++ rest)) :=
  (endsInCode_literal_iff hinit hquote hquoted').mpr
    ((endsInCode_literal_iff hinit hquote hquoted).mp hends)

theorem exists_middle {left middle right first piece last : List α}
    (h : left ++ (middle ++ right) = first ++ (piece ++ last))
    (hfirst : left.length ≤ first.length)
    (hlast : first.length + piece.length ≤ left.length + middle.length) :
    ∃ before after, first = left ++ before ∧ middle = before ++ (piece ++ after) ∧
      last = after ++ right := by
  obtain ⟨before, rfl⟩ : left <+: first :=
    List.prefix_of_prefix_length_le ⟨_, rfl⟩ ⟨_, h.symm⟩ hfirst
  rw [List.append_assoc, List.append_cancel_left_eq, ← List.append_assoc] at h
  obtain ⟨after, rfl⟩ : before ++ piece <+: middle :=
    List.prefix_of_prefix_length_le ⟨_, rfl⟩ ⟨_, h⟩ (by simp at hlast ⊢; omega)
  rw [List.append_assoc, List.append_cancel_left_eq] at h
  exact ⟨before, after, rfl, by simp, h.symm⟩

namespace Balanced

structure Literal (frame : Frame) (body first : Bytes) (quote : UInt8) (content last : Bytes) :
    Prop where
  quotes : isQuote quote = true
  quoted : Quoted quote content
  ends : EndsInCode first
  text_eq : frame.text body = first ++ (literalText quote content ++ last)
  start_le : frame.bodyStart ≤ first.length
  le_stop : first.length + (literalText quote content).length ≤ frame.bodyStart + body.length

namespace Literal

variable {frame : Frame} {body first : Bytes} {quote : UInt8} {content last : Bytes}

theorem exists_body (h : Literal frame body first quote content last) :
    ∃ before after, EndsInCode before ∧
      body = before ++ (literalText quote content ++ after) ∧
      ∀ content', first ++ (literalText quote content' ++ last) =
        frame.text (before ++ (literalText quote content' ++ after)) := by
  have htext := h.text_eq
  rw [frame.text_eq] at htext
  obtain ⟨before, after, rfl, rfl, rfl⟩ := exists_middle htext
    (by rw [frame.length_before_body]; exact h.start_le)
    (by rw [frame.length_before_body]; exact h.le_stop)
  have hends := h.ends
  refine ⟨before, after, ?_, rfl, ?_⟩
  · rw [List.append_assoc] at hends
    exact (hends.of_append frame.lead_ends (calm_openingText _ _)).of_plain_append
      (isPlain_openingText frame.blank_isBlank)
  · intro content'
    rw [frame.text_eq]
    simp

end Literal

theorem BareSource.exists_replace (source : BareSource) {first last : Bytes} {quote : UInt8}
    {content content' : Bytes}
    (h : Literal source.toFrame source.body first quote content last)
    (hquoted : Quoted quote content') :
    ∃ target : BareSource, target.text = first ++ (literalText quote content' ++ last) ∧
      target.lead = source.lead := by
  obtain ⟨before, after, hbefore, hbody, htext⟩ := h.exists_body
  have hends := source.body_ends
  have hbare := source.bare
  rw [hbody] at hends hbare
  exact ⟨⟨source.toFrame, before ++ (literalText quote content' ++ after),
    endsInCode_literal_replace hbefore h.quotes h.quoted hquoted hends,
    (veils_literal hbefore h.quotes h.quoted hquoted).bareBody hbare⟩, (htext content').symm, rfl⟩

theorem exists_behind_plain {middle rest before after : Bytes} {quote : UInt8} {content : Bytes}
    (hplain : middle.all isPlain = true) (hquote : isQuote quote = true)
    (h : middle ++ rest = before ++ (literalText quote content ++ after)) :
    ∃ more, before = middle ++ more ∧ rest = more ++ (literalText quote content ++ after) := by
  rcases List.append_eq_append_iff.mp h with ⟨more, rfl, hmore⟩ | ⟨more, rfl, hmore⟩
  · exact ⟨more, rfl, hmore⟩
  · cases more with
    | nil => exact ⟨[], by simp, hmore.symm⟩
    | cons b more =>
        obtain ⟨rfl, -⟩ := List.cons.inj hmore
        have hb := List.all_eq_true.mp hplain quote (List.mem_append_right _ List.mem_cons_self)
        simp [isPlain, hquote] at hb

theorem not_endsInCode_of_opened {before opened closed : Bytes} {quote : UInt8}
    (hbefore : EndsInCode before) (hquote : isQuote quote = true)
    (hquoted : Quoted quote (opened ++ closed)) : ¬ EndsInCode (before ++ quote :: opened) := by
  intro hends
  have hholds := hquoted.holds_of_append none
  rw [EndsInCode, Mode.after_append, Option.or_none,
    hbefore.after_eq (calm_cons (calm_of_isQuote hquote)), Mode.after,
    Mode.code_step_quote hquote] at hends
  rw [hends] at hholds
  exact hholds

/-- A literal that is opened in a piece of text that ends in code is closed in it. -/
theorem exists_within {left rest before after : Bytes} {quote : UInt8} {content : Bytes}
    (hends : EndsInCode left) (hbefore : EndsInCode before) (hquote : isQuote quote = true)
    (hquoted : Quoted quote content) (hlt : before.length < left.length)
    (h : left ++ rest = before ++ (literalText quote content ++ after)) :
    ∃ more, left = before ++ (literalText quote content ++ more) ∧ after = more ++ rest := by
  obtain ⟨opened, rfl⟩ : before <+: left :=
    List.prefix_of_prefix_length_le ⟨_, h.symm⟩ ⟨_, rfl⟩ (Nat.le_of_lt hlt)
  rw [List.append_assoc, List.append_cancel_left_eq] at h
  rcases List.append_eq_append_iff.mp h with ⟨more, hmore, hrest⟩ | ⟨more, rfl, hrest⟩
  · cases more with
    | nil =>
        rw [List.append_nil] at hmore
        exact ⟨[], by rw [hmore, List.append_nil], hrest.symm⟩
    | cons c more =>
        cases opened with
        | nil => simp at hlt
        | cons b opened =>
            obtain ⟨rfl, hcontent⟩ := List.cons.inj hmore
            obtain ⟨closed, rfl⟩ : opened <+: content :=
              List.prefix_of_prefix_length_le ⟨_, hcontent.symm⟩ ⟨_, rfl⟩ (by
                have hlength := congrArg List.length hcontent
                simp at hlength
                omega)
            exact absurd hends (not_endsInCode_of_opened hbefore hquote hquoted)
  · exact ⟨more, rfl, hrest⟩

theorem ListedSource.exists_replace (source : ListedSource) {first last : Bytes} {quote : UInt8}
    {content content' : Bytes} (hplain : source.contents.all isPlain = true)
    (h : Literal source.toFrame source.body first quote content last)
    (hquoted : Quoted quote content') :
    ∃ target : ListedSource, target.text = first ++ (literalText quote content' ++ last) ∧
      target.lead = source.lead ∧ target.contents = source.contents := by
  obtain ⟨before, after, hbefore, hbody, htext⟩ := h.exists_body
  have hmiddle : (keyText source.before source.after ++ (source.contents ++ [closeBracket])).all
      isPlain = true := by
    rw [List.all_append, List.all_append, hplain,
      isPlain_keyText source.listed.before_blank source.listed.after_blank]
    decide
  have hsplit : source.left ++ ((keyText source.before source.after ++
      (source.contents ++ [closeBracket])) ++ source.right) =
        before ++ (literalText quote content ++ after) := by
    rw [← hbody, ListedSource.body]
    simp
  by_cases hlt : before.length < source.left.length
  · obtain ⟨more, hleft, rfl⟩ :=
      exists_within source.left_ends hbefore h.quotes h.quoted hlt hsplit
    have hends := source.left_ends
    have hlisted := source.listed
    rw [hleft] at hends hlisted
    refine ⟨⟨source.toFrame, before ++ (literalText quote content' ++ more), source.before,
      source.after, source.contents, source.right,
      endsInCode_literal_replace hbefore h.quotes h.quoted hquoted hends, source.contents_ends,
      source.right_ends,
      (veils_literal hbefore h.quotes h.quoted hquoted).listedBody_left hlisted⟩, ?_, rfl, rfl⟩
    rw [htext content']
    simp [ListedSource.text, ListedSource.body]
  · obtain ⟨outside, rfl⟩ : source.left <+: before :=
      List.prefix_of_prefix_length_le ⟨_, rfl⟩ ⟨_, hsplit.symm⟩ (Nat.le_of_not_lt hlt)
    rw [List.append_assoc source.left outside, List.append_cancel_left_eq] at hsplit
    obtain ⟨more, rfl, hright⟩ := exists_behind_plain hmiddle h.quotes hsplit
    have hcalm : ∀ tail, Mode.Calm ((keyText source.before source.after ++
        (source.contents ++ [closeBracket])) ++ tail).head? := by
      intro tail
      rw [List.append_assoc]
      exact calm_keyText _ _ _
    have hmore := (hbefore.of_append source.left_ends (hcalm more)).of_plain_append hmiddle
    have hends := source.right_ends
    have hlisted := source.listed
    rw [hright] at hends hlisted
    refine ⟨⟨source.toFrame, source.left, source.before, source.after, source.contents,
      more ++ (literalText quote content' ++ after), source.left_ends, source.contents_ends,
      endsInCode_literal_replace hmore h.quotes h.quoted hquoted hends,
      (veils_literal hmore h.quotes h.quoted hquoted).listedBody_right hlisted⟩, ?_, rfl, rfl⟩
    rw [htext content']
    simp [ListedSource.text, ListedSource.body]

end Balanced

end Extraction
