import Extraction.Proofs.Pieces
import Extraction.Source.Token
/-!
The tokens of a text against its reading: each token is a piece of the text, behind which the rest
is read as a text of its own. Only behind a line comment another mode than code is left, and there
the line feed that ends the comment comes next.
-/

namespace Extraction

open Byte

def Token.view : Token → CodeView
  | .code b => [some b]
  | .literal text => List.replicate text.length none
  | .lineComment text => List.replicate text.length none
  | .blockComment text => List.replicate text.length none

namespace Mode

/-- The mode behind a complete token, with the text that follows it. -/
def Resumes (mode : Mode) (rest : Bytes) : Prop :=
  mode = .code ∨ rest = [] ∨ mode = .lineComment ∧ rest.head? = some lineFeed

theorem Resumes.view_eq {mode : Mode} {rest : Bytes} (hresumes : mode.Resumes rest) :
    mode.view rest = codeView rest := by
  rcases hresumes with rfl | rfl | ⟨rfl, hline⟩
  · rfl
  · rfl
  · cases rest with
    | nil => cases hline
    | cons b rest =>
        obtain rfl := Option.some.inj hline
        rfl

theorem Resumes.after_eq {mode : Mode} {text : Bytes} {next : Option UInt8}
    (hresumes : mode.Resumes text) (hne : text ≠ []) :
    mode.after text next = code.after text next := by
  rcases hresumes with rfl | rfl | ⟨rfl, hline⟩
  · rfl
  · exact absurd rfl hne
  · cases text with
    | nil => cases hline
    | cons b rest =>
        obtain rfl := Option.some.inj hline
        rfl

theorem tokens_cons (mode : Mode) (b : UInt8) (rest : Bytes) :
    mode.tokens (b :: rest) =
      match mode, mode.step b rest.head? with
      | .code, .code => ([], .code b :: ((mode.step b rest.head?).tokens rest).2)
      | .lineComment, .code => ([], .code b :: ((mode.step b rest.head?).tokens rest).2)
      | .code, .literal _ =>
          ([], .literal (b :: ((mode.step b rest.head?).tokens rest).1) ::
            ((mode.step b rest.head?).tokens rest).2)
      | .code, .lineComment =>
          ([], .lineComment (b :: ((mode.step b rest.head?).tokens rest).1) ::
            ((mode.step b rest.head?).tokens rest).2)
      | .code, _ =>
          ([], .blockComment (b :: ((mode.step b rest.head?).tokens rest).1) ::
            ((mode.step b rest.head?).tokens rest).2)
      | _, _ => (b :: ((mode.step b rest.head?).tokens rest).1,
          ((mode.step b rest.head?).tokens rest).2) :=
  rfl

theorem fst_tokens_code (text : Bytes) : (code.tokens text).1 = [] := by
  cases text with
  | nil => rfl
  | cons b rest =>
      rw [tokens_cons]
      generalize code.step b rest.head? = after
      cases after <;> rfl

theorem tokens_cons_of_within {mode : Mode} {b : UInt8} {rest : Bytes} (hcode : mode ≠ .code)
    (hline : mode = .lineComment → b ≠ lineFeed) :
    mode.tokens (b :: rest) = (b :: ((mode.step b rest.head?).tokens rest).1,
        ((mode.step b rest.head?).tokens rest).2) ∧
      mode.shown b rest.head? = none ∧
      (mode.step b rest.head? = .lineComment ↔ mode = .lineComment) := by
  cases mode with
  | code => contradiction
  | lineComment =>
      have hne : (b == lineFeed) = false := beq_eq_false_iff_ne.mpr (hline rfl)
      have hstep : Mode.lineComment.step b rest.head? = .lineComment := by simp [step, hne]
      rw [tokens_cons, shown, readsCode, hstep]
      exact ⟨rfl, rfl, Iff.rfl⟩
  | _ =>
      refine ⟨rfl, rfl, ?_⟩
      simp only [step]
      grind

end Mode

theorem Mode.exists_rest_of_tokens (mode : Mode) (text : Bytes) :
    ∃ rest, text = (mode.tokens text).1 ++ rest ∧ (mode.tokens text).2 = Extraction.tokens rest ∧
      mode.view text = List.replicate (mode.tokens text).1.length none ++ codeView rest ∧
      (mode.after (mode.tokens text).1 rest.head?).Resumes rest ∧
      (mode.after (mode.tokens text).1 rest.head? = .lineComment ↔ mode = .lineComment) := by
  induction text generalizing mode with
  | nil => exact ⟨[], rfl, rfl, rfl, .inr (.inl rfl), Iff.rfl⟩
  | cons b text ih =>
      -- Inside a token the byte belongs to it, and the induction hypothesis gives the others.
      have hwithin : mode ≠ .code → (mode = .lineComment → b ≠ lineFeed) → ∃ rest,
          b :: text = (mode.tokens (b :: text)).1 ++ rest ∧
          (mode.tokens (b :: text)).2 = Extraction.tokens rest ∧
          mode.view (b :: text) =
            List.replicate (mode.tokens (b :: text)).1.length none ++ codeView rest ∧
          (mode.after (mode.tokens (b :: text)).1 rest.head?).Resumes rest ∧
          (mode.after (mode.tokens (b :: text)).1 rest.head? = .lineComment ↔
            mode = .lineComment) := by
        intro hcode hline
        obtain ⟨htokens, hshown, hkind⟩ := @tokens_cons_of_within mode b text hcode hline
        obtain ⟨rest, htext, hrest, hview, hresumes, hstep⟩ := ih (mode.step b text.head?)
        rw [htokens]
        refine ⟨rest, congrArg (b :: ·) htext, hrest, ?_, ?_⟩
        · exact congr (congrArg List.cons hshown) hview
        · rw [Mode.after]
          have hhead : ((mode.step b text.head?).tokens text).1.head?.or rest.head? =
              text.head? := List.head?_append.symm.trans (congrArg List.head? htext.symm)
          rw [hhead]
          exact ⟨hresumes, hstep.trans hkind⟩
      cases mode with
      | code =>
          rw [fst_tokens_code]
          exact ⟨b :: text, rfl, rfl, rfl, .inl rfl, Iff.rfl⟩
      | lineComment =>
          by_cases hline : b = lineFeed
          · subst hline
            exact ⟨lineFeed :: text, rfl, rfl, rfl, .inr (.inr ⟨rfl, rfl⟩), Iff.rfl⟩
          · exact hwithin (by simp) fun _ => hline
      | _ => exact hwithin (by simp) (by simp)

theorem exists_rest_of_tokens_cons {text : Bytes} {token : Token} {more : List Token}
    (h : tokens text = token :: more) :
    ∃ rest, text = token.text ++ rest ∧ token.text ≠ [] ∧ tokens rest = more ∧
      codeView text = token.view ++ codeView rest ∧
      (Mode.code.after token.text rest.head?).Resumes rest ∧
      (Mode.code.after token.text rest.head? = .lineComment ↔
        token = .lineComment token.text) := by
  cases text with
  | nil => cases h
  | cons b text =>
      obtain ⟨rest, htext, hrest, hview, hresumes, hkind⟩ :=
        (Mode.code.step b text.head?).exists_rest_of_tokens text
      have hhead : ((Mode.code.step b text.head?).tokens text).1.head?.or rest.head? =
          text.head? := List.head?_append.symm.trans (congrArg List.head? htext.symm)
      rw [tokens, Mode.tokens_cons] at h
      have hafter : Mode.code.after (b :: ((Mode.code.step b text.head?).tokens text).1)
          rest.head? = (Mode.code.step b text.head?).after
            ((Mode.code.step b text.head?).tokens text).1 rest.head? := by
        rw [Mode.after, hhead]
      have hviewCons : codeView (b :: text) = Mode.code.shown b text.head? ::
          (Mode.code.step b text.head?).view text := rfl
      have hcode : Mode.code.step b text.head? = .code →
          ((Mode.code.step b text.head?).tokens text).1 = [] := by
        intro hstep
        rw [hstep, Mode.fst_tokens_code]
      rw [← hafter] at hresumes hkind
      rw [hview, Mode.shown, Mode.readsCode] at hviewCons
      generalize Mode.code.step b text.head? = step at *
      generalize step.tokens text = pair at *
      obtain ⟨piece, later⟩ := pair
      cases step with
      | code =>
          obtain ⟨rfl, rfl⟩ := List.cons.inj h
          obtain rfl : piece = [] := hcode rfl
          exact ⟨rest, congrArg (b :: ·) htext, List.cons_ne_nil _ _, hrest.symm, hviewCons,
            hresumes, hkind.trans (by simp [Token.text])⟩
      | _ =>
          obtain ⟨rfl, rfl⟩ := List.cons.inj h
          exact ⟨rest, congrArg (b :: ·) htext, List.cons_ne_nil _ _, hrest.symm, hviewCons,
            hresumes, hkind.trans (by simp [Token.text])⟩

/-- A text that ends in code has its line comments ended by line feeds, and every other token
closed. -/
theorem EndsInCode.exists_rest {text : Bytes} {token : Token} {more : List Token}
    (hends : EndsInCode text) (h : tokens text = token :: more) :
    ∃ rest, text = token.text ++ rest ∧ token.text ≠ [] ∧ tokens rest = more ∧
      codeView text = token.view ++ codeView rest ∧ EndsInCode rest ∧
      (token = .lineComment token.text ∧
          Mode.code.after token.text rest.head? = .lineComment ∧
          rest.head? = some lineFeed ∨
        token ≠ .lineComment token.text ∧ Mode.code.after token.text rest.head? = .code) := by
  obtain ⟨rest, rfl, hne, hrest, hview, hresumes, hkind⟩ := exists_rest_of_tokens_cons h
  rw [EndsInCode, Mode.after_append, Option.or_none] at hends
  refine ⟨rest, rfl, hne, hrest, hview, ?_, ?_⟩
  · by_cases hempty : rest = []
    · rw [hempty]
      exact .nil
    · rwa [hresumes.after_eq hempty] at hends
  · rcases hresumes with hcode | rfl | ⟨hcomment, hline⟩
    · refine .inr ⟨?_, hcode⟩
      rw [Ne, ← hkind, hcode]
      simp
    · have hcode : Mode.code.after token.text ([] : Bytes).head? = .code := hends
      refine .inr ⟨?_, hcode⟩
      rw [Ne, ← hkind, hcode]
      simp
    · exact .inl ⟨hkind.mp hcomment, hcomment, hline⟩

namespace Mode

theorem Resumes.tokens_eq {mode : Mode} {rest : Bytes} (hresumes : mode.Resumes rest) :
    mode.tokens rest = ([], Extraction.tokens rest) := by
  rcases hresumes with rfl | rfl | ⟨rfl, hline⟩
  · exact Prod.ext (fst_tokens_code rest) rfl
  · cases mode <;> rfl
  · cases rest with
    | nil => cases hline
    | cons b rest =>
        obtain rfl := Option.some.inj hline
        rfl

theorem Resumes.step_eq {mode : Mode} {b : UInt8} {rest : Bytes}
    (hresumes : (mode.step b rest.head?).Resumes rest) :
    mode.step b rest.head? = mode.step b none := by
  rcases hresumes with hcode | rfl | ⟨-, hline⟩
  · rw [hcode, (step_eq_code_congr hcode .none).1]
  · rfl
  · rw [hline]
    exact step_congr mode b (by decide) .none

theorem tokens_append {mode : Mode} {left right : Bytes}
    (hresumes : (mode.after left right.head?).Resumes right) :
    mode.tokens (left ++ right) =
      ((mode.tokens left).1, (mode.tokens left).2 ++ Extraction.tokens right) := by
  induction left generalizing mode with
  | nil => exact hresumes.tokens_eq
  | cons b left ih =>
      have hstep : mode.step b (left.head?.or right.head?) = mode.step b left.head? := by
        cases left with
        | nil => exact hresumes.step_eq
        | cons => rfl
      rw [after, hstep] at hresumes
      rw [List.cons_append, tokens_cons, tokens_cons, List.head?_append, hstep, ih hresumes]
      generalize mode.step b left.head? = step
      cases mode <;> cases step <;> rfl

end Mode

theorem tokens_append {left right : Bytes}
    (hresumes : (Mode.code.after left right.head?).Resumes right) :
    tokens (left ++ right) = tokens left ++ tokens right :=
  congrArg Prod.snd (Mode.tokens_append hresumes)

theorem EndsInCode.tokens_append {left right : Bytes} (hleft : EndsInCode left)
    (hcalm : Mode.Calm right.head?) : tokens (left ++ right) = tokens left ++ tokens right :=
  Extraction.tokens_append (.inl (hleft.after_eq hcalm))

theorem tokens_of_plain {text : Bytes} (hplain : text.all isPlain = true) :
    tokens text = text.map .code := by
  induction text with
  | nil => rfl
  | cons b text ih =>
      rw [List.all_cons, Bool.and_eq_true] at hplain
      rw [tokens, Mode.tokens_cons, Mode.step_code_of_isPlain hplain.1, List.map_cons,
        ← ih hplain.2]
      rfl

theorem tokens_plain_append {text rest : Bytes} (hplain : text.all isPlain = true) :
    tokens (text ++ rest) = text.map .code ++ tokens rest := by
  rw [tokens_append (.inl (Mode.after_code_of_plain hplain)), tokens_of_plain hplain]

/-! Line comments. -/

def IsLineComment (text : Bytes) : Prop :=
  ∃ rest, text = slash :: slash :: rest ∧ lineFeed ∉ rest

theorem Mode.lineComment_of_not_mem {text : Bytes} (hline : lineFeed ∉ text) :
    lineComment.tokens text = (text, []) ∧
      ∀ next, lineComment.after text next = .lineComment := by
  induction text with
  | nil => exact ⟨rfl, fun _ => rfl⟩
  | cons b text ih =>
      rw [List.mem_cons, not_or] at hline
      obtain ⟨htokens, hafter⟩ := ih hline.2
      have hne : (b == lineFeed) = false := by simpa using Ne.symm hline.1
      have hstep : ∀ next, lineComment.step b next = .lineComment := by simp [step, hne]
      constructor
      · rw [tokens_cons, hstep, htokens]
      · intro next
        rw [after, hstep]
        exact hafter next

namespace IsLineComment

variable {comment : Bytes} (hcomment : IsLineComment comment)
include hcomment

theorem head?_eq : comment.head? = some slash := by
  obtain ⟨rest, rfl, -⟩ := hcomment
  rfl

theorem append_return : IsLineComment (comment ++ [carriageReturn]) := by
  obtain ⟨rest, rfl, hline⟩ := hcomment
  refine ⟨rest ++ [carriageReturn], rfl, ?_⟩
  rw [List.mem_append, not_or]
  exact ⟨hline, by decide⟩

theorem after_eq (next : Option UInt8) : Mode.code.after comment next = .lineComment := by
  obtain ⟨rest, rfl, hline⟩ := hcomment
  exact (Mode.lineComment_of_not_mem hline).2 next

theorem tokens_eq : tokens comment = [.lineComment comment] := by
  obtain ⟨rest, rfl, hline⟩ := hcomment
  have hslash : lineFeed ∉ slash :: rest := by
    rw [List.mem_cons, not_or]
    exact ⟨by decide, hline⟩
  have hstep : Mode.code.step slash (slash :: rest).head? = .lineComment := rfl
  rw [tokens, Mode.tokens_cons, hstep, (Mode.lineComment_of_not_mem hslash).1]

theorem tokens_append {init : Bytes} (hinit : Mode.code.after init (some slash) = .code)
    (rest : Bytes) :
    tokens ((init ++ comment) ++ lineFeed :: rest) =
      (tokens init ++ [.lineComment comment]) ++ tokens (lineFeed :: rest) := by
  have hhead : (comment ++ lineFeed :: rest).head? = some slash := by
    rw [List.head?_append, hcomment.head?_eq]
    rfl
  rw [List.append_assoc, Extraction.tokens_append (.inl (by rw [hhead, hinit])),
    Extraction.tokens_append (.inr (.inr ⟨hcomment.after_eq _, rfl⟩)), hcomment.tokens_eq,
    List.append_assoc]

end IsLineComment

theorem Mode.exists_lineComment {mode : Mode} {text : Bytes} {next : Option UInt8}
    (hcalm : Calm next) (hafter : mode.after text next = .lineComment) :
    (∃ init comment, text = init ++ comment ∧ IsLineComment comment ∧
        mode.after init (some slash) = .code) ∨
      mode = .lineComment ∧ lineFeed ∉ text := by
  induction text generalizing mode with
  | nil => exact .inr ⟨hafter, List.not_mem_nil⟩
  | cons b text ih =>
      rw [after] at hafter
      rcases ih hafter with ⟨init, comment, rfl, hcomment, hinit⟩ | ⟨hstep, hline⟩
      · left
        refine ⟨b :: init, comment, rfl, hcomment, ?_⟩
        rw [List.head?_append, Option.or_assoc, hcomment.head?_eq] at hinit
        exact hinit
      · cases mode with
        | lineComment =>
            right
            refine ⟨rfl, ?_⟩
            rw [List.mem_cons, not_or]
            refine ⟨?_, hline⟩
            rintro rfl
            cases hstep
        | code =>
            left
            simp only [step] at hstep
            have hslash : b = slash ∧ text.head?.or next = some slash := by grind
            cases text with
            | nil => exact absurd hslash.2 hcalm.1
            | cons c text =>
                obtain ⟨rfl, hc⟩ := hslash
                obtain rfl := Option.some.inj hc
                rw [List.mem_cons, not_or] at hline
                exact ⟨[], slash :: slash :: text, rfl, ⟨text, rfl, hline.2⟩, rfl⟩
        | _ =>
            simp only [step] at hstep
            grind

end Extraction
