import Extraction.Proofs.Tokens
import Extraction.Source.Anchor
/-!
Where a new property goes in a body. Everything behind the last code of the body is white space
and comments, and the end of the comments that trail that code on its line is either read as code
or stands before the line break that ends a line comment.
-/

namespace Extraction

open Byte CodeView

/-- White space is all the code that a view shows. -/
def CodeView.Quiet (view : CodeView) : Prop :=
  ∀ b, some b ∈ view → isAsciiBlank b = true

namespace CodeView.Quiet

theorem nil : Quiet [] := by
  intro b hb
  cases hb

theorem append {left right : CodeView} (hleft : Quiet left) (hright : Quiet right) :
    Quiet (left ++ right) := by
  intro b hb
  rcases List.mem_append.mp hb with hb | hb
  · exact hleft b hb
  · exact hright b hb

theorem of_append {left right : CodeView} (h : Quiet (left ++ right)) :
    Quiet left ∧ Quiet right :=
  ⟨fun b hb => h b (List.mem_append_left _ hb), fun b hb => h b (List.mem_append_right _ hb)⟩

theorem blockDepth?_eq {view : CodeView} (hquiet : Quiet view) (depth : Nat) :
    blockDepth? depth view = some depth := by
  apply depth?_of_forall
  intro b hb
  exact Balanced.not_isBracket_of_isAsciiBlank (hquiet b hb)

theorem getLast?_any_isIdent {view : CodeView} (hquiet : Quiet view) {previous : Option UInt8}
    (hprevious : previous.any isIdent = false) :
    (view.getLast?.getD previous).any isIdent = false := by
  cases hlast : view.getLast? with
  | none => exact hprevious
  | some code =>
      cases code with
      | none => rfl
      | some b =>
          have hblank := hquiet b (List.mem_of_getLast? hlast)
          exact Balanced.not_isIdent_of_isAsciiBlank hblank

end CodeView.Quiet

theorem quiet_replicate (width : Nat) : Quiet (List.replicate width none) := by
  intro b hb
  cases List.eq_of_mem_replicate hb

theorem Token.quiet_view {token : Token} (hcode : token.codeByte? = none) :
    Quiet token.view := by
  cases token with
  | code b =>
      intro c hc
      obtain rfl := Option.some.inj (List.mem_singleton.mp hc)
      by_cases hblank : isAsciiBlank c = true
      · exact hblank
      · simp [codeByte?, hblank] at hcode
  | _ => exact quiet_replicate _

theorem eq_nil_of_tokens_eq_nil {text : Bytes} (h : tokens text = []) : text = [] := by
  cases text with
  | nil => rfl
  | cons b text =>
      rw [tokens, Mode.tokens_cons] at h
      generalize Mode.code.step b text.head? = step at h
      cases step <;> cases h

theorem after_token_append {token : Token} {rest piece : Bytes} {next : Option UInt8}
    (hkind : token = .lineComment token.text ∧
          Mode.code.after token.text rest.head? = .lineComment ∧ rest.head? = some lineFeed ∨
        token ≠ .lineComment token.text ∧ Mode.code.after token.text rest.head? = .code)
    (hhead : piece.head?.or next = rest.head?) (hnext : next ≠ some lineFeed ∨ piece ≠ [])
    (hcode : Mode.code.after piece next = .code) :
    Mode.code.after (token.text ++ piece) next = .code := by
  rw [Mode.after_append, hhead]
  rcases hkind with ⟨-, hcomment, hline⟩ | ⟨-, htoken⟩
  · have hne : piece ≠ [] := by
      rintro rfl
      rw [hline] at hhead
      exact hnext.elim (fun h => h hhead) (fun h => h rfl)
    have hpiece : piece.head? = some lineFeed := by
      cases piece with
      | nil => exact absurd rfl hne
      | cons b piece => exact hhead.trans hline
    have hresumes : Mode.lineComment.Resumes piece := .inr (.inr ⟨rfl, hpiece⟩)
    rw [hcomment, hresumes.after_eq hne, hcode]
  · rw [htoken, hcode]

/-- Behind the last code of a text, and only there, the text is quiet. -/
theorem lastCode?_tokens {text : Bytes} (hends : EndsInCode text) (offset : Nat) :
    match lastCode? offset (tokens text) with
    | none => Quiet (codeView text)
    | some (stop, byte, rest) =>
        ∃ first second, text = first ++ second ∧ stop = offset + first.length ∧ first ≠ [] ∧
          tokens second = rest ∧ Mode.code.after first second.head? = .code ∧
          EndsInCode second ∧ Quiet (codeView second) ∧
          (byte = comma →
            ∃ init, first = init ++ [comma] ∧ Mode.code.after init (some comma) = .code) := by
  generalize htokens : tokens text = items
  induction items generalizing text offset with
  | nil =>
      rw [eq_nil_of_tokens_eq_nil htokens]
      exact .nil
  | cons token items ih =>
      obtain ⟨rest, rfl, hne, hrest, hview, hrestEnds, hkind⟩ := hends.exists_rest htokens
      have hfound := ih hrestEnds (offset + token.width) hrest
      simp only [lastCode?]
      cases hlast : lastCode? (offset + token.width) items with
      | some found =>
          obtain ⟨stop, byte, more⟩ := found
          rw [hlast] at hfound
          obtain ⟨first, second, rfl, rfl, hfirst, hmore, hcode, hsecond, hquiet, hcomma⟩ :=
            hfound
          refine ⟨token.text ++ first, second, by simp, ?_, ?_, hmore, ?_, hsecond, hquiet, ?_⟩
          · rw [List.length_append, Token.width, Nat.add_assoc]
          · simp [hfirst]
          · exact after_token_append hkind List.head?_append.symm (.inr hfirst) hcode
          · intro hbyte
            obtain ⟨init, rfl, hinit⟩ := hcomma hbyte
            refine ⟨token.text ++ init, by simp, ?_⟩
            refine after_token_append hkind ?_ (.inl (by decide)) hinit
            simp
      | none =>
          rw [hlast] at hfound
          cases hbyte : token.codeByte? with
          | none =>
              show Quiet (codeView (token.text ++ rest))
              rw [hview]
              exact (Token.quiet_view hbyte).append hfound
          | some byte =>
              have hcode : Mode.code.after token.text rest.head? = .code := by
                rcases hkind with ⟨hcomment, -⟩ | ⟨-, hcode⟩
                · rw [hcomment] at hbyte
                  cases hbyte
                · exact hcode
              refine ⟨token.text, rest, rfl, rfl, hne, hrest, hcode, hrestEnds, hfound, ?_⟩
              rintro rfl
              cases token with
              | code b =>
                  simp only [Token.codeByte?] at hbyte
                  split at hbyte
                  · cases hbyte
                  · obtain rfl := Option.some.inj hbyte
                    exact ⟨[], rfl, rfl⟩
              | literal text =>
                  cases text with
                  | nil => cases hbyte
                  | cons b text =>
                      obtain rfl := Option.some.inj hbyte
                      cases (List.cons.inj hview).1
              | lineComment => cases hbyte
              | blockComment => cases hbyte

def StopsLine (first second : Bytes) : Prop :=
  Mode.code.after first second.head? = .code ∨
    Mode.code.after first second.head? = .lineComment ∧
      (second.head? = some lineFeed ∨
        ∃ rest, second = carriageReturn :: lineFeed :: rest)

theorem eq_lineComment_of_step {mode : Mode}
    (h : mode.step carriageReturn (some lineFeed) = .lineComment) : mode = .lineComment := by
  cases mode with
  | lineComment => rfl
  | code => cases h
  | escape => cases h
  | blockOpen => cases h
  | literal quote =>
      simp only [Mode.step] at h
      grind
  | blockComment => cases h
  | blockStar => cases h

theorem trailingComments_tokens {text : Bytes} (hends : EndsInCode text)
    (offset lineEnd : Nat) :
    trailingComments offset lineEnd (tokens text) = lineEnd ∨
      ∃ first second, text = first ++ second ∧
        trailingComments offset lineEnd (tokens text) = offset + first.length ∧
        StopsLine first second := by
  generalize htokens : tokens text = items
  induction items generalizing text offset lineEnd with
  | nil => exact .inl rfl
  | cons token items ih =>
      obtain ⟨rest, rfl, hne, hrest, hview, hrestEnds, hkind⟩ := hends.exists_rest htokens
      have hcons : ∀ {stop : Nat}, (∃ first second, rest = first ++ second ∧
            stop = offset + token.width + first.length ∧ StopsLine first second) →
          token ≠ .lineComment token.text →
          ∃ first second, token.text ++ rest = first ++ second ∧
            stop = offset + first.length ∧ StopsLine first second := by
        rintro stop ⟨first, second, rfl, rfl, hstops⟩ hcomment
        have hcode := (hkind.resolve_left (fun h => hcomment h.1)).2
        refine ⟨token.text ++ first, second, by simp, by simp [Token.width, Nat.add_assoc], ?_⟩
        rw [StopsLine, Mode.after_append, ← List.head?_append, hcode]
        exact hstops
      cases token with
      | code b =>
          simp only [trailingComments]
          split
          · rcases ih hrestEnds (offset + 1) lineEnd hrest with hstop | hstop
            · exact .inl hstop
            · exact .inr (hcons hstop (by simp [Token.text]))
          · exact .inl rfl
      | literal text => exact .inl rfl
      | blockComment text =>
          simp only [trailingComments]
          right
          refine hcons ?_ (by simp)
          rcases ih hrestEnds (offset + text.length) (offset + text.length) hrest with
            hstop | hstop
          · have hcode := (hkind.resolve_left (by simp)).2
            exact ⟨[], rest, rfl, hstop, .inl rfl⟩
          · exact hstop
      | lineComment text =>
          right
          obtain ⟨-, hcomment, hline⟩ := hkind.resolve_right (by simp [Token.text])
          simp only [trailingComments]
          split
          · next hreturn =>
              obtain ⟨init, rfl⟩ := List.getLast?_eq_some_iff.mp (beq_iff_eq.mp hreturn)
              refine ⟨init, carriageReturn :: rest, by simp [Token.text], by simp, .inr ⟨?_, ?_⟩⟩
              · rw [Token.text, Mode.after_append, hline] at hcomment
                exact eq_lineComment_of_step hcomment
              · cases rest with
                | nil => cases hline
                | cons b rest =>
                    obtain rfl := Option.some.inj hline
                    exact .inr ⟨rest, rfl⟩
          · exact ⟨text, rest, rfl, rfl, .inr ⟨hcomment, .inl hline⟩⟩

end Extraction
