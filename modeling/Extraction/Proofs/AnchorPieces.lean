import Extraction.Proofs.Boundaries
import Extraction.Proofs.Literals
import Extraction.Proofs.Slices
import Extraction.Proofs.TokenKinds
/-!
The anchor in any range of a text, also one that ends inside a literal or a comment: it cuts the
range behind the last code and behind the comments that trail it, and an ASCII byte follows each
cut inside the range.
-/

namespace Extraction

open Byte Bytes

def StartsAscii (text : Bytes) : Prop :=
  ∀ b, text.head? = some b → IsAscii b

theorem startsAscii_of_tokens {text : Bytes}
    (hquiet : ∀ token ∈ tokens text, token.codeByte? = none) : StartsAscii text := by
  intro b hb
  obtain ⟨rest, rfl⟩ := List.head?_eq_some_iff.mp hb
  have hblank : ∀ {c}, isAsciiBlank c = true → IsAscii c := by
    intro c hc
    rcases Balanced.eq_of_isAsciiBlank hc with rfl | rfl | rfl | rfl | rfl <;> decide
  by_cases hslash : b = slash
  · subst hslash
    decide
  · by_cases hquote : isQuote b = true
    · have hstep := Mode.code_step_quote hquote rest.head?
      rw [tokens, Mode.tokens_cons, hstep] at hquiet
      have hhead := hquiet _ List.mem_cons_self
      cases hhead
    · have hstep : Mode.code.step b rest.head? = .code := by
        simp [Mode.step, hquote, hslash]
      rw [tokens, Mode.tokens_cons, hstep] at hquiet
      have hhead := hquiet _ List.mem_cons_self
      simp only [Token.codeByte?] at hhead
      split at hhead
      · exact hblank ‹_›
      · cases hhead

/-- A cut that parts a carriage return from its line feed. -/
def SplitsPair (left right : Bytes) : Prop :=
  left.getLast? = some carriageReturn ∧ right.head? = some lineFeed

theorem SplitsPair.of_append {first second right : Bytes}
    (h : SplitsPair (first ++ second) right) :
    SplitsPair second right ∨ second = [] ∧ SplitsPair first right := by
  obtain ⟨hlast, hhead⟩ := h
  cases second with
  | nil => exact .inr ⟨rfl, by rwa [List.append_nil] at hlast, hhead⟩
  | cons b second =>
      rw [List.getLast?_append_of_ne_nil _ (List.cons_ne_nil b second)] at hlast
      exact .inl ⟨hlast, hhead⟩

theorem Token.length_view (token : Token) : token.view.length = token.width := by
  cases token <;> simp [Token.view, Token.width, Token.text]

theorem exists_rest_of_whole {text : Bytes} {token : Token} {more : List Token}
    (h : tokens text = token :: more)
    (hwhole : token.codeByte? ≠ none ∨ token = .blockComment token.text) :
    ∃ rest, text = token.text ++ rest ∧ tokens rest = more ∧ ¬ SplitsPair token.text rest := by
  obtain ⟨rest, rfl, -, hrest, hview, hresumes, hkind⟩ := exists_rest_of_tokens_cons h
  refine ⟨rest, rfl, hrest, ?_⟩
  rintro ⟨hlast, hhead⟩
  obtain ⟨init, hinit⟩ := List.getLast?_eq_some_iff.mp hlast
  have hcode : Mode.code.after token.text rest.head? = .code := by
    rcases hresumes with hcode | rfl | ⟨hcomment, -⟩
    · exact hcode
    · cases hhead
    · rw [hkind.mp hcomment] at hwhole
      simp [Token.codeByte?] at hwhole
  have hquoted : (Mode.code.after init (some carriageReturn)).WellQuoted :=
    Mode.WellQuoted.after (by trivial) _ _
  have hstep : (Mode.code.after init (some carriageReturn)).step carriageReturn rest.head? =
      .code := by
    rwa [hinit, Mode.after_append] at hcode
  have hshown := (hquoted.shown_of_step_eq_code hstep).resolve_right (by decide)
  have hmem : some carriageReturn ∈ token.view := by
    rw [codeView, Mode.view_append] at hview
    have hlength := token.length_view.symm
    rw [← (List.append_inj hview (by simpa [Token.width] using hlength)).1, hinit,
      Mode.viewBefore_append]
    simp [Mode.viewBefore, hshown]
  cases token with
  | code b =>
      obtain rfl := Option.some.inj (List.mem_singleton.mp hmem)
      simp [Token.codeByte?, isAsciiBlank] at hwhole
  | _ => cases List.eq_of_mem_replicate hmem

theorem exists_append_of_tokens {text : Bytes} {before after : List Token}
    (h : tokens text = before ++ after) :
    ∃ first second, text = first ++ second ∧ first = (before.map Token.text).flatten ∧
      tokens second = after := by
  induction before generalizing text with
  | nil => exact ⟨[], text, rfl, rfl, h⟩
  | cons token before ih =>
      obtain ⟨rest, rfl, -, hrest, -⟩ := exists_rest_of_tokens_cons h
      obtain ⟨first, second, rfl, rfl, hsecond⟩ := ih hrest
      exact ⟨_, second, (List.append_assoc ..).symm, rfl, hsecond⟩

theorem codeByte?_eq_none_of_lastCode? {offset : Nat} {items : List Token}
    (h : lastCode? offset items = none) : ∀ token ∈ items, token.codeByte? = none := by
  induction items generalizing offset with
  | nil => simp
  | cons first items ih =>
      rw [lastCode?] at h
      split at h
      · cases h
      · next hrest =>
          rw [Option.map_eq_none_iff] at h
          exact List.forall_mem_cons.mpr ⟨h, ih hrest⟩

theorem exists_of_lastCode? {offset stop : Nat} {items rest : List Token} {byte : UInt8}
    (h : lastCode? offset items = some (stop, byte, rest)) :
    ∃ before token, items = before ++ token :: rest ∧ token.codeByte? = some byte ∧
      stop = offset + ((before ++ [token]).map Token.text).flatten.length ∧
      ∀ other ∈ rest, other.codeByte? = none := by
  induction items generalizing offset with
  | nil => cases h
  | cons first items ih =>
      rw [lastCode?] at h
      split at h
      · next hrest =>
          cases h
          obtain ⟨before, token, rfl, hbyte, rfl, hquiet⟩ := ih hrest
          exact ⟨first :: before, token, rfl, hbyte, by simp [Token.width, Nat.add_assoc], hquiet⟩
      · next hrest =>
          obtain ⟨found, hbyte, hfound⟩ := Option.map_eq_some_iff.mp h
          cases hfound
          exact ⟨[], first, rfl, hbyte, by simp [Token.width], codeByte?_eq_none_of_lastCode? hrest⟩

/-- Among white space and comments the comments on the first line end before an ASCII byte, and
not inside a line break. -/
theorem exists_of_trailingComments {text : Bytes}
    (hquiet : ∀ token ∈ tokens text, token.codeByte? = none) (offset lineEnd : Nat) :
    trailingComments offset lineEnd (tokens text) = lineEnd ∨
      ∃ line right, text = line ++ right ∧
        trailingComments offset lineEnd (tokens text) = offset + line.length ∧
        StartsAscii right ∧ ¬ SplitsPair line right := by
  generalize htokens : tokens text = items
  induction items generalizing text offset lineEnd with
  | nil => exact .inl rfl
  | cons token items ih =>
      obtain ⟨rest, rfl, -, rfl, -⟩ := exists_rest_of_tokens_cons htokens
      rw [htokens] at hquiet
      have hrest := fun other hother => hquiet other (List.mem_cons_of_mem _ hother)
      have hcons : ∀ {stop : Nat}, ¬ SplitsPair token.text rest →
          (∃ line right, rest = line ++ right ∧ stop = offset + token.width + line.length ∧
            StartsAscii right ∧ ¬ SplitsPair line right) →
          ∃ line right, token.text ++ rest = line ++ right ∧
            stop = offset + line.length ∧ StartsAscii right ∧ ¬ SplitsPair line right := by
        rintro stop htoken ⟨line, right, rfl, rfl, hright, hline⟩
        refine ⟨token.text ++ line, right, by simp, by simp [Token.width, Nat.add_assoc], hright,
          fun hsplits => ?_⟩
        obtain hlast | ⟨rfl, hfirst⟩ := hsplits.of_append
        · exact hline hlast
        · exact htoken hfirst
      cases token with
      | code b =>
          simp only [trailingComments]
          split
          · next hblank =>
              refine (ih hrest (offset + 1) lineEnd rfl).imp_right (hcons ?_)
              rintro ⟨hlast, -⟩
              obtain rfl := Option.some.inj hlast
              cases hblank
          · exact .inl rfl
      | literal content => exact .inl rfl
      | blockComment content =>
          obtain ⟨rest', hsame, -, hwhole⟩ := exists_rest_of_whole htokens (.inr rfl)
          obtain rfl := List.append_cancel_left hsame
          refine .inr (hcons hwhole ?_)
          rcases ih hrest (offset + content.length) (offset + content.length) rfl with
            hstop | hstop
          · exact ⟨[], rest, rfl, hstop, startsAscii_of_tokens hrest, by simp [SplitsPair]⟩
          · exact hstop
      | lineComment content =>
          right
          simp only [trailingComments]
          split
          · next hreturn =>
              obtain ⟨init, rfl⟩ := List.getLast?_eq_some_iff.mp (beq_iff_eq.mp hreturn)
              refine ⟨init, carriageReturn :: rest, by simp [Token.text], by simp, ?_, ?_⟩
              · rintro b ⟨rfl⟩
                decide
              · rintro ⟨-, hhead⟩
                cases hhead
          · next hreturn =>
              exact ⟨content, rest, rfl, rfl, startsAscii_of_tokens hrest,
                fun hsplits => hreturn (beq_iff_eq.mpr hsplits.1)⟩

/-- The pieces of a range around its anchor. -/
structure Anchor.Cuts (anchor : Anchor) (body : Span) (code line right : Bytes) : Prop where
  code_ne : code ≠ []
  afterCode : anchor.afterCode = body.start + code.length
  lineEnd : anchor.lineEnd = anchor.afterCode + line.length
  line_ascii : StartsAscii (line ++ right)
  right_ascii : StartsAscii right
  code_whole : ¬ SplitsPair code (line ++ right)
  line_whole : ¬ SplitsPair (code ++ line) right
  comma : anchor.lastCodeByte = comma → ∃ init, code = init ++ [Byte.comma]

theorem exists_of_propertyAnchor {text : Bytes} {body : Span} {anchor : Anchor}
    (h : propertyAnchor text body = some anchor) :
    ∃ code line right, text.slice body = code ++ (line ++ right) ∧
      anchor.Cuts body code line right := by
  obtain ⟨⟨stop, byte, rest⟩, hlast, rfl⟩ := Option.map_eq_some_iff.mp h
  obtain ⟨before, token, htokens, hbyte, rfl, hquiet⟩ := exists_of_lastCode? hlast
  obtain ⟨init, last, htext, rfl, hlastTokens⟩ := exists_append_of_tokens htokens
  obtain ⟨behind, rfl, rfl, htoken⟩ := exists_rest_of_whole hlastTokens (.inl (by simp [hbyte]))
  have hcode : ((before ++ [token]).map Token.text).flatten =
      (before.map Token.text).flatten ++ token.text := by
    simp
  rw [← List.append_assoc, ← hcode] at htext
  have htokenNe : token.text ≠ [] := by
    cases token with
    | literal content =>
        cases content with
        | nil => cases hbyte
        | cons => simp [Token.text]
    | code => simp [Token.text]
    | _ => cases hbyte
  have hbehind : ¬ SplitsPair ((before ++ [token]).map Token.text).flatten behind := by
    rw [hcode]
    intro hsplits
    obtain hlast | ⟨hnil, -⟩ := hsplits.of_append
    · exact htoken hlast
    · exact htokenNe hnil
  generalize ((before ++ [token]).map Token.text).flatten = code at htext hcode hbehind ⊢
  obtain ⟨line, right, rfl, hline, hright, hwhole⟩ : ∃ line right, behind = line ++ right ∧
      trailingComments (body.start + code.length) (body.start + code.length) (tokens behind) =
        body.start + code.length + line.length ∧ StartsAscii right ∧
        ¬ SplitsPair (code ++ line) right := by
    rcases exists_of_trailingComments hquiet (body.start + code.length)
      (body.start + code.length) with hstop | ⟨line, right, rfl, hstop, hright, hline⟩
    · exact ⟨[], behind, rfl, hstop, startsAscii_of_tokens hquiet, by rwa [List.append_nil]⟩
    · refine ⟨line, right, rfl, hstop, hright, fun hsplits => ?_⟩
      obtain hlast | ⟨rfl, hfirst⟩ := hsplits.of_append
      · exact hline hlast
      · exact hbehind hfirst
  refine ⟨code, line, right, htext, by simp [hcode, htokenNe], rfl, hline,
    startsAscii_of_tokens hquiet, hright, hbehind, hwhole, ?_⟩
  rintro rfl
  have hmem : token ∈ tokens (text.slice body) := by
    rw [htokens]
    simp
  obtain rfl := (codeByte?_of_mem_tokens hmem).2.mp hbyte
  exact ⟨_, hcode⟩

section Range

variable {text : Bytes} {body : Span} (hle : body.start ≤ body.stop)
  (hlength : body.stop ≤ text.length)
include hle hlength

theorem isBoundary_of_slice {left right : Bytes} (hslice : text.slice body = left ++ right)
    (hright : StartsAscii right) (hstop : text.isBoundary body.stop = true) :
    text.isBoundary (body.start + left.length) = true := by
  have hwidth := congrArg List.length hslice
  rw [slice, List.length_take, List.length_drop, List.length_append] at hwidth
  cases right with
  | nil =>
      have hend : body.start + left.length = body.stop := by
        simp only [List.length_nil] at hwidth
        omega
      rwa [hend]
  | cons b right =>
      have htext :
          text = (text.take body.start ++ left) ++ b :: (right ++ text.drop body.stop) := by
        have hsplit := (text.take_append_drop body.start).symm
        rw [← text.slice_append_drop hle] at hsplit
        rw [hslice] at hsplit
        exact hsplit.trans (by simp)
      refine isBoundary_of_getElem? (getElem?_of_eq_append htext ?_) (hright b rfl)
      rw [List.length_append, List.length_take]
      omega

theorem propertyAnchor_bounds {anchor : Anchor} (h : propertyAnchor text body = some anchor) :
    body.start < anchor.afterCode ∧ anchor.afterCode ≤ anchor.lineEnd ∧
      anchor.lineEnd ≤ body.stop ∧
      (text.isBoundary body.stop = true →
        text.isBoundary anchor.afterCode = true ∧ text.isBoundary anchor.lineEnd = true) := by
  obtain ⟨code, line, right, hslice, hcuts⟩ := exists_of_propertyAnchor h
  have hwidth := congrArg List.length hslice
  rw [slice, List.length_take, List.length_drop, List.length_append, List.length_append] at hwidth
  have hcode := List.length_pos_of_ne_nil hcuts.code_ne
  have hafter := hcuts.afterCode
  have hend := hcuts.lineEnd
  refine ⟨by omega, by omega, by omega, fun hstop => ⟨?_, ?_⟩⟩
  · rw [hafter]
    exact isBoundary_of_slice hle hlength hslice hcuts.line_ascii hstop
  · rw [← List.append_assoc] at hslice
    rw [hend, hafter, Nat.add_assoc, ← List.length_append]
    exact isBoundary_of_slice hle hlength hslice hcuts.right_ascii hstop

end Range

end Extraction
