import Extraction.Proofs.Literals
import Extraction.Proofs.Tokens
/-!
The tokens of a text, told from their delimiters. A literal reaches from its quote to the next
quote of the kind that no backslash escapes, a block comment to the next star that a slash stands
behind, and both to the end of the text if there is none; a line comment reaches to the next line
feed or to the end of the text; every other byte is a token of its own. Each text is made up of
such tokens in exactly one way, and these are the tokens that are read.
-/

namespace Extraction

open Byte

/-- Text behind a quote that reaches to the end without a quote to close it. A backslash at the
very end has nothing to escape. -/
inductive Unquoted (quote : UInt8) : Bytes → Prop
  | quoted {content : Bytes} (hcontent : Quoted quote content) : Unquoted quote content
  | backslash {content : Bytes} (hcontent : Quoted quote content) :
      Unquoted quote (content ++ [backslash])

def commentEnd : Bytes :=
  [star, slash]

/-- Which text can stand behind a token. -/
inductive Token.StandsBefore : Token → Bytes → Prop
  | literal {quote : UInt8} {content : Bytes} (hquote : isQuote quote = true)
      (hcontent : Quoted quote content) (rest : Bytes) :
      StandsBefore (.literal (literalText quote content)) rest
  | openLiteral {quote : UInt8} {content : Bytes} (hquote : isQuote quote = true)
      (hcontent : Unquoted quote content) : StandsBefore (.literal (quote :: content)) []
  | lineComment {content rest : Bytes} (hcontent : lineFeed ∉ content)
      (hrest : rest = [] ∨ rest.head? = some lineFeed) :
      StandsBefore (.lineComment (slash :: slash :: content)) rest
  | blockComment {content : Bytes} (hcontent : ¬ commentEnd <:+: content) (rest : Bytes) :
      StandsBefore (.blockComment (slash :: star :: (content ++ commentEnd))) rest
  | openComment {content : Bytes} (hcontent : ¬ commentEnd <:+: content) :
      StandsBefore (.blockComment (slash :: star :: content)) []
  | code {b : UInt8} {rest : Bytes} (hquote : isQuote b = false)
      (hcomment : b = slash → rest.head? ≠ some slash ∧ rest.head? ≠ some star) :
      StandsBefore (.code b) rest

/-- A text made up of tokens, each of which can stand before the others. -/
inductive Tokenizes : Bytes → List Token → Prop
  | nil : Tokenizes [] []
  | cons {token : Token} {rest : Bytes} {items : List Token} (htoken : token.StandsBefore rest)
      (hrest : Tokenizes rest items) : Tokenizes (token.text ++ rest) (token :: items)

/-! Such a token is read as it stands. -/

namespace Mode

theorem tokens_nil (mode : Mode) : mode.tokens [] = ([], []) := by
  cases mode <;> rfl

theorem tokens_append_of_holds {mode : Mode} {text : Bytes}
    (hholds : ∀ left b right, text = left ++ b :: right → (mode.after left (some b)).Holds)
    (tail : Bytes) :
    mode.tokens (text ++ tail) = (text ++ ((mode.after text tail.head?).tokens tail).1,
      ((mode.after text tail.head?).tokens tail).2) := by
  induction text generalizing mode with
  | nil => rfl
  | cons b text ih =>
      have hmode : mode.Holds := hholds [] b text rfl
      have hcode : mode ≠ .code := by
        rintro rfl
        exact hmode
      have hline : mode = .lineComment → b ≠ lineFeed := by
        rintro rfl
        exact hmode.elim
      rw [List.cons_append, (tokens_cons_of_within hcode hline).1, List.head?_append, after, ih]
      · rfl
      · rintro left c right rfl
        have hhead : (left ++ c :: right).head?.or tail.head? = left.head?.or (some c) := by
          rw [List.head?_append, Option.or_assoc]
          rfl
        rw [hhead]
        exact hholds (b :: left) c right rfl

/-- A block comment in which no slash has stood behind a star, with the star that was read last. -/
def InComment (mode : Mode) (text : Bytes) : Prop :=
  mode = .blockComment ∧ ¬ commentEnd <:+: text ∨ mode = .blockStar ∧ ¬ commentEnd <:+: star :: text

theorem InComment.step {mode : Mode} {b : UInt8} {text : Bytes}
    (hcomment : mode.InComment (b :: text)) (next : Option UInt8) :
    (mode.step b next).InComment text := by
  rcases hcomment with ⟨rfl, hopen⟩ | ⟨rfl, hopen⟩
  · by_cases hstar : b = star
    · subst hstar
      exact .inr ⟨rfl, hopen⟩
    · refine .inl ⟨by simp [Mode.step, hstar], fun hend => hopen ?_⟩
      exact hend.trans (List.suffix_cons b text).isInfix
  · have hslash : b ≠ slash := by
      rintro rfl
      exact hopen (List.prefix_append commentEnd text).isInfix
    have hrest : ¬ commentEnd <:+: b :: text := fun hend =>
      hopen (hend.trans (List.suffix_cons star _).isInfix)
    by_cases hstar : b = star
    · subst hstar
      exact .inr ⟨rfl, hrest⟩
    · refine .inl ⟨by simp [Mode.step, hslash, hstar], fun hend => hrest ?_⟩
      exact hend.trans (List.suffix_cons b text).isInfix

theorem InComment.after {mode : Mode} {left right : Bytes}
    (hcomment : mode.InComment (left ++ right)) (next : Option UInt8) :
    (mode.after left next).InComment right := by
  induction left generalizing mode with
  | nil => exact hcomment
  | cons b left ih => exact ih (hcomment.step _)

theorem InComment.holds {mode : Mode} {text : Bytes} (hcomment : mode.InComment text) :
    mode.Holds := by
  rcases hcomment with ⟨rfl, -⟩ | ⟨rfl, -⟩ <;> trivial

end Mode

theorem Quoted.tokens_append {quote : UInt8} {content : Bytes} (hcontent : Quoted quote content)
    (tail : Bytes) :
    (Mode.literal quote).tokens (content ++ tail) =
      (content ++ ((Mode.literal quote).tokens tail).1, ((Mode.literal quote).tokens tail).2) := by
  have hholds : ∀ left b right, content = left ++ b :: right →
      ((Mode.literal quote).after left (some b)).Holds := by
    rintro left b right rfl
    exact hcontent.holds_of_append (some b)
  rw [Mode.tokens_append_of_holds hholds, (hcontent.literal_eq _).1]

theorem tokens_quote {quote : UInt8} {text : Bytes} (hquote : isQuote quote = true)
    (htext : (Mode.literal quote).tokens text = (text, [])) :
    tokens (quote :: text) = [.literal (quote :: text)] := by
  rw [tokens, Mode.tokens_cons, Mode.code_step_quote hquote, htext]

theorem tokens_literalText {quote : UInt8} {content : Bytes} (hquote : isQuote quote = true)
    (hcontent : Quoted quote content) :
    tokens (literalText quote content) = [.literal (literalText quote content)] := by
  have hclose : (Mode.literal quote).tokens [quote] = ([quote], []) := rfl
  refine tokens_quote hquote ?_
  rw [hcontent.tokens_append, hclose]

theorem tokens_openLiteral {quote : UInt8} {content : Bytes} (hquote : isQuote quote = true)
    (hcontent : Unquoted quote content) :
    tokens (quote :: content) = [.literal (quote :: content)] := by
  refine tokens_quote hquote ?_
  cases hcontent with
  | quoted hcontent =>
      have hopen := hcontent.tokens_append []
      rwa [Mode.tokens_nil, List.append_nil] at hopen
  | backslash hcontent => exact hcontent.tokens_append [backslash]

theorem tokens_comment {text : Bytes} (htext : Mode.blockComment.tokens text = (text, [])) :
    tokens (slash :: star :: text) = [.blockComment (slash :: star :: text)] := by
  have hopen : Mode.blockOpen.tokens (star :: text) = (star :: text, []) := by
    rw [Mode.tokens_cons]
    simp only [Mode.step, htext]
  have hstep : Mode.code.step slash (star :: text).head? = .blockOpen := rfl
  rw [tokens, Mode.tokens_cons, hstep, hopen]

theorem tokens_openComment {content : Bytes} (hcontent : ¬ commentEnd <:+: content) :
    tokens (slash :: star :: content) = [.blockComment (slash :: star :: content)] := by
  have hcomment : Mode.blockComment.InComment content := .inl ⟨rfl, hcontent⟩
  have hholds : ∀ left b right, content = left ++ b :: right →
      (Mode.blockComment.after left (some b)).Holds := by
    rintro left b right rfl
    exact (hcomment.after (some b)).holds
  have hopen := Mode.tokens_append_of_holds hholds []
  rw [Mode.tokens_nil, List.append_nil] at hopen
  exact tokens_comment hopen

/-- A star makes no end of a comment with what stands before it. -/
theorem commentEnd_infix_of_star {content : Bytes} (hend : commentEnd <:+: content ++ [star]) :
    commentEnd <:+: content := by
  refine (List.infix_concat_iff.mp hend).resolve_left ?_
  rintro ⟨lead, hlead⟩
  have hlast := congrArg List.getLast? hlead
  simp [commentEnd, slash, Byte.star] at hlast

theorem inComment_star {content : Bytes} (hcontent : ¬ commentEnd <:+: content) :
    Mode.blockComment.InComment (content ++ [star]) :=
  .inl ⟨rfl, fun hend => hcontent (commentEnd_infix_of_star hend)⟩

theorem blockComment_after {content : Bytes} (hcontent : ¬ commentEnd <:+: content)
    (next : Option UInt8) :
    Mode.blockComment.after (content ++ [star]) next = .blockStar := by
  have hcomment := inComment_star hcontent
  have hafter := hcomment.after (some star)
  rw [Mode.after_append]
  rcases hafter with ⟨hmode, -⟩ | ⟨hmode, -⟩
  · rw [List.head?_singleton, Option.some_or, hmode]
    rfl
  · rw [List.head?_singleton, Option.some_or, hmode]
    rfl

theorem tokens_blockComment {content : Bytes} (hcontent : ¬ commentEnd <:+: content) :
    tokens (slash :: star :: (content ++ commentEnd)) =
        [.blockComment (slash :: star :: (content ++ commentEnd))] ∧
      ∀ next, Mode.code.after (slash :: star :: (content ++ commentEnd)) next = .code := by
  have hend : content ++ commentEnd = (content ++ [star]) ++ [slash] := by
    simp [commentEnd]
  have hcomment := inComment_star hcontent
  have hholds : ∀ left b right, content ++ [star] = left ++ b :: right →
      (Mode.blockComment.after left (some b)).Holds := by
    intro left b right htext
    rw [htext] at hcomment
    exact (hcomment.after (some b)).holds
  have hclose : Mode.blockStar.tokens [slash] = ([slash], []) := rfl
  constructor
  · refine tokens_comment ?_
    rw [hend, Mode.tokens_append_of_holds hholds, blockComment_after hcontent, hclose]
  · intro next
    have hopen : Mode.code.after (slash :: star :: (content ++ commentEnd)) next =
        Mode.blockComment.after (content ++ commentEnd) next := rfl
    rw [hopen, hend, Mode.after_append, blockComment_after hcontent]
    rfl

theorem Token.StandsBefore.tokens_append {token : Token} {rest : Bytes}
    (htoken : token.StandsBefore rest) :
    tokens (token.text ++ rest) = token :: tokens rest := by
  cases htoken with
  | literal hquote hcontent rest =>
      have hcode := (code_literalText hquote hcontent rest.head?).1
      rw [Token.text, Extraction.tokens_append (.inl hcode), tokens_literalText hquote hcontent]
      rfl
  | openLiteral hquote hcontent =>
      rw [Token.text, List.append_nil, tokens_openLiteral hquote hcontent]
      rfl
  | @lineComment content rest hcontent hrest =>
      have hcomment : IsLineComment (slash :: slash :: content) := ⟨content, rfl, hcontent⟩
      rw [Token.text, Extraction.tokens_append, hcomment.tokens_eq]
      · rfl
      · rw [hcomment.after_eq]
        exact .inr (hrest.imp_right fun hline => ⟨rfl, hline⟩)
  | blockComment hcontent rest =>
      obtain ⟨htokens, hcode⟩ := tokens_blockComment hcontent
      rw [Token.text, Extraction.tokens_append (.inl (hcode _)), htokens]
      rfl
  | openComment hcontent =>
      rw [Token.text, List.append_nil, tokens_openComment hcontent]
      rfl
  | @code b rest hquote hcomment =>
      have hstep : Mode.code.step b rest.head? = .code := by
        simp only [Mode.step, hquote]
        by_cases hslash : b = slash
        · simp [hcomment hslash]
        · simp [hslash]
      rw [Token.text, List.singleton_append, tokens, Mode.tokens_cons, hstep]
      rfl

theorem Token.StandsBefore.codeView_append {token : Token} {rest : Bytes}
    (htoken : token.StandsBefore rest) :
    codeView (token.text ++ rest) = token.view ++ codeView rest := by
  obtain ⟨other, htext, -, -, hview, -⟩ := exists_rest_of_tokens_cons htoken.tokens_append
  rwa [← List.append_cancel_left htext] at hview

/-! Every text starts with such a token. -/

theorem exists_quoted (quote : UInt8) : ∀ text : Bytes,
    (∃ content rest, text = content ++ quote :: rest ∧ Quoted quote content) ∨
      Unquoted quote text
  | [] => .inr (.quoted .nil)
  | b :: text => by
      by_cases hquote : b = quote
      · exact .inl ⟨[], text, by rw [hquote]; rfl, .nil⟩
      · by_cases hbackslash : b = backslash
        · subst hbackslash
          match text with
          | [] => exact .inr (.backslash .nil)
          | c :: text =>
              rcases exists_quoted quote text with ⟨content, rest, rfl, hcontent⟩ | hopen
              · exact .inl ⟨backslash :: c :: content, rest, rfl, .escape hcontent⟩
              · cases hopen with
                | quoted hcontent => exact .inr (.quoted (.escape hcontent))
                | @backslash content hcontent =>
                    exact .inr (@Unquoted.backslash quote (backslash :: c :: content)
                      (.escape hcontent))
        · rcases exists_quoted quote text with ⟨content, rest, rfl, hcontent⟩ | hopen
          · exact .inl ⟨b :: content, rest, rfl, .byte hquote hbackslash hcontent⟩
          · cases hopen with
            | quoted hcontent => exact .inr (.quoted (.byte hquote hbackslash hcontent))
            | @backslash content hcontent =>
                exact .inr (@Unquoted.backslash quote (b :: content)
                  (.byte hquote hbackslash hcontent))

theorem indexOf?_commentEnd_iff {text : Bytes} {offset : Nat} :
    Bytes.indexOf? commentEnd text = some offset ↔
      ∃ content rest, text = content ++ (commentEnd ++ rest) ∧ offset = content.length ∧
        ¬ commentEnd <:+: content := by
  rw [Bytes.indexOf?_eq_some_iff]
  constructor
  · rintro ⟨content, _, rfl, rfl, ⟨rest, rfl⟩, hfirst⟩
    refine ⟨content, rest, rfl, rfl, ?_⟩
    rintro ⟨left, right, rfl⟩
    exact hfirst left (commentEnd ++ right) (List.append_assoc ..) (List.cons_ne_nil _ _)
      ⟨_, (List.append_assoc ..).symm⟩
  · rintro ⟨content, rest, rfl, rfl, hopen⟩
    refine ⟨content, commentEnd ++ rest, rfl, rfl, ⟨rest, rfl⟩, ?_⟩
    rintro left right rfl hright hlead
    have hstar : right ++ [star] <+: right ++ (commentEnd ++ rest) :=
      ⟨slash :: rest, by simp [commentEnd]⟩
    have hwithin : commentEnd <+: right ++ [star] := by
      refine List.prefix_of_prefix_length_le hlead hstar ?_
      have hpos := List.length_pos_iff.mpr hright
      rw [List.length_append, List.length_singleton]
      exact Nat.succ_le_succ hpos
    have hend := commentEnd_infix_of_star hwithin.isInfix
    exact hopen (hend.trans (List.suffix_append left right).isInfix)

theorem indexOf?_commentEnd_eq_none_iff {text : Bytes} :
    Bytes.indexOf? commentEnd text = none ↔ ¬ commentEnd <:+: text := by
  rw [← Bytes.contains_iff, Bytes.contains, Option.not_isSome_iff_eq_none]

theorem exists_lineComment (text : Bytes) :
    ∃ token rest, slash :: slash :: text = Token.text token ++ rest ∧ token.StandsBefore rest := by
  have hsplit := (List.takeWhile_append_dropWhile (p := (· != lineFeed)) (l := text)).symm
  have hrest := List.head?_dropWhile_not (· != lineFeed) text
  refine ⟨.lineComment (slash :: slash :: text.takeWhile (· != lineFeed)),
    text.dropWhile (· != lineFeed), congrArg (slash :: slash :: ·) hsplit, .lineComment ?_ ?_⟩
  · intro hmem
    have hkept := List.all_eq_true.mp List.all_takeWhile _ hmem
    simp at hkept
  · cases hbehind : text.dropWhile (· != lineFeed) with
    | nil => exact .inl rfl
    | cons b rest =>
        rw [hbehind] at hrest
        exact .inr (by simpa using hrest)

theorem exists_blockComment (text : Bytes) :
    ∃ token rest, slash :: star :: text = Token.text token ++ rest ∧ token.StandsBefore rest := by
  cases hfound : Bytes.indexOf? commentEnd text with
  | none =>
      have hopen := indexOf?_commentEnd_eq_none_iff.mp hfound
      exact ⟨_, [], by simp [Token.text], .openComment hopen⟩
  | some offset =>
      obtain ⟨content, rest, rfl, -, hopen⟩ := indexOf?_commentEnd_iff.mp hfound
      exact ⟨_, rest, by simp [Token.text], .blockComment hopen rest⟩

theorem exists_standsBefore {text : Bytes} (hne : text ≠ []) :
    ∃ token rest, text = Token.text token ++ rest ∧ token.StandsBefore rest := by
  cases text with
  | nil => contradiction
  | cons b text =>
      by_cases hquote : isQuote b = true
      · rcases exists_quoted b text with ⟨content, rest, rfl, hcontent⟩ | hopen
        · exact ⟨_, rest, by simp [Token.text, literalText], .literal hquote hcontent rest⟩
        · exact ⟨_, [], by simp [Token.text], .openLiteral hquote hopen⟩
      · rw [Bool.not_eq_true] at hquote
        by_cases hcomment : b = slash → text.head? ≠ some slash ∧ text.head? ≠ some star
        · exact ⟨.code b, text, rfl, .code hquote hcomment⟩
        · obtain ⟨rfl, hhead⟩ := Classical.not_imp.mp hcomment
          rcases Decidable.not_and_iff_not_or_not.mp hhead with hhead | hhead
          all_goals rw [Decidable.not_not] at hhead
          · obtain ⟨content, rfl⟩ := List.head?_eq_some_iff.mp hhead
            exact exists_lineComment content
          · obtain ⟨content, rfl⟩ := List.head?_eq_some_iff.mp hhead
            exact exists_blockComment content

theorem Token.StandsBefore.text_ne {token : Token} {rest : Bytes}
    (htoken : token.StandsBefore rest) : token.text ≠ [] := by
  cases htoken <;> exact List.cons_ne_nil _ _

/-- A text is made up of the tokens that are read in it, and of no others. -/
theorem tokenizes_iff {text : Bytes} {items : List Token} :
    Tokenizes text items ↔ items = tokens text := by
  constructor
  · intro htokenizes
    induction htokenizes with
    | nil => rfl
    | cons htoken _ ih => rw [htoken.tokens_append, ← ih]
  · rintro rfl
    -- A token may be of any width, so the induction is on the length of the text.
    induction hlength : text.length using Nat.strongRecOn generalizing text with
    | ind width ih =>
        by_cases hne : text = []
        · rw [hne]
          exact .nil
        · obtain ⟨token, rest, rfl, htoken⟩ := exists_standsBefore hne
          have hshorter : rest.length < width := by
            have hpos := List.length_pos_iff.mpr htoken.text_ne
            rw [List.length_append] at hlength
            omega
          rw [htoken.tokens_append]
          exact .cons htoken (ih rest.length hshorter rfl)

end Extraction
