import Extraction.Proofs.Tokens
import Extraction.Source.Anchor
/-!
Kinds of tokens: string literals, comments, white space, and the significant tokens, which are
neither comments nor white space. The anchor of a body looks for the last significant token.
-/

namespace Extraction

open Byte CodeView

namespace Token

def isBlank : Token → Bool
  | .code b => isAsciiBlank b
  | _ => false

def isLiteral : Token → Bool
  | .literal _ => true
  | _ => false

def isComment : Token → Bool
  | .lineComment _ => true
  | .blockComment _ => true
  | _ => false

def isSignificant : Token → Bool
  | .code b => !isAsciiBlank b
  | .literal _ => true
  | _ => false

end Token

theorem codeByte?_of_mem_tokens {text : Bytes} {token : Token} (hmem : token ∈ tokens text) :
    (token.codeByte? = none ↔ token.isSignificant = false) ∧
      (token.codeByte? = some comma ↔ token = .code comma) := by
  generalize htokens : tokens text = items at hmem
  induction items generalizing text with
  | nil => cases hmem
  | cons first items ih =>
      obtain ⟨rest, rfl, hne, hrest, hview, -, -⟩ := exists_rest_of_tokens_cons htokens
      rcases List.mem_cons.mp hmem with rfl | hmem
      · cases token with
        | code b =>
            simp only [Token.codeByte?, Token.isSignificant]
            cases hblank : isAsciiBlank b with
            | false => simp
            | true =>
                refine ⟨by simp, by simp, ?_⟩
                rintro ⟨rfl⟩
                cases hblank
        | literal content =>
            cases content with
            | nil => exact absurd rfl hne
            | cons b content =>
                refine ⟨by simp [Token.codeByte?, Token.isSignificant], ?_, by simp⟩
                intro hbyte
                obtain rfl := Option.some.inj hbyte
                cases (List.cons.inj hview).1
        | lineComment => simp [Token.codeByte?, Token.isSignificant]
        | blockComment => simp [Token.codeByte?, Token.isSignificant]
      · exact ih hrest hmem

/-- The last significant token is the one that the anchor stands behind. -/
theorem lastCode?_significant {offset : Nat} {items : List Token}
    (hitems : ∀ token ∈ items, (token.codeByte? = none ↔ token.isSignificant = false) ∧
      (token.codeByte? = some comma ↔ token = .code comma)) :
    match lastCode? offset items with
    | none => items.filter Token.isSignificant = []
    | some (_, byte, rest) =>
        rest.filter Token.isSignificant = [] ∧
          ∃ before token, items.filter Token.isSignificant = before ++ [token] ∧
            (byte = comma ↔ token = .code comma) := by
  induction items generalizing offset with
  | nil => rfl
  | cons token items ih =>
      have hfound := @ih (offset + token.width)
        fun other hother => hitems other (List.mem_cons_of_mem _ hother)
      obtain ⟨hnone, hcomma⟩ := hitems token List.mem_cons_self
      simp only [lastCode?]
      cases hlast : lastCode? (offset + token.width) items with
      | some found =>
          rw [hlast] at hfound
          obtain ⟨hrest, before, last, hbefore, hbyte⟩ := hfound
          refine ⟨hrest, (if token.isSignificant then token :: before else before), last, ?_,
            hbyte⟩
          rw [List.filter_cons, hbefore]
          split <;> rfl
      | none =>
          rw [hlast] at hfound
          have hfound : items.filter Token.isSignificant = [] := hfound
          cases hbyte : token.codeByte? with
          | none =>
              show (token :: items).filter Token.isSignificant = []
              rw [List.filter_cons, hnone.mp hbyte, hfound]
              rfl
          | some byte =>
              have hsignificant : token.isSignificant = true := by
                rw [← Bool.not_eq_false, ← hnone, hbyte]
                simp
              refine ⟨hfound, [], token, ?_, ?_⟩
              · rw [List.filter_cons, hsignificant, hfound]
                rfl
              · rw [← hcomma, hbyte, Option.some.injEq]

def solid (items : List Token) : List Token :=
  items.filter (!·.isBlank)

@[simp] theorem solid_nil : solid [] = [] := rfl

@[simp] theorem solid_append (left right : List Token) :
    solid (left ++ right) = solid left ++ solid right :=
  List.filter_append ..

theorem filter_solid {keeps : Token → Bool}
    (hkeeps : ∀ b, isAsciiBlank b = true → keeps (.code b) = false) (items : List Token) :
    (solid items).filter keeps = items.filter keeps := by
  rw [solid, List.filter_filter]
  congr 1
  funext token
  cases token with
  | code b =>
      cases hblank : isAsciiBlank b with
      | true => simp [hkeeps b hblank]
      | false => simp [Token.isBlank, hblank]
  | _ => simp [Token.isBlank]

theorem Token.isLiteral_code (b : UInt8) : (Token.code b).isLiteral = false := rfl

theorem Token.isComment_code (b : UInt8) : (Token.code b).isComment = false := rfl

theorem Token.isSignificant_code_of_isAsciiBlank {b : UInt8} (hblank : isAsciiBlank b = true) :
    (Token.code b).isSignificant = false := by
  simp [isSignificant, hblank]

theorem filter_map_code {keeps : Token → Bool} (hkeeps : ∀ b, keeps (.code b) = false)
    (text : Bytes) : (text.map Token.code).filter keeps = [] := by
  simp [List.filter_map, Function.comp_def, hkeeps]

theorem solid_code_of_isBlank {text : Bytes} (hblank : Balanced.IsBlank text) :
    solid (text.map .code) = [] := by
  rw [solid, List.filter_eq_nil_iff]
  intro token htoken
  obtain ⟨b, hb, rfl⟩ := List.mem_map.mp htoken
  simp [Token.isBlank, List.all_eq_true.mp hblank b hb]

theorem solid_blank_append {text : Bytes} (hblank : Balanced.IsBlank text) (rest : Bytes) :
    solid (tokens (text ++ rest)) = solid (tokens rest) := by
  rw [tokens_plain_append hblank.isPlain, solid_append, solid_code_of_isBlank hblank,
    List.nil_append]

/-- The same tokens, except that one line comment may have a carriage return more at its end. -/
inductive GainsReturn : List Token → List Token → Prop
  | same (items : List Token) : GainsReturn items items
  | gain (before : List Token) (comment : Bytes) (after : List Token) :
      GainsReturn (before ++ .lineComment comment :: after)
        (before ++ .lineComment (comment ++ [carriageReturn]) :: after)

namespace GainsReturn

variable {items more : List Token}

theorem append (hgains : GainsReturn items more) (left right : List Token) :
    GainsReturn (left ++ (items ++ right)) (left ++ (more ++ right)) := by
  cases hgains with
  | same => exact .same _
  | gain before comment after =>
      simpa using gain (left ++ before) comment (after ++ right)

theorem comments (hgains : GainsReturn items more) :
    GainsReturn (items.filter Token.isComment) (more.filter Token.isComment) := by
  cases hgains with
  | same => exact .same _
  | gain before comment after =>
      simpa [List.filter_cons, Token.isComment] using
        gain (before.filter Token.isComment) comment (after.filter Token.isComment)

theorem filter_eq {keeps : Token → Bool} (hgains : GainsReturn items more)
    (hcomment : ∀ comment, keeps (.lineComment comment) = false) :
    more.filter keeps = items.filter keeps := by
  cases hgains with
  | same => rfl
  | gain before comment after => simp [hcomment]

end GainsReturn

end Extraction
