import Extraction.Proofs.Slices
import Extraction.Proofs.Tokenization
/-!
The literals and comments of a text as a cursor over its bytes passes them. The cursor knows no
tokens, it looks for the bytes that end a literal or a comment; from the start of a token this
leads to the end of the token.
-/

namespace Extraction.CodeCursor

open Byte Bytes

/-! The moves. They give no result if they look outside the bytes. -/

def tail? (bytes : Bytes) (offset : Nat) : Option Bytes :=
  if offset ≤ bytes.length then some (bytes.drop offset) else none

/-- The end of a literal that is open at an offset. -/
def literalEnd (bytes : Bytes) (quote : UInt8) (offset : Nat) : Nat :=
  match _ : bytes[offset]? with
  | none => bytes.length
  | some b =>
      if b == backslash then literalEnd bytes quote (offset + 2)
      else if b == quote then offset + 1
      else literalEnd bytes quote (offset + 1)
termination_by bytes.length - offset
decreasing_by
  all_goals
    have hlt := (List.getElem?_eq_some_iff.mp ‹bytes[offset]? = some _›).1
    omega

def lineCommentEnd? (bytes : Bytes) (offset : Nat) : Option Nat := do
  let rest ← tail? bytes offset
  return (indexOf? [lineFeed] rest).elim bytes.length (offset + ·)

def blockCommentEnd? (bytes : Bytes) (offset : Nat) : Option Nat := do
  let rest ← tail? bytes (offset + 2)
  return (indexOf? commentEnd rest).elim bytes.length (offset + 2 + · + 2)

/-- The end of the literal or the comment that starts with a byte at an offset; the inner `none`
tells that the byte is code. -/
def skip? (bytes : Bytes) (b : UInt8) (offset : Nat) : Option (Option Nat) :=
  let next := bytes[offset + 1]?
  if isQuote b then some (literalEnd bytes b (offset + 1))
  else if b == slash && next == some slash then (lineCommentEnd? bytes offset).map some
  else if b == slash && next == some star then (blockCommentEnd? bytes offset).map some
  else some none

def hiddenEnd? (offset : Nat) : Token → Option Nat
  | .code _ => none
  | token => some (offset + token.width)

theorem code_or_hidden (token : Token) (offset : Nat) :
    (∃ b, token = .code b) ∨ hiddenEnd? offset token = some (offset + token.width) ∧
      token.view = List.replicate token.width none := by
  cases token with
  | code b => exact .inl ⟨b, rfl⟩
  | _ => exact .inr ⟨rfl, rfl⟩

section Token

variable {bytes rest : Bytes} {offset : Nat}

theorem lt_length_of_drop {b : UInt8} (hdrop : bytes.drop offset = b :: rest) :
    offset < bytes.length := by
  have hlength := congrArg List.length hdrop
  rw [List.length_drop, List.length_cons] at hlength
  omega

theorem drop_succ_of_drop {b : UInt8} (hdrop : bytes.drop offset = b :: rest) :
    bytes.drop (offset + 1) = rest := by
  rw [List.drop_add_one_eq_tail_drop, hdrop]
  rfl

theorem getElem?_of_drop {b : UInt8} (hdrop : bytes.drop offset = b :: rest) :
    bytes[offset]? = some b ∧ bytes[offset + 1]? = rest.head? := by
  rw [← List.head?_drop, ← List.head?_drop, hdrop, drop_succ_of_drop hdrop]
  exact ⟨rfl, rfl⟩

theorem literalEnd_of_getElem? {quote b : UInt8} (hb : bytes[offset]? = some b) :
    literalEnd bytes quote offset =
      if b == backslash then literalEnd bytes quote (offset + 2)
      else if b == quote then offset + 1
      else literalEnd bytes quote (offset + 1) := by
  rw [literalEnd]
  split
  · next hnone => cases hb.symm.trans hnone
  · next hsome =>
      cases hb.symm.trans hsome
      rfl

theorem literalEnd_of_length_le {quote : UInt8} (hle : bytes.length ≤ offset) :
    literalEnd bytes quote offset = bytes.length := by
  rw [literalEnd, List.getElem?_eq_none hle]

theorem literalEnd_append {quote : UInt8} {content : Bytes} (hcontent : Quoted quote content)
    (hdrop : bytes.drop offset = content ++ rest) :
    literalEnd bytes quote offset = literalEnd bytes quote (offset + content.length) := by
  induction hcontent generalizing offset with
  | nil => rfl
  | byte hquote hbackslash _ ih =>
      rw [literalEnd_of_getElem? (getElem?_of_drop hdrop).1, if_neg (by simpa using hbackslash),
        if_neg (by simpa using hquote), ih (drop_succ_of_drop hdrop), List.length_cons]
      congr 1
      omega
  | escape _ ih =>
      have hbehind := drop_succ_of_drop (drop_succ_of_drop hdrop)
      rw [literalEnd_of_getElem? (getElem?_of_drop hdrop).1, if_pos (beq_self_eq_true backslash),
        ih hbehind, List.length_cons, List.length_cons]
      congr 1
      omega

theorem literalEnd_literal {quote : UInt8} {content : Bytes} (hquote : isQuote quote = true)
    (hcontent : Quoted quote content) (hdrop : bytes.drop offset = content ++ quote :: rest) :
    literalEnd bytes quote offset = offset + content.length + 1 := by
  have hclose := (getElem?_of_drop (drop_of_drop_eq hdrop)).1
  have hbackslash : quote ≠ backslash := by
    rintro rfl
    cases hquote
  rw [literalEnd_append hcontent hdrop, literalEnd_of_getElem? hclose,
    if_neg (by simpa using hbackslash), if_pos (by simp)]

theorem literalEnd_openLiteral {quote : UInt8} {content : Bytes}
    (hcontent : Unquoted quote content) (hle : offset ≤ bytes.length)
    (hdrop : bytes.drop offset = content) :
    literalEnd bytes quote offset = offset + content.length := by
  have hlength := congrArg List.length hdrop
  rw [List.length_drop] at hlength
  cases hcontent with
  | quoted hcontent =>
      rw [← List.append_nil content] at hdrop
      rw [literalEnd_append hcontent hdrop, literalEnd_of_length_le (by omega)]
      omega
  | @backslash content hcontent =>
      have hescape := (getElem?_of_drop (drop_of_drop_eq hdrop)).1
      rw [List.length_append, List.length_singleton] at hlength
      rw [literalEnd_append hcontent hdrop, literalEnd_of_getElem? hescape,
        if_pos (beq_self_eq_true backslash), literalEnd_of_length_le (by omega),
        List.length_append, List.length_singleton]
      omega

theorem tail?_eq (hle : offset ≤ bytes.length) : tail? bytes offset = some (bytes.drop offset) :=
  if_pos hle

theorem lineCommentEnd?_eq {content : Bytes} (hcontent : lineFeed ∉ content)
    (hrest : rest = [] ∨ rest.head? = some lineFeed)
    (hdrop : bytes.drop offset = slash :: slash :: content ++ rest) :
    lineCommentEnd? bytes offset = some (offset + (slash :: slash :: content).length) := by
  have hlength := congrArg List.length hdrop
  have hcomment : lineFeed ∉ slash :: slash :: content := by
    rw [List.mem_cons, List.mem_cons, not_or, not_or]
    exact ⟨by decide, by decide, hcontent⟩
  rw [List.length_drop, List.length_append, List.length_cons, List.length_cons] at hlength
  rw [lineCommentEnd?, tail?_eq (by omega), Option.bind_eq_bind, Option.bind_some, hdrop]
  rcases hrest with rfl | hrest
  · have hnone : indexOf? [lineFeed] (slash :: slash :: content ++ []) = none := by
      rw [Option.eq_none_iff_forall_ne_some]
      intro index hfound
      obtain ⟨lead, behind, hsplit, -⟩ := indexOf?_singleton_eq_some_iff.mp hfound
      rw [List.append_nil] at hsplit
      simp [hsplit] at hcomment
    rw [List.length_nil] at hlength
    rw [hnone, List.length_cons, List.length_cons]
    exact congrArg some (show bytes.length = offset + (content.length + 1 + 1) by omega)
  · obtain ⟨behind, rfl⟩ := List.head?_eq_some_iff.mp hrest
    rw [indexOf?_singleton_eq_some_iff.mpr ⟨slash :: slash :: content, behind, rfl, rfl, hcomment⟩]
    rfl

theorem blockCommentEnd?_eq {content : Bytes} (hcontent : ¬ commentEnd <:+: content)
    (hdrop : bytes.drop offset = slash :: star :: (content ++ (commentEnd ++ rest))) :
    blockCommentEnd? bytes offset =
      some (offset + (slash :: star :: (content ++ commentEnd)).length) := by
  have hlength := congrArg List.length hdrop
  have hbehind := drop_succ_of_drop (drop_succ_of_drop hdrop)
  simp only [List.length_drop, List.length_cons] at hlength
  rw [blockCommentEnd?, tail?_eq (by omega), Option.bind_eq_bind, Option.bind_some, hbehind,
    indexOf?_commentEnd_iff.mpr ⟨content, rest, rfl, rfl, hcontent⟩]
  simp only [Option.elim_some, List.length_cons, List.length_append, commentEnd, List.length_nil]
  exact congrArg some (by omega)

theorem blockCommentEnd?_open {content : Bytes} (hcontent : ¬ commentEnd <:+: content)
    (hdrop : bytes.drop offset = slash :: star :: content) :
    blockCommentEnd? bytes offset = some (offset + (slash :: star :: content).length) := by
  have hlength := congrArg List.length hdrop
  have hbehind := drop_succ_of_drop (drop_succ_of_drop hdrop)
  simp only [List.length_drop, List.length_cons] at hlength
  have hend : bytes.length = offset + (slash :: star :: content).length := by
    rw [List.length_cons, List.length_cons]
    omega
  rw [blockCommentEnd?, tail?_eq (by omega), Option.bind_eq_bind, Option.bind_some, hbehind,
    indexOf?_commentEnd_eq_none_iff.mpr hcontent, Option.elim_none, hend]
  rfl

theorem skip?_quote {quote : UInt8} (hquote : isQuote quote = true) :
    skip? bytes quote offset = some (literalEnd bytes quote (offset + 1)) :=
  if_pos hquote

theorem skip?_lineComment (hdrop : bytes.drop offset = slash :: slash :: rest) :
    skip? bytes slash offset = (lineCommentEnd? bytes offset).map some := by
  rw [skip?, (getElem?_of_drop hdrop).2]
  rfl

theorem skip?_blockComment (hdrop : bytes.drop offset = slash :: star :: rest) :
    skip? bytes slash offset = (blockCommentEnd? bytes offset).map some := by
  rw [skip?, (getElem?_of_drop hdrop).2]
  rfl

theorem skip?_eq {token : Token} {b : UInt8} {tail : Bytes} (htoken : token.StandsBefore rest)
    (htext : token.text = b :: tail) (hdrop : bytes.drop offset = token.text ++ rest) :
    skip? bytes b offset = some (hiddenEnd? offset token) := by
  cases htoken with
  | @literal quote content hquote hcontent rest =>
      obtain ⟨rfl, rfl⟩ := List.cons.inj htext
      have hsplit : bytes.drop offset = quote :: (content ++ quote :: rest) := by
        simpa [Token.text, literalText] using hdrop
      have hwidth : offset + 1 + content.length + 1 =
          offset + (Token.literal (literalText quote content)).width := by
        simp only [Token.width, Token.text, literalText, List.length_cons, List.length_append,
          List.length_nil]
        omega
      rw [skip?_quote hquote, literalEnd_literal hquote hcontent (drop_succ_of_drop hsplit),
        hwidth]
      rfl
  | @openLiteral quote content hquote hcontent =>
      obtain ⟨rfl, rfl⟩ := List.cons.inj htext
      rw [List.append_nil] at hdrop
      have hlt := lt_length_of_drop hdrop
      have hwidth : offset + 1 + content.length =
          offset + (Token.literal (quote :: content)).width := by
        rw [Token.width, Token.text, List.length_cons]
        omega
      rw [skip?_quote hquote, literalEnd_openLiteral hcontent hlt (drop_succ_of_drop hdrop), hwidth]
      rfl
  | lineComment hcontent hrest =>
      obtain ⟨rfl, rfl⟩ := List.cons.inj htext
      rw [skip?_lineComment hdrop, lineCommentEnd?_eq hcontent hrest hdrop]
      rfl
  | blockComment hcontent rest =>
      obtain ⟨rfl, rfl⟩ := List.cons.inj htext
      have hsplit := hdrop
      rw [Token.text, List.cons_append, List.cons_append, List.append_assoc] at hsplit
      rw [skip?_blockComment hsplit, blockCommentEnd?_eq hcontent hsplit]
      rfl
  | openComment hcontent =>
      obtain ⟨rfl, rfl⟩ := List.cons.inj htext
      rw [List.append_nil] at hdrop
      rw [skip?_blockComment hdrop, blockCommentEnd?_open hcontent hdrop]
      rfl
  | @code b rest hquote hcomment =>
      obtain ⟨rfl, rfl⟩ := List.cons.inj htext
      have hslash : (b == slash && rest.head? == some slash) = false := by
        simpa using fun h => (hcomment h).1
      have hstar : (b == slash && rest.head? == some star) = false := by
        simpa using fun h => (hcomment h).2
      have hsplit : bytes.drop offset = b :: rest := hdrop
      rw [skip?, (getElem?_of_drop hsplit).2, hquote, hslash, hstar]
      rfl

/-- The cursor never looks outside the bytes, and what it passes has a width. -/
theorem exists_skip? {b : UInt8} (hb : bytes[offset]? = some b) :
    ∃ stop, skip? bytes b offset = some stop ∧ ∀ behind, stop = some behind → offset < behind := by
  have hlt := (List.getElem?_eq_some_iff.mp hb).1
  have hne : bytes.drop offset ≠ [] := by
    rw [ne_eq, List.drop_eq_nil_iff]
    omega
  obtain ⟨token, rest, hdrop, htoken⟩ := exists_standsBefore hne
  obtain ⟨c, tail, htext⟩ := List.exists_cons_of_ne_nil htoken.text_ne
  have hpos : 0 < token.width := List.length_pos_iff.mpr htoken.text_ne
  obtain rfl : c = b := by
    have hhead := congrArg List.head? hdrop
    rw [List.head?_drop, hb, htext] at hhead
    exact (Option.some.inj hhead).symm
  refine ⟨_, skip?_eq htoken htext hdrop, ?_⟩
  intro behind hbehind
  rcases code_or_hidden token offset with ⟨c, rfl⟩ | ⟨hstop, -⟩
  · cases hbehind
  · obtain rfl := Option.some.inj (hstop.symm.trans hbehind)
    omega

theorem lt_of_skip? {b : UInt8} {behind : Nat} (hb : bytes[offset]? = some b)
    (hskip : skip? bytes b offset = some (some behind)) : offset < behind := by
  obtain ⟨stop, hstop, hlt⟩ := exists_skip? hb
  exact hlt behind (Option.some.inj (hstop.symm.trans hskip))

end Token

end Extraction.CodeCursor
