import Extraction.Proofs.AnchorPieces
import Extraction.Proofs.CheckedPlan
import Extraction.Proofs.CodeCursor
/-!
The anchor as a cursor over the bytes of a source finds it. One loop skips from token to token and
keeps the last end of code, another reads on from there to the end of the comments on the line, and
every byte that is looked at, ahead or back, is one of the source. The cursor knows no tokens; it
stops where the tokens of the body end, so it never leaves the source.
-/

namespace Extraction.AnchorCursor

open Byte Bytes CodeCursor

/-- Where to read on behind an offset, and the byte of code that was passed. -/
def step? (bytes : Bytes) (offset : Nat) : Option (Nat × Option UInt8) := do
  let b ← bytes[offset]?
  match ← skip? bytes b offset with
  | some stop => return (stop, if isQuote b then some b else none)
  | none => return (offset + 1, if isAsciiBlank b then none else some b)

/-! A step leads from the start of a token to its end. -/

section Step

variable {bytes rest : Bytes} {offset : Nat}

theorem step?_eq {token : Token} (htoken : token.StandsBefore rest)
    (hdrop : bytes.drop offset = token.text ++ rest) :
    step? bytes offset = some (offset + token.width, token.codeByte?) := by
  obtain ⟨b, tail, htext⟩ := List.exists_cons_of_ne_nil htoken.text_ne
  have hb : bytes[offset]? = some b := by
    rw [htext] at hdrop
    exact (getElem?_of_drop hdrop).1
  have hstep : step? bytes offset = match hiddenEnd? offset token with
      | some stop => some (stop, if isQuote b then some b else none)
      | none => some (offset + 1, if isAsciiBlank b then none else some b) := by
    rw [step?, hb, Option.bind_eq_bind, Option.bind_some, skip?_eq htoken htext hdrop]
    cases hiddenEnd? offset token with
    | none => rfl
    | some stop => rfl
  rw [hstep]
  cases htoken with
  | literal hquote _ _ =>
      obtain ⟨rfl, -⟩ := List.cons.inj htext
      simp only [hiddenEnd?, hquote, if_true]
      rfl
  | openLiteral hquote _ =>
      obtain ⟨rfl, -⟩ := List.cons.inj htext
      simp only [hiddenEnd?, hquote, if_true]
      rfl
  | _ =>
      obtain ⟨rfl, -⟩ := List.cons.inj htext
      rfl

theorem lt_of_step? {next : Nat} {found : Option UInt8} (hlt : offset < bytes.length)
    (h : step? bytes offset = some (next, found)) : offset < next := by
  have hne : bytes.drop offset ≠ [] := by
    rw [ne_eq, List.drop_eq_nil_iff]
    omega
  obtain ⟨token, rest, hdrop, htoken⟩ := exists_standsBefore hne
  have hpos : 0 < token.width := List.length_pos_iff.mpr htoken.text_ne
  obtain ⟨rfl, -⟩ := Prod.mk.inj (Option.some.inj (h.symm.trans (step?_eq htoken hdrop)))
  omega

end Step

/-! The two loops. -/

def lastFrom? (bytes : Bytes) (offset : Nat) (last : Option (Nat × UInt8)) :
    Option (Option (Nat × UInt8)) :=
  if offset < bytes.length then
    match _ : step? bytes offset with
    | none => none
    | some (next, found) => lastFrom? bytes next ((found.map (next, ·)).or last)
  else some last
termination_by bytes.length - offset
decreasing_by
  have hnext := lt_of_step? ‹offset < bytes.length› ‹step? bytes offset = _›
  omega

def behindSpaces (bytes : Bytes) (offset : Nat) : Nat :=
  offset + ((bytes.drop offset).takeWhile fun b => b == space || b == tab).length

def onLineEnd? (bytes : Bytes) (offset : Nat) : Option Nat := do
  let stop ← lineCommentEnd? bytes offset
  let before ← checkedSub? stop 1
  let last ← bytes[before]?
  return if last == carriageReturn then before else stop

theorem lt_of_blockCommentEnd? {bytes : Bytes} {offset stop : Nat}
    (h : blockCommentEnd? bytes offset = some stop) :
    offset < bytes.length ∧ offset < stop := by
  rw [blockCommentEnd?, tail?] at h
  split at h
  · next hle =>
      refine ⟨by omega, ?_⟩
      obtain rfl := Option.some.inj h
      cases indexOf? commentEnd (bytes.drop (offset + 2)) with
      | none => exact Nat.lt_of_succ_lt hle
      | some width =>
          rw [Option.elim_some]
          omega
  · cases h

def commentsEnd? (bytes : Bytes) (offset lineEnd : Nat) : Option Nat :=
  let start := behindSpaces bytes offset
  if bytes[start]? == some slash && bytes[start + 1]? == some slash then onLineEnd? bytes start
  else if bytes[start]? == some slash && bytes[start + 1]? == some star then
    match _ : blockCommentEnd? bytes start with
    | none => none
    | some stop => commentsEnd? bytes stop stop
  else some lineEnd
termination_by bytes.length - offset
decreasing_by
  obtain ⟨hlength, hstop⟩ := lt_of_blockCommentEnd? ‹blockCommentEnd? bytes _ = some _›
  have hstart : offset ≤ behindSpaces bytes offset := Nat.le_add_right _ _
  omega

def anchorFrom? (bytes : Bytes) (offset : Nat) : Option (Option Anchor) := do
  match ← lastFrom? bytes offset none with
  | none => return none
  | some (afterCode, lastCodeByte) =>
      let lineEnd ← commentsEnd? bytes afterCode afterCode
      return some { afterCode, lastCodeByte, lineEnd }

/-- The anchor that the cursor finds in a body, behind which it knows no bytes. -/
def anchor? (text : Bytes) (body : Span) : Option (Option Anchor) :=
  if body.stop ≤ text.length then anchorFrom? (text.take body.stop) body.start else none

/-! What they give for a text that is made up of tokens. -/

section Loop

variable {bytes : Bytes} {offset : Nat} {items : List Token}

theorem lastFrom?_of_drop {token : Token} {rest : Bytes} (htoken : token.StandsBefore rest)
    (hdrop : bytes.drop offset = token.text ++ rest) (last : Option (Nat × UInt8)) :
    lastFrom? bytes offset last = lastFrom? bytes (offset + token.width)
      ((token.codeByte?.map (offset + token.width, ·)).or last) := by
  have hstep := step?_eq htoken hdrop
  have hlt : offset < bytes.length := by
    obtain ⟨b, text, htext⟩ := List.exists_cons_of_ne_nil htoken.text_ne
    rw [htext] at hdrop
    exact lt_length_of_drop hdrop
  rw [lastFrom?, if_pos hlt]
  split
  · next hnone => cases hstep.symm.trans hnone
  · next hsome =>
      cases hstep.symm.trans hsome
      rfl

/-- The first loop ends with the last code of the tokens, or with what it started from. -/
theorem lastFrom?_eq {text : Bytes} (htokenizes : Tokenizes text items)
    (hdrop : bytes.drop offset = text) (last : Option (Nat × UInt8)) :
    lastFrom? bytes offset last =
      some (((lastCode? offset items).map fun found => (found.1, found.2.1)).or last) := by
  induction htokenizes generalizing offset last with
  | nil =>
      rw [lastFrom?, if_neg (by simpa using hdrop)]
      rfl
  | @cons token rest items htoken _ ih =>
      have hrest : bytes.drop (offset + token.width) = rest := drop_of_drop_eq hdrop
      rw [lastFrom?_of_drop htoken hdrop, ih hrest, ← Option.or_assoc, lastCode?]
      cases lastCode? (offset + token.width) items with
      | some found => rfl
      | none => cases token.codeByte? <;> rfl

theorem behindSpaces_eq (hspace : (bytes.drop offset).head? ≠ some space)
    (htab : (bytes.drop offset).head? ≠ some tab) : behindSpaces bytes offset = offset := by
  rw [behindSpaces]
  cases hdrop : bytes.drop offset with
  | nil => rfl
  | cons b rest =>
      rw [hdrop] at hspace htab
      rw [List.takeWhile_cons_of_neg]
      · rfl
      · simpa using ⟨fun h => hspace (congrArg some h), fun h => htab (congrArg some h)⟩

theorem behindSpaces_slash {rest : Bytes} (hdrop : bytes.drop offset = slash :: rest) :
    behindSpaces bytes offset = offset := by
  apply behindSpaces_eq
  all_goals
    rw [hdrop, List.head?_cons]
    decide

theorem commentsEnd?_blank {b : UInt8} {rest : Bytes} (hb : (b == space || b == tab) = true)
    (hdrop : bytes.drop offset = b :: rest) (lineEnd : Nat) :
    commentsEnd? bytes offset lineEnd = commentsEnd? bytes (offset + 1) lineEnd := by
  have hstart : behindSpaces bytes offset = behindSpaces bytes (offset + 1) := by
    rw [behindSpaces, behindSpaces, hdrop, drop_succ_of_drop hdrop, List.takeWhile_cons, if_pos hb,
      List.length_cons]
    omega
  rw [commentsEnd?, commentsEnd?.eq_def bytes (offset + 1), hstart]

theorem commentsEnd?_stop (hspace : (bytes.drop offset).head? ≠ some space)
    (htab : (bytes.drop offset).head? ≠ some tab) (hslash : (bytes.drop offset).head? ≠ some slash)
    (lineEnd : Nat) : commentsEnd? bytes offset lineEnd = some lineEnd := by
  have hfirst : (bytes[offset]? == some slash) = false := by
    rw [← List.head?_drop]
    simpa using hslash
  rw [commentsEnd?, behindSpaces_eq hspace htab]
  simp only [hfirst, Bool.false_and, Bool.false_eq_true, if_false]

theorem commentsEnd?_lineComment {rest : Bytes} (hdrop : bytes.drop offset = slash :: slash :: rest)
    (lineEnd : Nat) : commentsEnd? bytes offset lineEnd = onLineEnd? bytes offset := by
  rw [commentsEnd?, behindSpaces_slash hdrop, (getElem?_of_drop hdrop).1,
    (getElem?_of_drop hdrop).2]
  rfl

theorem commentsEnd?_blockComment {rest : Bytes} {stop : Nat}
    (hdrop : bytes.drop offset = slash :: star :: rest)
    (hstop : blockCommentEnd? bytes offset = some stop) (lineEnd : Nat) :
    commentsEnd? bytes offset lineEnd = commentsEnd? bytes stop stop := by
  have hslash : (some star == some slash) = false := by decide
  rw [commentsEnd?, behindSpaces_slash hdrop, (getElem?_of_drop hdrop).1,
    (getElem?_of_drop hdrop).2, List.head?_cons, hslash]
  simp only [beq_self_eq_true, Bool.and_false, Bool.and_true, Bool.false_eq_true, if_false, if_true]
  split
  · next hnone => cases hstop.symm.trans hnone
  · next hsome =>
      cases hstop.symm.trans hsome
      rfl

theorem onLineEnd?_eq {comment rest : Bytes} (hne : comment ≠ [])
    (hstop : lineCommentEnd? bytes offset = some (offset + comment.length))
    (hdrop : bytes.drop offset = comment ++ rest) :
    onLineEnd? bytes offset = some (if comment.getLast? == some carriageReturn then
      offset + comment.length - 1 else offset + comment.length) := by
  have hpos := List.length_pos_iff.mpr hne
  have hbefore : checkedSub? (offset + comment.length) 1 = some (offset + comment.length - 1) :=
    if_pos (by omega)
  have hlast : bytes[offset + comment.length - 1]? = comment.getLast? := by
    rw [Nat.add_sub_assoc hpos, ← List.getElem?_drop, hdrop, List.getElem?_append_left (by omega),
      List.getLast?_eq_getElem?]
  rw [onLineEnd?, hstop, Option.bind_eq_bind, Option.bind_some, hbefore, Option.bind_eq_bind,
    Option.bind_some, hlast]
  cases hend : comment.getLast? with
  | none => exact absurd (List.getLast?_eq_none_iff.mp hend) hne
  | some b => rfl

/-- The second loop ends where the trailing comments of the tokens end. -/
theorem commentsEnd?_eq {text : Bytes} (htokenizes : Tokenizes text items)
    (hquiet : ∀ token ∈ items, token.codeByte? = none)
    (hdrop : bytes.drop offset = text) (lineEnd : Nat) :
    commentsEnd? bytes offset lineEnd = some (trailingComments offset lineEnd items) := by
  induction htokenizes generalizing offset lineEnd with
  | nil => apply commentsEnd?_stop <;> rw [hdrop] <;> decide
  | @cons token rest items htoken _ ih =>
      have hrest := fun other hother => hquiet other (List.mem_cons_of_mem _ hother)
      have hbehind : bytes.drop (offset + token.width) = rest := drop_of_drop_eq hdrop
      cases htoken with
      | literal hquote hcontent rest => cases hquiet _ List.mem_cons_self
      | openLiteral hquote hcontent => cases hquiet _ List.mem_cons_self
      | lineComment hcontent hlineFeed =>
          have hstop := lineCommentEnd?_eq hcontent hlineFeed hdrop
          rw [commentsEnd?_lineComment hdrop,
            onLineEnd?_eq (List.cons_ne_nil _ _) hstop hdrop, trailingComments]
      | blockComment hcontent rest =>
          have hsplit := hdrop
          rw [Token.text, List.cons_append, List.cons_append, List.append_assoc] at hsplit
          rw [commentsEnd?_blockComment hsplit (blockCommentEnd?_eq hcontent hsplit)]
          exact ih hrest hbehind _
      | openComment hcontent =>
          have hsplit := hdrop
          rw [List.append_nil] at hsplit
          rw [commentsEnd?_blockComment hsplit (blockCommentEnd?_open hcontent hsplit)]
          exact ih hrest hbehind _
      | @code b _ hquote hcomment =>
          rw [trailingComments]
          split
          · next hblank =>
              rw [commentsEnd?_blank hblank hdrop]
              exact ih hrest hbehind _
          · next hblank =>
              have hcode : b ≠ space ∧ b ≠ tab := by
                simpa using hblank
              have hslash : b ≠ slash := by
                rintro rfl
                cases hquiet _ List.mem_cons_self
              have hne : ∀ c, b ≠ c → (bytes.drop offset).head? ≠ some c := by
                intro c hc
                rw [hdrop]
                exact fun h => hc (Option.some.inj h)
              exact commentsEnd?_stop (hne _ hcode.1) (hne _ hcode.2) (hne _ hslash) _

end Loop

/-- The cursor stays in the text and finds the anchor. -/
theorem anchor?_eq {text : Bytes} {body : Span} (hstop : body.stop ≤ text.length) :
    anchor? text body = some (propertyAnchor text body) := by
  have hdrop : (text.take body.stop).drop body.start = text.slice body := List.drop_take
  have hfirst := lastFrom?_eq (tokenizes_iff.mpr rfl) hdrop none
  rw [anchor?, if_pos hstop, anchorFrom?, hfirst, propertyAnchor]
  cases hlast : lastCode? body.start (tokens (text.slice body)) with
  | none => rfl
  | some found =>
      obtain ⟨afterCode, byte, rest⟩ := found
      obtain ⟨before, token, htokens, -, rfl, hquiet⟩ := exists_of_lastCode? hlast
      rw [← List.singleton_append, ← List.append_assoc] at htokens
      obtain ⟨code, behind, hslice, rfl, hbehind⟩ := exists_append_of_tokens htokens
      have hcomments := commentsEnd?_eq (tokenizes_iff.mpr hbehind.symm) hquiet
        (drop_of_drop_eq (hdrop.trans hslice))
      simp only [Option.map_some, Option.or_none, Option.bind_eq_bind, Option.bind_some, hcomments]
      rfl

end Extraction.AnchorCursor
