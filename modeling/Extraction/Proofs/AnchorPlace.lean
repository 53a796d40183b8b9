import Extraction.Proofs.AnchorCursor
import Extraction.Proofs.LastLine
/-!
Where the anchor stands among the tokens of a body, which may be cut inside a literal or a comment.
The last code is a literal or a byte that is not white space; only white space and comments follow
it. The line goes on behind it as far as there are comments with nothing but spaces and tabs before
and between them, and it ends with the last of these, before its carriage return if it is a line
comment.
-/

namespace Extraction

open Byte Bytes

inductive Token.EndsCode : Token → UInt8 → Prop
  | literal {quote : UInt8} (hquote : isQuote quote = true) (content : Bytes) :
      EndsCode (.literal (quote :: content)) quote
  | byte {b : UInt8} (hblank : isAsciiBlank b = false) : EndsCode (.code b) b

/-- Comments with spaces and tabs before and between them. -/
inductive TrailsLine : List Token → Prop
  | nil : TrailsLine []
  | blank {b : UInt8} (hblank : b = space ∨ b = tab) {line : List Token} (hne : line ≠ [])
      (hline : TrailsLine line) : TrailsLine (.code b :: line)
  | comment {token : Token} (hcomment : token.isComment = true) {line : List Token}
      (hline : TrailsLine line) : TrailsLine (token :: line)

/-- The text of a token on its line. The carriage return of a line comment belongs to the line
break. -/
def Token.onLine : Token → Bytes
  | .lineComment text => if text.getLast? = some carriageReturn then text.dropLast else text
  | token => token.text

/-- The tokens of a body around its anchor: those before the last code, the last code, the comments
that trail it on its line and the rest. -/
structure Anchor.Stands (anchor : Anchor) (text : Bytes) (body : Span) (before : List Token)
    (last : Token) (line rest : List Token) : Prop where
  ends_code : last.EndsCode anchor.lastCodeByte
  quiet : ∀ token ∈ line ++ rest, token.isComment = true ∨ token.isBlank = true
  afterCode_eq : anchor.afterCode = body.start + ((before ++ [last]).map Token.text).flatten.length
  afterCode_le : anchor.afterCode ≤ anchor.lineEnd
  lineEnd_le : anchor.lineEnd ≤ body.stop
  trails : TrailsLine line
  line_eq : text.slice ⟨anchor.afterCode, anchor.lineEnd⟩ = (line.map Token.onLine).flatten
  longest : ∀ other, TrailsLine other → other <+: line ++ rest → other <+: line

namespace Token.StandsBefore

variable {token : Token} {rest : Bytes} (htoken : token.StandsBefore rest)
include htoken

theorem endsCode {b : UInt8} (hb : token.codeByte? = some b) : token.EndsCode b := by
  cases htoken with
  | literal hquote hcontent rest =>
      obtain rfl := Option.some.inj hb
      exact .literal hquote _
  | openLiteral hquote hcontent =>
      obtain rfl := Option.some.inj hb
      exact .literal hquote _
  | lineComment => cases hb
  | blockComment => cases hb
  | openComment => cases hb
  | code hquote hcomment =>
      rw [codeByte?] at hb
      split at hb
      · cases hb
      · next hblank =>
          obtain rfl := Option.some.inj hb
          exact .byte (by simpa using hblank)

theorem quiet_iff :
    token.codeByte? = none ↔ token.isComment = true ∨ token.isBlank = true := by
  cases htoken with
  | code hquote hcomment => simp [codeByte?, isComment, isBlank]
  | _ => simp [codeByte?, isComment, isBlank, literalText]

end Token.StandsBefore

theorem Tokenizes.exists_standsBefore {text : Bytes} {items : List Token}
    (htokenizes : Tokenizes text items) {token : Token} (hmem : token ∈ items) :
    ∃ rest, token.StandsBefore rest := by
  induction htokenizes with
  | nil => cases hmem
  | cons htoken _ ih =>
      rcases List.mem_cons.mp hmem with rfl | hmem
      · exact ⟨_, htoken⟩
      · exact ih hmem

theorem Tokenizes.quiet_iff {text : Bytes} {items : List Token}
    (htokenizes : Tokenizes text items) :
    (∀ token ∈ items, token.codeByte? = none) ↔
      ∀ token ∈ items, token.isComment = true ∨ token.isBlank = true := by
  apply forall₂_congr
  intro token hmem
  obtain ⟨rest, htoken⟩ := htokenizes.exists_standsBefore hmem
  exact htoken.quiet_iff

theorem propertyAnchor_eq_none_iff {text : Bytes} {body : Span} {items : List Token}
    (htokenizes : Tokenizes (text.slice body) items) :
    propertyAnchor text body = none ↔
      ∀ token ∈ items, token.isComment = true ∨ token.isBlank = true := by
  rw [propertyAnchor, Option.map_eq_none_iff, ← tokenizes_iff.mp htokenizes,
    ← htokenizes.quiet_iff]
  exact ⟨codeByte?_eq_none_of_lastCode?, fun hquiet => lastCode?_of_quiet hquiet _⟩

/-! The comments that trail the last code. -/

namespace TrailsLine

variable {line items : List Token}

theorem tail {token : Token} (hline : TrailsLine (token :: line)) : TrailsLine line := by
  cases hline <;> assumption

theorem eq_nil_of_starts {b : UInt8} (hline : TrailsLine line) (hlead : line <+: .code b :: items)
    (hblank : ¬ (b = space ∨ b = tab)) : line = [] := by
  cases hline with
  | nil => rfl
  | blank hb =>
      obtain ⟨heq, -⟩ := List.cons_prefix_cons.mp hlead
      cases heq
      contradiction
  | comment hcomment =>
      obtain ⟨rfl, -⟩ := List.cons_prefix_cons.mp hlead
      cases hcomment

end TrailsLine

/-- The longest line of comments at the start of a text, and the tokens behind it. -/
structure TrailingLine (text : Bytes) (line rest : List Token) : Prop where
  trails : TrailsLine line
  longest : ∀ other, TrailsLine other → other <+: line ++ rest → other <+: line
  starts : (line.map Token.onLine).flatten <+: text

namespace TrailingLine

variable {text : Bytes} {line rest : List Token}

theorem stop (hstop : ∀ other, TrailsLine other → other <+: rest → other = []) :
    TrailingLine text [] rest where
  trails := .nil
  longest other hother hlead := List.prefix_nil.mpr (hstop other hother hlead)
  starts := List.nil_prefix

theorem longest_cons (hline : TrailingLine text line rest) (token : Token) :
    ∀ other, TrailsLine other → other <+: token :: line ++ rest → other <+: token :: line := by
  intro other hother hlead
  cases other with
  | nil => exact List.nil_prefix
  | cons first other =>
      obtain ⟨rfl, hbehind⟩ := List.cons_prefix_cons.mp hlead
      exact List.cons_prefix_cons.mpr ⟨rfl, hline.longest other hother.tail hbehind⟩

theorem cons (hline : TrailingLine text line rest) {token : Token}
    (htrails : TrailsLine (token :: line)) (htext : token.onLine = token.text) :
    TrailingLine (token.text ++ text) (token :: line) rest where
  trails := htrails
  longest := hline.longest_cons token
  starts := by
    rw [List.map_cons, List.flatten_cons, htext]
    exact (List.prefix_append_right_inj _).mpr hline.starts

theorem blank (hline : TrailingLine text [] rest) (b : UInt8) :
    TrailingLine (b :: text) [] (.code b :: rest) := by
  apply stop
  intro other hother hlead
  cases hother with
  | nil => rfl
  | blank _ hne hother =>
      obtain ⟨-, hbehind⟩ := List.cons_prefix_cons.mp hlead
      exact absurd (List.prefix_nil.mp (hline.longest _ hother hbehind)) hne
  | comment hcomment =>
      obtain ⟨rfl, -⟩ := List.cons_prefix_cons.mp hlead
      cases hcomment

theorem lineComment {comment : Bytes} (hrest : TrailingLine text [] rest) :
    TrailingLine (comment ++ text) [.lineComment comment] rest where
  trails := .comment rfl .nil
  longest := hrest.longest_cons _
  starts := by
    rw [List.map_singleton, List.flatten_singleton, Token.onLine]
    split
    · have hshorter := List.dropLast_prefix comment
      exact hshorter.trans (List.prefix_append ..)
    · exact List.prefix_append ..

end TrailingLine

theorem Token.StandsBefore.eq_lineFeed {token : Token} {rest : Bytes}
    (htoken : token.StandsBefore rest) (hhead : token.text.head? = some lineFeed) :
    token = .code lineFeed := by
  cases htoken with
  | literal hquote =>
      obtain rfl := Option.some.inj hhead
      cases hquote
  | openLiteral hquote =>
      obtain rfl := Option.some.inj hhead
      cases hquote
  | lineComment => cases hhead
  | blockComment => cases hhead
  | openComment => cases hhead
  | code => rw [Option.some.inj hhead]

theorem TrailingLine.of_lineEnd {text : Bytes} {items : List Token}
    (htokenizes : Tokenizes text items) (hend : text = [] ∨ text.head? = some lineFeed) :
    TrailingLine text [] items := by
  apply stop
  intro other hother hlead
  cases htokenizes with
  | nil => exact List.prefix_nil.mp hlead
  | @cons token rest items htoken _ =>
      have hne := htoken.text_ne
      have hhead : token.text.head? = some lineFeed := by
        rcases hend with hnil | hhead
        · exact absurd (List.append_eq_nil_iff.mp hnil).1 hne
        · rwa [List.head?_append_of_ne_nil _ hne] at hhead
      obtain rfl := htoken.eq_lineFeed hhead
      exact hother.eq_nil_of_starts hlead (by decide)

def lineStop (offset lineEnd : Nat) (line : List Token) : Nat :=
  if line.isEmpty then lineEnd else offset + (line.map Token.onLine).flatten.length

theorem lineStop_cons (offset lineEnd : Nat) (token : Token) (line : List Token) :
    lineStop offset lineEnd (token :: line) =
      offset + token.onLine.length + (line.map Token.onLine).flatten.length := by
  rw [lineStop, if_neg (by simp), List.map_cons, List.flatten_cons, List.length_append,
    Nat.add_assoc]

theorem lineStop_of_ne {line : List Token} (hne : line ≠ []) (offset lineEnd : Nat) :
    lineStop offset lineEnd line = offset + (line.map Token.onLine).flatten.length :=
  if_neg (by simpa using hne)

theorem lineStop_self (offset : Nat) (line : List Token) :
    lineStop offset offset line = offset + (line.map Token.onLine).flatten.length := by
  cases line with
  | nil => rfl
  | cons token line => exact lineStop_of_ne (List.cons_ne_nil _ _) _ _

/-- Among white space and comments the trailing comments make up the longest such line. -/
theorem exists_trailingLine {text : Bytes} {items : List Token} (htokenizes : Tokenizes text items)
    (hquiet : ∀ token ∈ items, token.codeByte? = none) (offset lineEnd : Nat) :
    ∃ line rest, items = line ++ rest ∧ TrailingLine text line rest ∧
      trailingComments offset lineEnd items = lineStop offset lineEnd line := by
  induction htokenizes generalizing offset lineEnd with
  | nil => exact ⟨[], [], rfl, .stop fun _ _ => List.prefix_nil.mp, rfl⟩
  | @cons token rest items htoken htokenizes ih =>
      have hrest := fun other hother => hquiet other (List.mem_cons_of_mem _ hother)
      cases token with
      | literal =>
          obtain hcomment | hblank := htoken.quiet_iff.mp (hquiet _ List.mem_cons_self)
          · cases hcomment
          · cases hblank
      | lineComment comment =>
          have hpos : 0 < comment.length := List.length_pos_iff.mpr htoken.text_ne
          have hend : TrailingLine rest [] items := by
            cases htoken with
            | lineComment _ hend => exact .of_lineEnd htokenizes hend
          refine ⟨[.lineComment comment], items, rfl, hend.lineComment, ?_⟩
          rw [trailingComments, lineStop_cons, Token.onLine]
          simp only [beq_iff_eq]
          split
          · rw [List.length_dropLast]
            exact Nat.add_sub_assoc hpos offset
          · rfl
      | blockComment comment =>
          obtain ⟨line, after, rfl, hline, hstop⟩ :=
            ih hrest (offset + comment.length) (offset + comment.length)
          refine ⟨.blockComment comment :: line, after, rfl,
            hline.cons (.comment rfl hline.trails) rfl, ?_⟩
          rw [trailingComments, hstop, lineStop_self, lineStop_cons]
          rfl
      | code b =>
          rw [trailingComments]
          by_cases hblank : b = space ∨ b = tab
          · obtain ⟨line, after, rfl, hline, hstop⟩ := ih hrest (offset + 1) lineEnd
            rw [if_pos (by simpa using hblank), hstop]
            by_cases hne : line = []
            · subst hne
              exact ⟨[], .code b :: after, rfl, hline.blank b, rfl⟩
            · refine ⟨.code b :: line, after, rfl, hline.cons (.blank hblank hne hline.trails) rfl,
                ?_⟩
              rw [lineStop_of_ne hne, lineStop_cons]
              rfl
          · rw [if_neg (by simpa using hblank)]
            exact ⟨[], .code b :: items, rfl,
              .stop fun other hother hlead => hother.eq_nil_of_starts hlead hblank, rfl⟩

/-- The anchor stands behind the last code and the longest line of comments that trails it. -/
theorem exists_stands {text : Bytes} {body : Span} {items : List Token} {anchor : Anchor}
    (hle : body.start ≤ body.stop) (hlength : body.stop ≤ text.length)
    (htokenizes : Tokenizes (text.slice body) items) (h : propertyAnchor text body = some anchor) :
    ∃ before last line rest, items = before ++ last :: (line ++ rest) ∧
      anchor.Stands text body before last line rest := by
  obtain ⟨-, hafterCode, hlineEnd, -⟩ := propertyAnchor_bounds hle hlength h
  obtain ⟨⟨afterCode, byte, behind⟩, hlast, hanchor⟩ := Option.map_eq_some_iff.mp h
  obtain rfl : Anchor.mk afterCode byte (trailingComments afterCode afterCode behind) = anchor :=
    hanchor
  obtain ⟨before, last, htokens, hbyte, hstop, hquiet⟩ := exists_of_lastCode? hlast
  have hitems := (tokenizes_iff.mp htokenizes).trans htokens
  obtain ⟨code, trail, hslice, rfl, htrail⟩ :=
    exists_append_of_tokens (htokens.trans (List.append_cons before last behind))
  have htrailing := tokenizes_iff.mpr htrail.symm
  obtain ⟨line, rest, rfl, hline, hend⟩ :=
    exists_trailingLine htrailing hquiet afterCode afterCode
  have hbehind : (line.map Token.onLine).flatten <+: text.drop afterCode := by
    have hdrop := text.slice_append_drop hle
    rw [hslice, List.append_assoc] at hdrop
    rw [hstop, drop_of_drop_eq hdrop.symm]
    exact hline.starts.trans (List.prefix_append ..)
  obtain ⟨after, hstands⟩ := htokenizes.exists_standsBefore
    (hitems ▸ List.mem_append_right before List.mem_cons_self)
  refine ⟨before, last, line, rest, hitems, ?_⟩
  exact
    { ends_code := hstands.endsCode hbyte
      quiet := htrailing.quiet_iff.mp hquiet
      afterCode_eq := hstop
      afterCode_le := hafterCode
      lineEnd_le := hlineEnd
      trails := hline.trails
      line_eq := by
        rw [hend, lineStop_self]
        exact slice_of_prefix_drop hbehind
      longest := hline.longest }

theorem exists_tokenizes (text : Bytes) : ∃! items, Tokenizes text items :=
  ⟨tokens text, tokenizes_iff.mpr rfl, fun _ hitems => tokenizes_iff.mp hitems⟩

/-- In every range of a string's characters the cursor, which never leaves the string, finds the
end of the code. -/
theorem propertyAnchor_stands {source : String} {body : Span} (hbody : body.fits (utf8 source)) :
    AnchorCursor.anchor? (utf8 source) body = some (propertyAnchor (utf8 source) body) ∧
      (∃! items, Tokenizes ((utf8 source).slice body) items) ∧
      ∀ items, Tokenizes ((utf8 source).slice body) items →
        (propertyAnchor (utf8 source) body = none ↔
          ∀ token ∈ items, token.isComment = true ∨ token.isBlank = true) ∧
        ∀ anchor, propertyAnchor (utf8 source) body = some anchor →
          (∃ before last line rest, items = before ++ last :: (line ++ rest) ∧
            anchor.Stands (utf8 source) body before last line rest) ∧
          IsCharOffset source anchor.afterCode ∧ IsCharOffset source anchor.lineEnd := by
  simp only [Span.fits, Bool.and_eq_true, decide_eq_true_eq] at hbody
  obtain ⟨⟨hle, -⟩, hstop⟩ := hbody
  have hlength := le_length_of_isBoundary hstop
  refine ⟨AnchorCursor.anchor?_eq hlength, exists_tokenizes _, ?_⟩
  intro items htokenizes
  refine ⟨propertyAnchor_eq_none_iff htokenizes, ?_⟩
  intro anchor h
  obtain ⟨-, -, -, hboundaries⟩ := propertyAnchor_bounds hle hlength h
  obtain ⟨hafterCode, hlineEnd⟩ := hboundaries hstop
  exact ⟨exists_stands hle hlength htokenizes h, isBoundary_utf8_iff.mp hafterCode,
    isBoundary_utf8_iff.mp hlineEnd⟩

/-- A body that ends between the carriage return and the line feed of a line comment, which follows
two block comments, the first of them with a line break of its own. -/
theorem propertyAnchor_stands_comments :
    let source := "é\x7b a: '\\'//' /* é\n */\t/**/ // z\r\n, \x7d"
    let body : Span := ⟨3, 34⟩
    let anchor : Anchor := ⟨13, apostrophe, 33⟩
    body.fits (utf8 source) = true ∧
      AnchorCursor.anchor? (utf8 source) body = some (some anchor) ∧
      (∃ before last line rest,
        tokens ((utf8 source).slice body) = before ++ last :: (line ++ rest) ∧
          anchor.Stands (utf8 source) body before last line rest) ∧
      IsCharOffset source 13 ∧ IsCharOffset source 33 := by
  intro source body anchor
  have hbody : body.fits (utf8 source) = true := by decide +kernel
  have hanchor : propertyAnchor (utf8 source) body = some anchor := by decide +kernel
  obtain ⟨hcursor, -, hplace⟩ := propertyAnchor_stands hbody
  obtain ⟨-, hstands⟩ := hplace _ (tokenizes_iff.mpr rfl)
  obtain ⟨htokens, hafterCode, hlineEnd⟩ := hstands anchor hanchor
  exact ⟨hbody, hanchor ▸ hcursor, htokens, hafterCode, hlineEnd⟩

end Extraction
