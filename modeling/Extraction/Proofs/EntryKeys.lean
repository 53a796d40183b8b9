import Extraction.Proofs.AnchorPieces
import Extraction.Proofs.Anchors
import Extraction.Proofs.TrueBlock
/-!
What stands before the key of the list that the scan by depth finds. An entry of the object begins
behind its brace or behind a comma at depth one, and the scan looks for neither: it only takes
care that the key is not the end of an identifier. So the list is taken from the value of another
property where a text like the key stands in one, at depth one and before the object's own key.
-/

namespace Extraction

open Byte CodeView

theorem codeView_eq_flatten (text : Bytes) :
    codeView text = ((tokens text).map Token.view).flatten := by
  generalize htokens : tokens text = items
  induction items generalizing text with
  | nil => rw [eq_nil_of_tokens_eq_nil htokens]; rfl
  | cons token items ih =>
      obtain ⟨rest, rfl, -, hrest, hview, -, -⟩ := exists_rest_of_tokens_cons htokens
      rw [hview, ih rest hrest, List.map_cons, List.flatten_cons]

theorem length_flatten_view (items : List Token) :
    (items.map Token.view).flatten.length = (items.map Token.text).flatten.length := by
  induction items with
  | nil => rfl
  | cons token items ih =>
      simp only [List.map_cons, List.flatten_cons, List.length_append, ih, Token.length_view,
        Token.width]

theorem quiet_of_tokens {items : List Token} (hquiet : ∀ token ∈ items, token.codeByte? = none) :
    Quiet (items.map Token.view).flatten := by
  induction items with
  | nil => exact .nil
  | cons token items ih =>
      rw [List.forall_mem_cons] at hquiet
      exact (Token.quiet_view hquiet.1).append (ih hquiet.2)

theorem isQuote_of_step {b quote : UInt8} {next : Option UInt8}
    (hstep : Mode.code.step b next = .literal quote) : isQuote b = true := by
  rw [← Bool.not_eq_false]
  intro hquote
  rw [Mode.step, hquote] at hstep
  grind

theorem isQuote_of_literal {text content : Bytes} {b : UInt8}
    (hmem : Token.literal (b :: content) ∈ tokens text) : isQuote b = true := by
  generalize htokens : tokens text = items at hmem
  induction items generalizing text with
  | nil => cases hmem
  | cons token items ih =>
      obtain ⟨rest, rfl, -, hrest, -⟩ := exists_rest_of_tokens_cons htokens
      rcases List.mem_cons.mp hmem with rfl | hmem
      · rw [tokens, Token.text, List.cons_append, Mode.tokens_cons] at htokens
        generalize hstep : Mode.code.step b _ = step at htokens
        cases step with
        | literal quote => exact isQuote_of_step hstep
        | _ => cases (List.cons.inj htokens).1
      · exact ih hrest hmem

/-- The last token before an offset, comments and white space skipped: it ends at `last`, and
`byte` is its first byte. -/
def LastToken (text : Bytes) (offset last : Nat) (byte : UInt8) : Prop :=
  ∃ rest, lastCode? 0 (tokens (text.take offset)) = some (last + 1, byte, rest)

namespace LastToken

variable {text : Bytes} {offset last : Nat} {byte : UInt8}

theorem unique (h : LastToken text offset last byte) {last' : Nat} {byte' : UInt8}
    (h' : LastToken text offset last' byte') : last = last' ∧ byte = byte' := by
  obtain ⟨rest, hlast⟩ := h
  obtain ⟨rest', hlast'⟩ := h'
  rw [hlast, Option.some.injEq, Prod.mk.injEq, Prod.mk.injEq] at hlast'
  exact ⟨Nat.succ.inj hlast'.1, hlast'.2.1⟩

theorem exists_view (h : LastToken text offset last byte) :
    ∃ left shown quiet, codeView (text.take offset) = left ++ shown :: quiet ∧
      left.length = last ∧ Quiet quiet ∧
        (shown = some byte ∨ shown = none ∧ isQuote byte = true) := by
  obtain ⟨rest, hlast⟩ := h
  obtain ⟨before, token, htokens, hbyte, hstop, hquiet⟩ := exists_of_lastCode? hlast
  have hview : codeView (text.take offset) =
      (before.map Token.view).flatten ++ (token.view ++ (rest.map Token.view).flatten) := by
    rw [codeView_eq_flatten, htokens]
    simp
  have hlength : last + 1 = (before.map Token.view).flatten.length + token.view.length := by
    rw [length_flatten_view, Token.length_view, hstop]
    simp [Token.width]
  cases token with
  | code b =>
      simp only [Token.codeByte?] at hbyte
      split at hbyte
      · cases hbyte
      · exact ⟨_, _, _, hview, (Nat.succ.inj hlength).symm, quiet_of_tokens hquiet, .inl hbyte⟩
  | literal content =>
      obtain ⟨content, rfl⟩ := List.head?_eq_some_iff.mp hbyte
      have hquote := isQuote_of_literal (htokens ▸ List.mem_append_right _ List.mem_cons_self)
      refine ⟨(before.map Token.view).flatten ++ List.replicate content.length none, none,
        (rest.map Token.view).flatten, ?_, ?_, quiet_of_tokens hquiet, .inr ⟨rfl, hquote⟩⟩
      · rw [hview, Token.view, List.length_cons, List.replicate_succ']
        simp
      · rw [Token.view, List.length_replicate, List.length_cons] at hlength
        rw [List.length_append, List.length_replicate]
        omega
  | lineComment => cases hbyte
  | blockComment => cases hbyte

end LastToken

/-- In front of code that is not white space there is a last token. -/
theorem exists_lastToken {text : Bytes} {offset : Nat}
    (hcode : ¬ Quiet (codeView (text.take offset))) :
    ∃ last byte, LastToken text offset last byte := by
  cases hlast : lastCode? 0 (tokens (text.take offset)) with
  | none =>
      rw [codeView_eq_flatten] at hcode
      exact absurd (quiet_of_tokens (codeByte?_eq_none_of_lastCode? hlast)) hcode
  | some found =>
      obtain ⟨stop, byte, rest⟩ := found
      obtain ⟨before, token, -, hbyte, hstop, -⟩ := exists_of_lastCode? hlast
      have hpos : 0 < token.text.length := by
        cases token with
        | code => simp [Token.text]
        | literal content =>
            obtain ⟨content, rfl⟩ := List.head?_eq_some_iff.mp hbyte
            simp [Token.text]
        | lineComment => cases hbyte
        | blockComment => cases hbyte
      obtain ⟨last, rfl⟩ : ∃ last, stop = last + 1 := by
        refine Nat.exists_eq_add_one.mpr ?_
        simp at hstop
        omega
      exact ⟨last, byte, rest, hlast⟩

theorem CodeAt.take_codeView {text : Bytes} {offset : Nat} {b : UInt8} (h : CodeAt text offset b)
    (hline : b ≠ lineFeed) : (codeView text).take offset = codeView (text.take offset) := by
  obtain ⟨first, second, rfl, rfl, hmode⟩ := h.exists_split
  rw [codeView_append_of_after (hmode.resolve_right hline), List.take_left,
    List.take_left' (length_codeView first)]

namespace Balanced

/-- An entry of the object with a brace at `brace` begins at an offset: the last token before it
is that brace, or a comma that no bracket encloses. -/
def StartsEntry (text : Bytes) (brace offset : Nat) : Prop :=
  ∃ last byte, LastToken text offset last byte ∧ CodeAt text last byte ∧
    (last = brace ∨ byte = comma ∧ brace < last ∧ ¬ Enclosed text brace last)

/-- An offset inside the value of a property: the last token before it stands behind the brace,
outside of all brackets, and is neither a comma nor an opening bracket. -/
def InValue (text : Bytes) (brace offset : Nat) : Prop :=
  ∃ last byte, LastToken text offset last byte ∧ brace < last ∧ ¬ Enclosed text brace last ∧
    byte ≠ comma ∧ isOpener byte = false

theorem InValue.not_startsEntry {text : Bytes} {brace offset : Nat}
    (h : InValue text brace offset) : ¬ StartsEntry text brace offset := by
  obtain ⟨last, byte, htoken, hlt, -, hcomma, -⟩ := h
  rintro ⟨last', byte', htoken', -, hentry⟩
  obtain ⟨rfl, rfl⟩ := htoken.unique htoken'
  rcases hentry with rfl | ⟨rfl, -⟩
  · exact Nat.lt_irrefl _ hlt
  · exact hcomma rfl

theorem KeyAt.codeAt {text : Bytes} {brace close key bracket : Nat}
    (hkey : KeyAt text brace close key bracket) : CodeAt text key 0x69 := by
  obtain ⟨b, hcode⟩ := hkey.code
  obtain ⟨before, after, -, -, ⟨more, hmore⟩, -⟩ := hkey.opening
  obtain ⟨first, second, rfl, rfl, -⟩ := hcode.exists_split
  rw [List.drop_left] at hmore
  obtain ⟨rfl, -⟩ := List.cons.inj hmore
  exact hcode

/-- Only white space and comments stand between the last token and a key, so no bracket that
encloses the token could be closed before the key. -/
theorem KeyAt.not_enclosed {text : Bytes} {brace close key bracket : Nat}
    (hkey : KeyAt text brace close key bracket) {left quiet : CodeView} {shown : Option UInt8}
    (hview : (codeView text).take key = left ++ shown :: quiet) (hquiet : Quiet quiet)
    (hlast : left.length < key) : ¬ Enclosed text brace left.length := by
  rintro ⟨first, second, opener, closer, hfirst, hbefore, hbehind, hopener, hcloser, hpairs, hinner⟩
  have hcloses := (not_isOpener_of_pairs hpairs).2.2
  rcases Nat.lt_trichotomy second key with hlt | rfl | hgt
  · have hshown : (left ++ shown :: quiet)[second]? = some (some closer) := by
      rw [← hview, List.getElem?_take_of_lt hlt]
      exact hcloser
    have hmem : some closer ∈ quiet := by
      rw [List.append_cons, List.getElem?_append_right (by simp; omega)] at hshown
      exact List.mem_of_getElem? hshown
    have hbracket := not_isBracket_of_isAsciiBlank (hquiet _ hmem)
    rw [hbracket.2] at hcloses
    cases hcloses
  · have hsame := hkey.codeAt.symm.trans hcloser
    obtain rfl := Option.some.inj (Option.some.inj hsame)
    cases hcloses
  · exact hkey.unenclosed ⟨first, second, opener, closer, hfirst, by omega, hgt, hopener, hcloser,
      hpairs, hinner⟩

theorem KeyAt.exists_take {text : Bytes} {lead body rest : CodeView}
    (hview : codeView text = lead ++ some openBrace :: (body ++ some closeBrace :: rest))
    (hnested : Nested body) {key bracket : Nat}
    (hkey : KeyAt text lead.length (lead.length + 1 + body.length) key bracket) :
    ∃ left, (codeView text).take key = lead ++ some openBrace :: left ∧
      blockDepth? 0 left = some 0 := by
  obtain ⟨left, before, after, right, rfl, -, -, hdepth, -, rfl, -⟩ :=
    (keyAt_iff hview hnested).mp hkey
  have hsplit : codeView text = (lead ++ some openBrace :: left) ++
      ((keyText before after).map some ++ (right ++ some closeBrace :: rest)) := by
    simp [hview]
  refine ⟨left, ?_, hdepth⟩
  rw [hsplit, ← CodeView.length_append_cons lead left (some openBrace), List.take_left]

theorem brace_or_behind {lead left front quiet : CodeView} {shown : Option UInt8}
    (hsplit : lead ++ some openBrace :: left = front ++ shown :: quiet) (hquiet : Quiet quiet) :
    front = lead ∧ shown = some openBrace ∨
      ∃ middle, front = lead ++ some openBrace :: middle ∧ left = middle ++ shown :: quiet := by
  rcases List.append_eq_append_iff.mp hsplit with ⟨middle, rfl, hmiddle⟩ | ⟨middle, rfl, hmiddle⟩
  · cases middle with
    | nil => exact .inl ⟨List.append_nil _, (List.cons.inj hmiddle).1.symm⟩
    | cons code middle =>
        obtain ⟨rfl, rfl⟩ := List.cons.inj hmiddle
        exact .inr ⟨middle, rfl, rfl⟩
  · cases middle with
    | nil => exact .inl ⟨(List.append_nil _).symm, (List.cons.inj hmiddle).1⟩
    | cons code middle =>
        obtain ⟨rfl, rfl⟩ := List.cons.inj hmiddle
        cases hquiet openBrace (by simp)

theorem not_isOpener_of_isQuote {b : UInt8} (hquote : isQuote b = true) : isOpener b = false := by
  simp only [isQuote, Bool.or_eq_true, beq_iff_eq] at hquote
  rcases hquote with (rfl | rfl) | rfl <;> decide

theorem KeyAt.startsEntry_or_inValue {text : Bytes} {lead body rest : CodeView}
    (hview : codeView text = lead ++ some openBrace :: (body ++ some closeBrace :: rest))
    (hnested : Nested body) {key bracket : Nat}
    (hkey : KeyAt text lead.length (lead.length + 1 + body.length) key bracket) :
    StartsEntry text lead.length key ∨ InValue text lead.length key := by
  obtain ⟨left, htake, hdepth⟩ := hkey.exists_take hview hnested
  have hprefix := hkey.codeAt.take_codeView (by decide)
  have hloud : ¬ Quiet (codeView (text.take key)) := by
    rw [← hprefix, htake]
    intro hquiet
    cases hquiet openBrace (by simp)
  obtain ⟨last, byte, htoken⟩ := exists_lastToken hloud
  obtain ⟨front, shown, quiet, hfront, rfl, hquiet, hshown⟩ := htoken.exists_view
  rw [← hprefix] at hfront
  have hlt : front.length < key := by
    have hlength := congrArg List.length hfront
    rw [List.length_take, List.length_append, List.length_cons] at hlength
    omega
  have hcode : shown = some byte → CodeAt text front.length byte := by
    rintro rfl
    rw [CodeAt, ← List.getElem?_take_of_lt hlt, hfront]
    simp
  have hunenclosed := hkey.not_enclosed hfront hquiet hlt
  rcases brace_or_behind (htake.symm.trans hfront) hquiet with ⟨rfl, hbrace⟩ | ⟨middle, rfl, rfl⟩
  · left
    obtain hshown | ⟨hhidden, -⟩ := hshown
    · exact ⟨_, _, htoken, hcode hshown, .inl rfl⟩
    · cases hhidden.symm.trans hbrace
  · have hbehind : lead.length < (lead ++ some openBrace :: middle).length := by simp
    by_cases hcomma : byte = comma
    · subst hcomma
      left
      refine ⟨_, _, htoken, hcode (hshown.resolve_right ?_), .inr ⟨rfl, hbehind, hunenclosed⟩⟩
      rintro ⟨-, hquote⟩
      cases hquote
    · right
      refine ⟨_, _, htoken, hbehind, hunenclosed, hcomma, ?_⟩
      rcases hshown with rfl | ⟨-, hquote⟩
      · rw [← Bool.not_eq_true]
        intro hopener
        exact Nat.lt_irrefl 0 (depth_pos_of_opener hopener (hquiet.blockDepth?_eq 0) hdepth)
      · exact not_isOpener_of_isQuote hquote

theorem exists_view_of_scan {text : Bytes} {declaration : Declaration}
    (hscan : scan text = some declaration) :
    ∃ lead blank body rest, MarkerFree lead ∧ IsBlank blank ∧
      codeView text = blockView lead blank body rest ∧
      declaration.block = blockAt lead blank body rest := by
  have hlayout := layout_of_scanView hscan
  generalize codeView text = view at hlayout ⊢
  cases hlayout with
  | bare hlead hblank _ => exact ⟨_, _, _, _, hlead, hblank, rfl, rfl⟩
  | listed hlead hblank _ => exact ⟨_, _, _, _, hlead, hblank, rfl, rfl⟩

theorem exists_firstList_of_scan {text : Bytes} {block : Block} {list : Option ListProperty}
    (hscan : scan text = some ⟨block, list⟩)
    (hnested : Nested ((codeView text).between block.openBrace block.closeBrace)) :
    ∃ lead body rest,
      codeView text = lead ++ some openBrace :: (body ++ some closeBrace :: rest) ∧
      block.openBrace = lead.length ∧ block.closeBrace = lead.length + 1 + body.length ∧
      Nested body ∧ FirstList text block.openBrace block.closeBrace list := by
  obtain ⟨lead, blank, body, rest, hlead, hblank, hview, rfl⟩ := exists_view_of_scan hscan
  have hbrace : codeView text = (lead ++ (marker ++ blank).map some) ++ some openBrace ::
      (body ++ some closeBrace :: rest) := by
    rw [hview]
    simp [blockView, openingText]
  have hopen : (blockAt lead blank body rest).openBrace =
      (lead ++ (marker ++ blank).map some).length := by
    simp [blockAt]
    omega
  have hclose : (blockAt lead blank body rest).closeBrace =
      (lead ++ (marker ++ blank).map some).length + 1 + body.length := by
    rw [← hopen]
    rfl
  rw [hopen, hclose] at hnested ⊢
  rw [hbrace, between_append] at hnested
  refine ⟨_, body, rest, hbrace, rfl, rfl, hnested, ?_⟩
  -- With nested brackets the layout is the one of the least key, and the scan gives no other.
  rw [scan, hview] at hscan
  rcases bare_or_listed hnested with hbare |
      ⟨left, before, after, contents, right, rfl, hlisted, hcontents⟩
  · rw [scanView_bare hlead hblank hbare] at hscan
    cases hscan
    exact firstList_bare hbrace hnested hbare
  · rw [scanView_listed hlead hblank hlisted] at hscan
    cases hscan
    have hlist := firstList_listed hbrace hnested hlisted hcontents
    rw [← hopen] at hlist ⊢
    exact hlist

/-- The list that is found is the first key outside of all brackets of the body. It is an entry of
the object exactly if each key there has an entry's key at or before it, and is taken from the
value of another property otherwise. -/
theorem list_startsEntry_iff {text : Bytes} {block : Block} {list : ListProperty}
    (hscan : scan text = some ⟨block, some list⟩)
    (hnested : Nested ((codeView text).between block.openBrace block.closeBrace)) :
    FirstList text block.openBrace block.closeBrace (some list) ∧
      (StartsEntry text block.openBrace list.start ↔
        ∀ key bracket, KeyAt text block.openBrace block.closeBrace key bracket →
          ∃ entry ≤ key, (∃ bracket, KeyAt text block.openBrace block.closeBrace entry bracket) ∧
            StartsEntry text block.openBrace entry) ∧
      (InValue text block.openBrace list.start ↔
        ¬ StartsEntry text block.openBrace list.start) := by
  obtain ⟨lead, body, rest, hview, hopen, hclose, hbody, hfirst⟩ :=
    exists_firstList_of_scan hscan hnested
  have hlist := hfirst
  obtain ⟨bracket, hkey, hleast, -⟩ := hlist
  refine ⟨hfirst, ⟨?_, ?_⟩, InValue.not_startsEntry, ?_⟩
  · intro hentry key bracket' hkey'
    exact ⟨list.start, hleast key bracket' hkey', ⟨bracket, hkey⟩, hentry⟩
  · intro hentries
    obtain ⟨entry, hle, ⟨bracket', hkey'⟩, hentry⟩ := hentries _ _ hkey
    rwa [Nat.le_antisymm (hleast entry bracket' hkey') hle]
  · rw [hopen, hclose] at hkey
    rw [hopen]
    exact (hkey.startsEntry_or_inValue hview hbody).resolve_left

/-- The branch of a conditional is taken for the list; a key behind a comma and a comment is an
entry. -/
theorem list_startsEntry_iff_conditional :
    let conditional := utf8 "@Component(\x7b providers: dev ? imports : [A], selector: 'x' \x7d)"
    let entry := utf8 "@Component(\x7b a: [b, c], /* d */ imports: [A] \x7d)"
    (∃ list, scan conditional = some ⟨⟨0, 61, 11, 59⟩, some list⟩ ∧
      InValue conditional 11 list.start) ∧
    ∃ list, scan entry = some ⟨⟨0, 47, 11, 45⟩, some list⟩ ∧ StartsEntry entry 11 list.start := by
  intro conditional entry
  have hconditional : scan conditional =
      some ⟨⟨0, 61, 11, 59⟩, some ⟨30, 43, ⟨41, 42⟩⟩⟩ := by decide +kernel
  have hentry : scan entry = some ⟨⟨0, 47, 11, 45⟩, some ⟨32, 44, ⟨42, 43⟩⟩⟩ := by decide +kernel
  obtain ⟨-, -, hvalue⟩ := list_startsEntry_iff hconditional (by decide +kernel)
  obtain ⟨-, -, hother⟩ := list_startsEntry_iff hentry (by decide +kernel)
  refine ⟨⟨_, hconditional, hvalue.mpr ?_⟩, _, hentry, ?_⟩
  · have hmark : LastToken conditional 30 28 0x3F := ⟨[.code 0x20], by decide +kernel⟩
    rintro ⟨last, byte, htoken, -, hlast⟩
    obtain ⟨rfl, rfl⟩ := hmark.unique htoken
    rcases hlast with hbrace | ⟨hcomma, -⟩
    · cases hbrace
    · cases hcomma
  · have hmark : LastToken entry 32 22 comma :=
      ⟨[.code 0x20, .blockComment (utf8 "/* d */"), .code 0x20], by decide +kernel⟩
    by_contra hnone
    obtain ⟨last, byte, htoken, -, -, hcomma, -⟩ := hother.mpr hnone
    exact hcomma (hmark.unique htoken).2.symm

end Balanced

end Extraction
