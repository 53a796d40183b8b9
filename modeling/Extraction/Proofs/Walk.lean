import Extraction.Proofs.Nesting
import Extraction.Source.Balanced
/-!
The walk through a block, in one lemma for each stretch of the view that it passes: text at some
depth without a key, a key with its bracket, and the contents of a list.
-/

namespace Extraction.Balanced

open Byte CodeView

/-! What the patterns of the scan match, as text. -/

def IsBlank (text : Bytes) : Prop :=
  text.all isAsciiBlank = true

instance (text : Bytes) : Decidable (IsBlank text) :=
  inferInstanceAs (Decidable (_ = _))

def openingText (blank : Bytes) : Bytes :=
  marker ++ blank ++ [openBrace]

def keyText (before after : Bytes) : Bytes :=
  listKey ++ before ++ colon :: (after ++ [openBracket])

@[simp] theorem length_openingText (blank : Bytes) :
    (openingText blank).length = marker.length + blank.length + 1 := by
  simp [openingText, Nat.add_assoc]

@[simp] theorem length_keyText (before after : Bytes) :
    (keyText before after).length = listKey.length + before.length + after.length + 2 := by
  simp [keyText]
  omega

theorem blankWidth_append {blank : Bytes} {code : Option UInt8} {rest : CodeView}
    (hblank : IsBlank blank) (hcode : code.any isAsciiBlank = false) :
    blankWidth (blank.map some ++ code :: rest) = blank.length := by
  have hall : ∀ c ∈ blank.map some, (c.any isAsciiBlank) = true := by
    simpa [IsBlank] using hblank
  rw [blankWidth, List.takeWhile_append_of_pos hall]
  simp [hcode]

theorem exists_of_blankWidth (view : CodeView) :
    ∃ blank, IsBlank blank ∧ blank.length = blankWidth view ∧
      view = blank.map some ++ view.drop (blankWidth view) := by
  induction view with
  | nil => exact ⟨[], rfl, rfl, rfl⟩
  | cons code rest ih =>
      obtain ⟨blank, hblank, hlength, hrest⟩ := ih
      cases hcode : code.any isAsciiBlank with
      | false => exact ⟨[], rfl, by simp [blankWidth, hcode], by simp [blankWidth, hcode]⟩
      | true =>
          cases code with
          | none => cases hcode
          | some b =>
              have hwidth : blankWidth (some b :: rest) = blankWidth rest + 1 := by
                simp only [blankWidth, List.takeWhile_cons_of_pos hcode, List.length_cons]
              refine ⟨b :: blank, ?_, ?_, ?_⟩
              · simp [IsBlank] at hblank ⊢
                exact ⟨hcode, hblank⟩
              · rw [hwidth, List.length_cons, hlength]
              · rw [hwidth, List.drop_succ_cons, List.map_cons, List.cons_append, ← hrest]

theorem exists_of_getElem?_blankWidth {view : CodeView} {b : UInt8}
    (h : view[blankWidth view]? = some (some b)) :
    ∃ blank rest, IsBlank blank ∧ blank.length = blankWidth view ∧
      view = blank.map some ++ some b :: rest := by
  obtain ⟨blank, hblank, hlength, hview⟩ := exists_of_blankWidth view
  refine ⟨blank, view.drop (blankWidth view + 1), hblank, hlength, ?_⟩
  rwa [List.drop_eq_getElem?_toList_append, h] at hview

theorem separator?_eq_some_iff {byte : UInt8} {view : CodeView} {width : Nat}
    (hbyte : isAsciiBlank byte = false) :
    separator? byte view = some width ↔
      ∃ blank rest, IsBlank blank ∧
        view = blank.map some ++ some byte :: rest ∧ width = blank.length + 1 := by
  simp only [separator?, beq_iff_eq]
  constructor
  · intro h
    split at h
    · next hfound =>
        obtain ⟨blank, rest, hblank, hlength, hview⟩ := exists_of_getElem?_blankWidth hfound
        exact ⟨blank, rest, hblank, hview, by simpa [hlength] using h.symm⟩
    · contradiction
  · rintro ⟨blank, rest, hblank, rfl, rfl⟩
    rw [blankWidth_append hblank (by simpa using hbyte)]
    simp

theorem opening?_eq_some_iff {view : CodeView} {width : Nat} :
    opening? view = some width ↔
      ∃ blank rest, IsBlank blank ∧ view = (openingText blank).map some ++ rest ∧
        width = marker.length + blank.length := by
  have hdrop : ∀ rest : CodeView, (marker.map some ++ rest).drop marker.length = rest :=
    fun rest => List.drop_left' (List.length_map _)
  constructor
  · intro h
    simp only [opening?, List.isPrefixOf_iff_prefix] at h
    split at h
    · next hmarker =>
        obtain ⟨rest, rfl⟩ := hmarker
        rw [hdrop] at h
        split at h
        · next hbrace =>
            rw [List.getElem?_append_right (by simp), List.length_map,
              Nat.add_sub_cancel_left, beq_iff_eq] at hbrace
            obtain ⟨blank, after, hblank, hlength, rfl⟩ := exists_of_getElem?_blankWidth hbrace
            exact ⟨blank, after, hblank, by simp [openingText],
              by simpa [hlength] using h.symm⟩
        · contradiction
    · contradiction
  · rintro ⟨blank, rest, hblank, rfl, rfl⟩
    have hview : (openingText blank).map some ++ rest =
        marker.map some ++ (blank.map some ++ some openBrace :: rest) := by
      simp [openingText]
    rw [hview, opening?, if_pos (by simp [List.isPrefixOf_iff_prefix]), hdrop,
      blankWidth_append hblank (by decide)]
    simp

theorem eq_of_isAsciiBlank {b : UInt8} (h : isAsciiBlank b = true) :
    b = space ∨ b = tab ∨ b = lineFeed ∨ b = formFeed ∨ b = carriageReturn := by
  simpa only [isAsciiBlank, Bool.or_eq_true, beq_iff_eq, or_assoc] using h

theorem not_isIdent_of_isAsciiBlank {b : UInt8} (h : isAsciiBlank b = true) :
    isIdent b = false := by
  rcases eq_of_isAsciiBlank h with rfl | rfl | rfl | rfl | rfl <;> decide

theorem not_isBracket_of_isAsciiBlank {b : UInt8} (h : isAsciiBlank b = true) :
    isOpener b = false ∧ isCloser b = false := by
  rcases eq_of_isAsciiBlank h with rfl | rfl | rfl | rfl | rfl <;> decide

theorem not_isIdent_head?_separator {blank : Bytes} {rest : CodeView} (hblank : IsBlank blank) :
    (blank.map some ++ some colon :: rest).head?.join.any isIdent = false := by
  cases blank with
  | nil => rfl
  | cons b blank =>
      exact not_isIdent_of_isAsciiBlank ((List.all_eq_true.mp hblank) b List.mem_cons_self)

theorem separators_eq_some_iff {view : CodeView} {width : Nat} :
    (match separator? colon view with
      | some colonWidth =>
          (separator? openBracket (view.drop colonWidth)).map
            (listKey.length + colonWidth + · - 1)
      | none => none) = some width ↔
      ∃ before after rest, IsBlank before ∧ IsBlank after ∧
        view = before.map some ++ some colon :: (after.map some ++ some openBracket :: rest) ∧
        width + 1 = (keyText before after).length := by
  have hdrop : ∀ (before : Bytes) (rest : CodeView),
      (before.map some ++ some colon :: rest).drop (before.length + 1) = rest := by
    intro before rest
    rw [← List.drop_drop, List.drop_left' (List.length_map _)]
    rfl
  constructor
  · intro h
    split at h
    · next colonWidth hcolon =>
        obtain ⟨before, more, hbefore, rfl, rfl⟩ :=
          (separator?_eq_some_iff (by decide)).mp hcolon
        rw [hdrop, Option.map_eq_some_iff] at h
        obtain ⟨bracketWidth, hbracket, hwidth⟩ := h
        obtain ⟨after, rest, hafter, rfl, rfl⟩ :=
          (separator?_eq_some_iff (by decide)).mp hbracket
        refine ⟨before, after, rest, hbefore, hafter, rfl, ?_⟩
        simp [keyText]
        omega
    · contradiction
  · rintro ⟨before, after, rest, hbefore, hafter, rfl, hwidth⟩
    rw [(separator?_eq_some_iff (by decide)).mpr ⟨before, _, hbefore, rfl, rfl⟩]
    simp only [hdrop]
    rw [(separator?_eq_some_iff (by decide)).mpr ⟨after, _, hafter, rfl, rfl⟩]
    simp [keyText] at hwidth ⊢
    omega

theorem listOpening?_eq_some_iff {previous : Option UInt8} {view : CodeView} {width : Nat} :
    listOpening? previous view = some width ↔
      previous.any isIdent = false ∧ ∃ before after rest, IsBlank before ∧ IsBlank after ∧
        view = (keyText before after).map some ++ rest ∧
        width + 1 = (keyText before after).length := by
  have hdrop : ∀ rest : CodeView, (listKey.map some ++ rest).drop listKey.length = rest :=
    fun rest => List.drop_left' (List.length_map _)
  have hsplit : ∀ (before after : Bytes) (rest : CodeView),
      (keyText before after).map some ++ rest = listKey.map some ++
        (before.map some ++ some colon :: (after.map some ++ some openBracket :: rest)) := by
    intro before after rest
    simp [keyText]
  simp only [listOpening?]
  constructor
  · intro h
    split at h
    · contradiction
    · next hkey =>
        simp only [Bool.not_eq_true, Bool.or_eq_false_iff, Bool.not_eq_false',
          List.isPrefixOf_iff_prefix] at hkey
        obtain ⟨⟨hprevious, rest, rfl⟩, -⟩ := hkey
        rw [hdrop] at h
        obtain ⟨before, after, tail, hbefore, hafter, rfl, hwidth⟩ := separators_eq_some_iff.mp h
        exact ⟨hprevious, before, after, tail, hbefore, hafter, (hsplit _ _ _).symm, hwidth⟩
  · rintro ⟨hprevious, before, after, rest, hbefore, hafter, rfl, hwidth⟩
    rw [hsplit, hdrop, if_neg]
    · exact separators_eq_some_iff.mpr ⟨before, after, rest, hbefore, hafter, rfl, hwidth⟩
    · have hstarts : (listKey.map some).isPrefixOf (listKey.map some ++ (before.map some ++
          some colon :: (after.map some ++ some openBracket :: rest))) = true :=
        List.isPrefixOf_iff_prefix.mpr (List.prefix_append _ _)
      rw [hprevious, hstarts, not_isIdent_head?_separator hbefore]
      decide

/-! A match never runs over a byte that has no place in the pattern behind its first byte. -/

theorem prefix_of_prefix_append_cons {pattern left right : List α} {stop : α}
    (h : pattern <+: left ++ stop :: right) (hleft : left ≠ [])
    (hstop : stop ∉ pattern.tail) : pattern <+: left := by
  obtain ⟨tail, htail⟩ := h
  rcases List.append_eq_append_iff.mp htail with ⟨more, rfl, -⟩ | ⟨more, rfl, hmore⟩
  · exact List.prefix_append _ _
  · cases more with
    | nil => simp
    | cons code more =>
        obtain ⟨rfl, -⟩ := List.cons.inj hmore
        cases left with
        | nil => contradiction
        | cons first left => simp at hstop

/-- What ends every look-ahead for a key. -/
def StopsKey : Option UInt8 → Bool
  | none => true
  | some b => !(listKey.tail.contains b || isAsciiBlank b || b == colon || b == openBracket)

theorem not_mem_tail_keyText {stop : Option UInt8} (hstop : StopsKey stop = true)
    {before after : Bytes} (hbefore : IsBlank before) (hafter : IsBlank after) :
    stop ∉ ((keyText before after).map some).tail := by
  have htail : ((keyText before after).map some).tail =
      (listKey.tail ++ before ++ colon :: (after ++ [openBracket])).map some := rfl
  rw [htail, List.mem_map]
  rintro ⟨b, hb, rfl⟩
  simp only [StopsKey, Bool.not_eq_true', Bool.or_eq_false_iff, List.contains_eq_mem,
    decide_eq_false_iff_not, beq_eq_false_iff_ne] at hstop
  obtain ⟨⟨⟨hletter, hblank⟩, hcolon⟩, hbracket⟩ := hstop
  simp only [List.mem_append, List.mem_cons, List.not_mem_nil, or_false] at hb
  rcases hb with (hb | hb) | hb | hb | hb
  · exact hletter hb
  · simp [List.all_eq_true.mp hbefore b hb] at hblank
  · exact hcolon hb
  · simp [List.all_eq_true.mp hafter b hb] at hblank
  · exact hbracket hb

/-- No key with its bracket stands at depth zero, except right after an identifier byte. -/
def KeyFree (depth : Nat) (previous : Option UInt8) (view : CodeView) : Prop :=
  ∀ left before after right, view = left ++ (keyText before after).map some ++ right →
    IsBlank before → IsBlank after → blockDepth? depth left = some 0 →
    (left.getLast?.getD previous).any isIdent = true

theorem KeyFree.listOpening?_eq_none {previous : Option UInt8} {view rest : CodeView}
    {stop : Option UInt8} (hfree : KeyFree 0 previous view) (hview : view ≠ [])
    (hstop : StopsKey stop = true) :
    listOpening? previous (view ++ stop :: rest) = none := by
  rw [Option.eq_none_iff_forall_ne_some]
  intro width hwidth
  obtain ⟨hprevious, before, after, tail, hbefore, hafter, htail, -⟩ :=
    listOpening?_eq_some_iff.mp hwidth
  obtain ⟨right, rfl⟩ := prefix_of_prefix_append_cons ⟨tail, htail.symm⟩ hview
    (not_mem_tail_keyText hstop hbefore hafter)
  have hident := hfree [] before after right (by simp) hbefore hafter rfl
  rw [List.getLast?_nil, Option.getD_none, hprevious] at hident
  cases hident

theorem KeyFree.tail {depth next : Nat} {previous code : Option UInt8} {view : CodeView}
    (hfree : KeyFree depth previous (code :: view))
    (hnext : blockDepth? depth [code] = some next) : KeyFree next code view := by
  rintro left before after right rfl hbefore hafter hleft
  have hident := hfree (code :: left) before after right (by simp) hbefore hafter
    ((depth?_append_of_eq hnext).trans hleft)
  simpa [List.getLast?_cons] using hident

theorem KeyFree.cons {depth next : Nat} {previous code : Option UInt8} {view rest : CodeView}
    (hhead : depth = 0 → listOpening? previous (code :: view ++ rest) = none)
    (hnext : blockDepth? depth [code] = some next) (hfree : KeyFree next code view) :
    KeyFree depth previous (code :: view) := by
  intro left before after right hview hbefore hafter hleft
  cases left with
  | nil =>
      have hnone := hhead (Option.some.inj hleft)
      cases hprevious : previous.any isIdent with
      | true => exact hprevious
      | false =>
          have hkey : listOpening? previous (code :: view ++ rest) =
              some ((keyText before after).length - 1) :=
            listOpening?_eq_some_iff.mpr ⟨hprevious, before, after, right ++ rest, hbefore,
              hafter, by rw [hview]; simp, by simp⟩
          rw [hnone] at hkey
          cases hkey
  | cons first left =>
      obtain ⟨rfl, rfl⟩ := List.cons.inj hview
      obtain ⟨next', hnext', hrest⟩ := exists_depth?_of_cons hleft
      obtain rfl : next = next' := Option.some.inj (hnext.symm.trans hnext')
      simpa [List.getLast?_cons] using hfree left before after right rfl hbefore hafter hrest

theorem KeyFree.nil {depth : Nat} {previous : Option UInt8} : KeyFree depth previous [] := by
  intro left before after right hview
  have hlength := congrArg List.length hview
  simp at hlength
  omega

/-! One step of the walk. -/

section Step

variable {depth start bracket offset : Nat} {list : Option ListProperty}
  {previous : Option UInt8} {b : UInt8} {rest : CodeView}

theorem close?_block_cons :
    close? (.block depth) list previous offset (some b :: rest) =
      if isOpener b then close? (.block (depth + 1)) list (some b) (offset + 1) rest
      else if isCloser b then
        match depth with
        | 0 => if b == closeBrace then some (offset, list) else none
        | depth + 1 => close? (.block depth) list (some b) (offset + 1) rest
      else if depth == 0 && list.isNone then
        match listOpening? previous (some b :: rest) with
        | some width => close? (.key offset (offset + width)) list (some b) (offset + 1) rest
        | none => close? (.block depth) list (some b) (offset + 1) rest
      else close? (.block depth) list (some b) (offset + 1) rest :=
  rfl

theorem close?_block_step {next : Nat} {code : Option UInt8}
    (hnext : blockDepth? depth [code] = some next)
    (hkey : depth = 0 → list = none → listOpening? previous (code :: rest) = none) :
    close? (.block depth) list previous offset (code :: rest) =
      close? (.block next) list code (offset + 1) rest := by
  cases code with
  | none =>
      obtain rfl := Option.some.inj hnext
      rfl
  | some b =>
      rw [close?_block_cons]
      simp only [blockDepth?, depth?] at hnext
      by_cases hopens : isOpener b = true
      · rw [if_pos hopens] at hnext ⊢
        obtain rfl := Option.some.inj hnext
        rfl
      · rw [if_neg hopens] at hnext ⊢
        by_cases hcloses : isCloser b = true
        · rw [if_pos hcloses] at hnext ⊢
          cases depth with
          | zero => cases hnext
          | succ depth =>
              obtain rfl := Option.some.inj hnext
              rfl
        · rw [if_neg hcloses] at hnext ⊢
          obtain rfl := Option.some.inj hnext
          split
          · next hseeks =>
              rw [Bool.and_eq_true, beq_iff_eq, Option.isNone_iff_eq_none] at hseeks
              rw [hkey hseeks.1 hseeks.2]
          · rfl

theorem close?_block_end {code : Option UInt8} (hnext : blockDepth? depth [code] = none) :
    close? (.block depth) list previous offset (code :: rest) =
      if code = some closeBrace then some (offset, list) else none := by
  obtain ⟨b, rfl, rfl, hopens, hcloses⟩ := exists_of_depth?_single hnext
  simp [close?_block_cons, hopens, hcloses]

theorem close?_block_key {width : Nat} (hopens : isOpener b = false)
    (hcloses : isCloser b = false)
    (hkey : listOpening? previous (some b :: rest) = some width) :
    close? (.block 0) none previous offset (some b :: rest) =
      close? (.key offset (offset + width)) none (some b) (offset + 1) rest := by
  simp [close?_block_cons, hopens, hcloses, hkey]

theorem close?_list_cons :
    close? (.list start bracket depth) list previous offset (some b :: rest) =
      if b == openBracket then
        close? (.list start bracket (depth + 1)) list (some b) (offset + 1) rest
      else if b == closeBracket then
        match depth with
        | 0 =>
            close? (.block 0) (some ⟨start, offset + 1, ⟨bracket + 1, offset⟩⟩) (some b)
              (offset + 1) rest
        | depth + 1 => close? (.list start bracket depth) list (some b) (offset + 1) rest
      else close? (.list start bracket depth) list (some b) (offset + 1) rest :=
  rfl

theorem close?_list_step {next : Nat} {code : Option UInt8}
    (hnext : listDepth? depth [code] = some next) :
    close? (.list start bracket depth) list previous offset (code :: rest) =
      close? (.list start bracket next) list code (offset + 1) rest := by
  cases code with
  | none =>
      obtain rfl := Option.some.inj hnext
      rfl
  | some b =>
      rw [close?_list_cons]
      simp only [listDepth?, depth?] at hnext
      by_cases hopens : (b == openBracket) = true
      · rw [if_pos hopens] at hnext ⊢
        obtain rfl := Option.some.inj hnext
        rfl
      · rw [if_neg hopens] at hnext ⊢
        by_cases hcloses : (b == closeBracket) = true
        · rw [if_pos hcloses] at hnext ⊢
          cases depth with
          | zero => cases hnext
          | succ depth =>
              obtain rfl := Option.some.inj hnext
              rfl
        · rw [if_neg hcloses] at hnext ⊢
          obtain rfl := Option.some.inj hnext
          rfl

theorem close?_list_end {code : Option UInt8} (hnext : listDepth? depth [code] = none) :
    close? (.list start bracket depth) list previous offset (code :: rest) =
      close? (.block 0) (some ⟨start, offset + 1, ⟨bracket + 1, offset⟩⟩) code (offset + 1)
        rest := by
  obtain ⟨b, rfl, rfl, hopens, hcloses⟩ := exists_of_depth?_single hnext
  rw [close?_list_cons, hopens, hcloses]
  rfl

end Step

/-! Stretches of the walk. -/

/-- Text at some depth is passed, if what follows stops every look-ahead for a key. -/
theorem close?_block_append {depth stop offset : Nat} {list : Option ListProperty}
    {previous code : Option UInt8} {view rest : CodeView}
    (hdepth : blockDepth? depth view = some stop)
    (hfree : list = none → KeyFree depth previous view ∧ StopsKey code = true) :
    close? (.block depth) list previous offset (view ++ code :: rest) =
      close? (.block stop) list (view.getLast?.getD previous) (offset + view.length)
        (code :: rest) := by
  induction view generalizing depth previous offset with
  | nil => simp [Option.some.inj hdepth]
  | cons head view ih =>
      obtain ⟨next, hnext, hview⟩ := exists_depth?_of_cons hdepth
      have hpass := @ih next (offset + 1) head hview
        fun hlist => ⟨(hfree hlist).1.tail hnext, (hfree hlist).2⟩
      rw [List.cons_append, close?_block_step hnext, hpass]
      · simp [List.getLast?_cons, Nat.add_assoc, Nat.add_comm 1]
      · rintro rfl hlist
        exact (hfree hlist).1.listOpening?_eq_none (List.cons_ne_nil _ _) (hfree hlist).2

theorem close?_list_append {start bracket depth stop offset : Nat} {list : Option ListProperty}
    {previous : Option UInt8} {view rest : CodeView}
    (hdepth : listDepth? depth view = some stop) :
    close? (.list start bracket depth) list previous offset (view ++ rest) =
      close? (.list start bracket stop) list (view.getLast?.getD previous)
        (offset + view.length) rest := by
  induction view generalizing depth previous offset with
  | nil => simp [Option.some.inj hdepth]
  | cons head view ih =>
      obtain ⟨next, hnext, hview⟩ := exists_depth?_of_cons hdepth
      rw [List.cons_append, close?_list_step hnext, ih hview]
      simp [List.getLast?_cons, Nat.add_assoc, Nat.add_comm 1]

theorem close?_key_append {start bracket offset : Nat} {list : Option ListProperty}
    {previous : Option UInt8} {piece : Bytes} {b : UInt8} {rest : CodeView}
    (hbracket : offset + piece.length = bracket) :
    close? (.key start bracket) list previous offset (piece.map some ++ some b :: rest) =
      close? (.list start bracket 0) list (some b) (bracket + 1) rest := by
  induction piece generalizing previous offset with
  | nil =>
      obtain rfl : offset = bracket := hbracket
      simp [close?]
  | cons head piece ih =>
      have hne : (offset == bracket) = false := by
        simp only [List.length_cons] at hbracket
        simp
        omega
      have hrest : offset + 1 + piece.length = bracket := by
        simp only [List.length_cons] at hbracket
        omega
      have hpass := @ih (offset + 1) (some head) hrest
      rw [List.map_cons, List.cons_append, ← hpass]
      simp [close?, hne]

theorem close?_block_keyText {offset : Nat} {previous : Option UInt8} {before after : Bytes}
    {rest : CodeView} (hbefore : IsBlank before) (hafter : IsBlank after)
    (hprevious : previous.any isIdent = false) :
    close? (.block 0) none previous offset ((keyText before after).map some ++ rest) =
      close? (.list offset (offset + (keyText before after).length - 1) 0) none
        (some openBracket) (offset + (keyText before after).length) rest := by
  obtain ⟨letter, middle, hletter, hsplit⟩ : ∃ letter middle,
      (isOpener letter = false ∧ isCloser letter = false) ∧
        keyText before after = letter :: middle ++ [openBracket] :=
    ⟨0x69, listKey.tail ++ before ++ colon :: after, by decide, by simp [keyText]; rfl⟩
  have hkey : listOpening? previous ((keyText before after).map some ++ rest) =
      some (middle.length + 1) :=
    listOpening?_eq_some_iff.mpr
      ⟨hprevious, before, after, rest, hbefore, hafter, rfl, by simp [hsplit]⟩
  have hview : (keyText before after).map some ++ rest =
      some letter :: (middle.map some ++ some openBracket :: rest) := by
    simp [hsplit]
  rw [hview] at hkey ⊢
  have hlength : (keyText before after).length = middle.length + 2 := by simp [hsplit]
  have hbracket : offset + (middle.length + 2) - 1 = offset + (middle.length + 1) := by omega
  rw [close?_block_key hletter.1 hletter.2 hkey, close?_key_append (by omega), hlength, hbracket]
  rfl

end Extraction.Balanced
