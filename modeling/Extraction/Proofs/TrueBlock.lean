import Extraction.Proofs.Pieces
import Mathlib.Data.Nat.Find
/-!
The scan by depth finds the block that a reader of the text finds: it starts at the first marker
in the code that is followed by a brace, and where the brackets of its body are properly nested it
ends at the brace that matches. The list is the first key that no bracket of the body encloses,
with the contents up to the matching bracket.
-/

namespace Extraction

open Byte CodeView

/-- A byte of code: the view shows it. -/
def CodeAt (text : Bytes) (offset : Nat) (b : UInt8) : Prop :=
  (codeView text)[offset]? = some (some b)

def CodeView.between (view : CodeView) (left right : Nat) : CodeView :=
  (view.take right).drop (left + 1)

namespace Balanced

/-- A marker in the code at `start`, white space, and a brace at `brace`. -/
def Opens (text : Bytes) (start brace : Nat) : Prop :=
  (∃ b, CodeAt text start b) ∧ ∃ blank, IsBlank blank ∧
    openingText blank <+: text.drop start ∧ brace = start + marker.length + blank.length

/-- A bracket opened behind `brace` and before `offset` is closed behind `offset`. -/
def Enclosed (text : Bytes) (brace offset : Nat) : Prop :=
  ∃ left right opener closer, brace < left ∧ left < offset ∧ offset < right ∧
    CodeAt text left opener ∧ CodeAt text right closer ∧ Pairs opener closer ∧
    Nested ((codeView text).between left right)

/-- A key in the code between two braces, not enclosed by a bracket of the body and not behind an
identifier byte, with its list's opening bracket at `bracket`. -/
structure KeyAt (text : Bytes) (brace close key bracket : Nat) : Prop where
  inside : brace < key ∧ key < close
  code : ∃ b, CodeAt text key b
  unenclosed : ¬ Enclosed text brace key
  previous : (text.take key).getLast?.any isIdent = false
  opening : ∃ before after, IsBlank before ∧ IsBlank after ∧
    keyText before after <+: text.drop key ∧ bracket + 1 = key + (keyText before after).length

/-- The first list of a block: `none` if no key is in it, else the least key with the contents
up to the bracket that matches its own. -/
def FirstList (text : Bytes) (brace close : Nat) : Option ListProperty → Prop
  | none => ∀ key bracket, ¬ KeyAt text brace close key bracket
  | some list => ∃ bracket, KeyAt text brace close list.start bracket ∧
      (∀ key' bracket', KeyAt text brace close key' bracket' → list.start ≤ key') ∧
      list.contents.start = bracket + 1 ∧ list.stop = list.contents.stop + 1 ∧
      bracket < list.contents.stop ∧ list.contents.stop < close ∧
      CodeAt text list.contents.stop closeBracket ∧
      Nested ((codeView text).between bracket list.contents.stop)

/-- Where a block ends whose brace is closed at `close`: behind a parenthesis that only white
space separates from the brace, else behind the brace. -/
def EndsAt (text : Bytes) (close stop : Nat) : Prop :=
  (∃ blank, IsBlank blank ∧ blank ++ [closeParen] <+: text.drop (close + 1) ∧
      stop = close + 1 + blank.length + 1) ∨
    (∀ blank, IsBlank blank → ¬ blank ++ [closeParen] <+: text.drop (close + 1)) ∧
      stop = close + 1

end Balanced

/-! Pieces of code in a text and in its view. -/

theorem CodeAt.exists_split {text : Bytes} {offset : Nat} {b : UInt8}
    (h : CodeAt text offset b) :
    ∃ first second, text = first ++ b :: second ∧ first.length = offset ∧
      (Mode.code.after first (some b) = .code ∨ b = lineFeed) := by
  obtain ⟨hlength, hget⟩ := List.getElem?_eq_some_iff.mp h
  have hview := (List.take_append_drop offset (codeView text)).symm
  rw [List.drop_eq_getElem_cons hlength, hget] at hview
  obtain ⟨first, second, rfl, hfirst, hsecond⟩ := Mode.view_eq_append hview
  obtain ⟨⟨second, rfl⟩, hmode⟩ := Mode.view_eq_some_cons hsecond
  refine ⟨first, second, rfl, ?_, hmode.imp_right And.right⟩
  have hfirstLength := congrArg List.length hfirst
  simp at hfirstLength hlength
  omega

theorem CodeAt.exists_codeView_eq {text piece : Bytes} {offset : Nat} {b : UInt8}
    (h : CodeAt text offset b) (hpiece : piece <+: text.drop offset)
    (hplain : piece.all isPlain = true) (hline : piece.head?.any (· != lineFeed) = true) :
    ∃ left right, codeView text = left ++ (piece.map some ++ right) ∧
      left.length = offset := by
  obtain ⟨first, second, rfl, rfl, hmode⟩ := h.exists_split
  rw [List.drop_left] at hpiece
  obtain ⟨rest, hrest⟩ := hpiece
  cases piece with
  | nil => cases hline
  | cons c piece =>
      obtain ⟨rfl, -⟩ := List.cons.inj hrest
      have hcode := hmode.resolve_right (by simpa using hline)
      refine ⟨Mode.code.viewBefore first (some c), Mode.code.view rest, ?_, by simp⟩
      rw [← hrest, codeView, Mode.view_append, Mode.view_append, List.cons_append,
        List.head?_cons, hcode, Mode.viewBefore_code_of_plain hplain,
        Mode.after_code_of_plain hplain]

theorem prefix_drop_of_codeView {text piece : Bytes} {left right : CodeView}
    (h : codeView text = left ++ (piece.map some ++ right)) :
    piece <+: text.drop left.length := by
  obtain ⟨first, second, rfl, rfl, hsecond⟩ := Mode.view_eq_append h
  obtain ⟨middle, last, rfl, hmiddle, -⟩ := Mode.view_eq_append hsecond
  rw [Mode.eq_of_viewBefore_eq_map hmiddle]
  simp

theorem codeAt_of_codeView {text : Bytes} {left right : CodeView} {b : UInt8}
    (h : codeView text = left ++ some b :: right) : CodeAt text left.length b := by
  simp [CodeAt, h]

/-! Between two offsets of a view. -/

namespace CodeView

theorem length_append_cons (left right : CodeView) (code : Option UInt8) :
    (left ++ code :: right).length = left.length + 1 + right.length := by
  rw [List.length_append, List.length_cons]
  omega

theorem between_append {left middle right : CodeView} {opener closer : Option UInt8} :
    (left ++ opener :: (middle ++ closer :: right)).between left.length
      (left.length + 1 + middle.length) = middle := by
  have hview : left ++ opener :: (middle ++ closer :: right) =
      (left ++ [opener] ++ middle) ++ closer :: right := by simp
  rw [between, hview, List.take_left' (by simp; omega)]
  exact List.drop_left' (by simp)

theorem length_between {view : CodeView} {left right : Nat} (hright : right ≤ view.length) :
    (view.between left right).length = right - (left + 1) := by
  rw [between, List.length_drop, List.length_take, Nat.min_eq_left hright]

theorem eq_take_append_cons {view : CodeView} {offset : Nat} {code : Option UInt8}
    (hcode : view[offset]? = some code) :
    view = view.take offset ++ code :: view.drop (offset + 1) := by
  obtain ⟨hlength, rfl⟩ := List.getElem?_eq_some_iff.mp hcode
  rw [← List.drop_eq_getElem_cons hlength, List.take_append_drop]

theorem between_split {view : CodeView} {left middle right : Nat} {code : Option UInt8}
    (hleft : left < middle) (hright : middle < right) (hcode : view[middle]? = some code) :
    view.between left right =
      view.between left middle ++ code :: view.between middle right := by
  have hlength : middle < view.length := (List.getElem?_eq_some_iff.mp hcode).1
  have htake : (view.take right)[middle]? = some code := by
    rw [List.getElem?_take_of_lt hright, hcode]
  have hsplit := eq_take_append_cons htake
  rw [List.take_take, Nat.min_eq_left (Nat.le_of_lt hright)] at hsplit
  rw [between, hsplit, List.drop_append_of_le_length (by simp; omega)]
  rfl

theorem exists_append_of_getElem? {view : CodeView} {left right : Nat}
    {opener closer : Option UInt8} (hlt : left < right) (hopener : view[left]? = some opener)
    (hcloser : view[right]? = some closer) :
    ∃ first last, view = first ++ opener :: (view.between left right ++ closer :: last) ∧
      first.length = left := by
  have hlength : left < view.length := (List.getElem?_eq_some_iff.mp hopener).1
  have htake : (view.take right)[left]? = some opener := by
    rw [List.getElem?_take_of_lt hlt, hopener]
  have hsplit := eq_take_append_cons htake
  rw [List.take_take, Nat.min_eq_left (Nat.le_of_lt hlt)] at hsplit
  refine ⟨view.take left, view.drop (right + 1), ?_, by simp; omega⟩
  have hview := eq_take_append_cons hcloser
  rw [hsplit] at hview
  simpa [between] using hview

end CodeView

namespace Mode

theorem getLast?_any_isIdent {text : Bytes} {next : Option UInt8}
    (hcode : code.after text next = .code) :
    text.getLast?.any isIdent = (code.viewBefore text next).getLast?.join.any isIdent := by
  rcases List.eq_nil_or_concat text with rfl | ⟨init, b, rfl⟩
  · rfl
  · rw [List.concat_eq_append] at hcode ⊢
    rw [after_append] at hcode
    have hquoted : (code.after init (([b] : Bytes).head?.or next)).WellQuoted :=
      WellQuoted.after (by trivial) _ _
    have hstep : (code.after init (([b] : Bytes).head?.or next)).step b next = .code := by
      simpa [after] using hcode
    simp only [viewBefore_append, viewBefore, List.head?_nil, Option.none_or,
      List.getLast?_append, List.getLast?_singleton, Option.some_or, Option.join_some,
      Option.any_some]
    rcases hquoted.shown_of_step_eq_code hstep with hshown | hplain
    · rw [hshown, Option.any_some]
    · have hident : isIdent b = false := not_isIdent_of_not_isPlain hplain
      cases hshown : (code.after init (([b] : Bytes).head?.or next)).shown b next with
      | none => simpa using hident
      | some c =>
          obtain rfl := eq_of_shown_eq_some hshown
          rfl

end Mode

theorem CodeAt.getLast?_take_any_isIdent {text : Bytes} {offset : Nat} {b : UInt8}
    (h : CodeAt text offset b) (hline : b ≠ lineFeed) :
    (text.take offset).getLast?.any isIdent =
      ((codeView text).take offset).getLast?.join.any isIdent := by
  obtain ⟨first, second, rfl, rfl, hmode⟩ := h.exists_split
  rw [codeView, Mode.view_append, List.take_left, List.take_left' (Mode.length_viewBefore _ _ _)]
  exact Mode.getLast?_any_isIdent (hmode.resolve_right hline)

namespace Balanced

theorem enclosed_iff {text : Bytes} {lead left right rest : CodeView}
    {opening closing : Option UInt8} {b : UInt8} {depth : Nat}
    (hview : codeView text = lead ++ opening :: (left ++ some b :: right ++ closing :: rest))
    (hnested : Nested (left ++ some b :: right)) (hcloses : isCloser b = false)
    (hdepth : blockDepth? 0 left = some depth) :
    Enclosed text lead.length (lead.length + 1 + left.length) ↔ 0 < depth := by
  have hbetween : (codeView text).between lead.length (lead.length + 1 + left.length) = left := by
    rw [hview, List.append_assoc, List.cons_append, between_append]
  have hcode : (codeView text)[lead.length + 1 + left.length]? = some (some b) := by
    have hsplit : codeView text =
        (lead ++ opening :: left) ++ some b :: (right ++ closing :: rest) := by simp [hview]
    have hlength : (lead ++ opening :: left).length = lead.length + 1 + left.length :=
      CodeView.length_append_cons _ _ _
    rw [← hlength]
    exact codeAt_of_codeView hsplit
  constructor
  · rintro ⟨first, last, opener, closer, hfirst, hoffset, hlast, hopener, -, hpairs, hinner⟩
    rw [between_split hoffset hlast hcode] at hinner
    obtain ⟨extra, hextra, -⟩ := exists_depth?_of_append (hinner.blockDepth?_eq 0)
    rw [← hbetween, between_split hfirst hoffset hopener] at hdepth
    exact depth_pos_of_opener (not_isOpener_of_pairs hpairs).1 hextra hdepth
  · intro hpos
    obtain ⟨depth, rfl⟩ := Nat.exists_eq_add_one.mpr hpos
    obtain ⟨before, opener, first, second, closer, after, hpairs, rfl, hsecond, hinner⟩ :=
      hnested.exists_enclosing rfl hdepth
    cases second with
    | nil =>
        obtain rfl := Option.some.inj (List.cons.inj hsecond).1
        simp [(not_isOpener_of_pairs hpairs).2.2] at hcloses
    | cons code second =>
        obtain ⟨rfl, rfl⟩ := List.cons.inj hsecond
        have hsplit : codeView text = (lead ++ opening :: before) ++ some opener ::
            ((first ++ some b :: second) ++ some closer :: (after ++ closing :: rest)) := by
          simp [hview]
        have hclosing : codeView text = ((lead ++ opening :: before) ++ some opener ::
            (first ++ some b :: second)) ++ some closer :: (after ++ closing :: rest) := by
          simp [hview]
        refine ⟨_, _, opener, closer, ?_, ?_, ?_, codeAt_of_codeView hsplit,
          codeAt_of_codeView hclosing, hpairs, ?_⟩
        · simp
        · simp
          omega
        · simp
          omega
        · rw [CodeView.length_append_cons (lead ++ opening :: before), hsplit, between_append]
          exact hinner

theorem exists_split_of_append_eq {lead body rest front back : CodeView}
    {opening closing : Option UInt8}
    (hview : lead ++ opening :: (body ++ closing :: rest) = front ++ back)
    (hlead : lead.length < front.length) (hbody : front.length < lead.length + 1 + body.length) :
    ∃ left more, front = lead ++ opening :: left ∧ body = left ++ more ∧
      back = more ++ closing :: rest := by
  rcases List.append_eq_append_iff.mp hview with ⟨tail, rfl, htail⟩ | ⟨tail, rfl, -⟩
  · cases tail with
    | nil => simp at hlead
    | cons code left =>
        obtain ⟨rfl, hinner⟩ := List.cons.inj htail
        rcases List.append_eq_append_iff.mp hinner with ⟨more, rfl, -⟩ | ⟨more, rfl, hback⟩
        · simp only [List.length_append, List.length_cons] at hbody
          omega
        · exact ⟨left, more, rfl, rfl, hback⟩
  · rw [List.length_append] at hlead
    omega

/-- Keys of a block's body, in the text and in its view. -/
theorem keyAt_iff {text : Bytes} {lead body rest : CodeView}
    (hview : codeView text = lead ++ some openBrace :: (body ++ some closeBrace :: rest))
    (hnested : Nested body) {key bracket : Nat} :
    KeyAt text lead.length (lead.length + 1 + body.length) key bracket ↔
      ∃ left before after right, body = left ++ ((keyText before after).map some ++ right) ∧
        IsBlank before ∧ IsBlank after ∧ blockDepth? 0 left = some 0 ∧
        (left.getLast?.getD (some openBrace)).any isIdent = false ∧
        key = lead.length + 1 + left.length ∧
        bracket + 1 = key + (keyText before after).length := by
  have hlast : ∀ left : CodeView, (lead ++ some openBrace :: left).getLast?.join =
      left.getLast?.getD (some openBrace) := by
    intro left
    simp [List.getLast?_append, List.getLast?_cons]
  constructor
  · rintro ⟨⟨hbrace, hclose⟩, ⟨b, hcode⟩, hunenclosed, hprevious, before, after, hbefore, hafter,
      hkey, hbracket⟩
    obtain ⟨front, back, hsplit, rfl⟩ :=
      hcode.exists_codeView_eq hkey (isPlain_keyText hbefore hafter) rfl
    obtain ⟨left, more, rfl, rfl, hmore⟩ :=
      exists_split_of_append_eq (hview.symm.trans hsplit) hbrace hclose
    obtain ⟨right, rfl⟩ := prefix_of_prefix_append_cons ⟨back, hmore⟩
      (by rintro rfl; simp at hclose; omega) (not_mem_tail_keyText rfl hbefore hafter)
    have hlength : (lead ++ some openBrace :: left).length = lead.length + 1 + left.length :=
      CodeView.length_append_cons _ _ _
    have hletter : CodeAt text (lead ++ some openBrace :: left).length 0x69 :=
      codeAt_of_codeView hsplit
    rw [hletter.getLast?_take_any_isIdent (by decide), hsplit, List.take_left, hlast] at hprevious
    rw [hlength] at hunenclosed hbracket ⊢
    refine ⟨left, before, after, right, rfl, hbefore, hafter, ?_, hprevious, rfl, hbracket⟩
    obtain ⟨depth, hdepth, -⟩ := exists_depth?_of_append (hnested.blockDepth?_eq 0)
    have hpos := mt (enclosed_iff hview hnested rfl hdepth).mpr hunenclosed
    rwa [Nat.eq_zero_of_not_pos hpos] at hdepth
  · rintro ⟨left, before, after, right, rfl, hbefore, hafter, hleft, hprevious, rfl, hbracket⟩
    have hsplit : codeView text = (lead ++ some openBrace :: left) ++
        ((keyText before after).map some ++ (right ++ some closeBrace :: rest)) := by
      simp [hview]
    have hcode : CodeAt text (lead ++ some openBrace :: left).length 0x69 :=
      codeAt_of_codeView hsplit
    have hlength : (lead ++ some openBrace :: left).length = lead.length + 1 + left.length :=
      CodeView.length_append_cons _ _ _
    refine ⟨⟨by omega, ?_⟩, ⟨_, hlength ▸ hcode⟩, ?_, ?_, before, after, hbefore, hafter, ?_,
      hbracket⟩
    · simp only [List.length_append, List.length_map, length_keyText]
      omega
    · obtain ⟨depth, hdepth, -⟩ := exists_depth?_of_append (hnested.blockDepth?_eq 0)
      obtain rfl : 0 = depth := Option.some.inj (hleft.symm.trans hdepth)
      exact mt (enclosed_iff hview hnested rfl hleft).mp (Nat.lt_irrefl 0)
    · rw [← hlength, hcode.getLast?_take_any_isIdent (by decide), hsplit, List.take_left, hlast]
      exact hprevious
    · rw [← hlength]
      exact prefix_drop_of_codeView hsplit

theorem not_isOpener_of_mem_key {before after : Bytes} (hbefore : IsBlank before)
    (hafter : IsBlank after) {b : UInt8}
    (hb : some b ∈ (listKey ++ before ++ colon :: after).map some) :
    isOpener b = false ∧ isCloser b = false := by
  have hblank : ∀ {blank : Bytes}, IsBlank blank → b ∈ blank →
      isOpener b = false ∧ isCloser b = false := by
    intro blank hblank hmem
    exact not_isBracket_of_isAsciiBlank (List.all_eq_true.mp hblank b hmem)
  have hletters : (listKey.all fun c => !isOpener c && !isCloser c) = true := by decide
  simp only [List.mem_map, Option.some.injEq, exists_eq_right, List.mem_append,
    List.mem_cons] at hb
  rcases hb with (hb | hb) | rfl | hb
  · simpa using List.all_eq_true.mp hletters b hb
  · exact hblank hbefore hb
  · decide
  · exact hblank hafter hb

theorem bare_or_listed {body : CodeView} (hnested : Nested body) :
    BareBody 0 (some openBrace) body ∨
      ∃ left before after contents right, body = listedView left before after contents right ∧
        ListedBody 0 (some openBrace) left before after contents right ∧ Nested contents := by
  classical
  by_cases hkey : ∃ width left before after right, left.length = width ∧
      body = left ++ ((keyText before after).map some ++ right) ∧ IsBlank before ∧
        IsBlank after ∧ blockDepth? 0 left = some 0 ∧
          (left.getLast?.getD (some openBrace)).any isIdent = false
  · right
    obtain ⟨left, before, after, right, hwidth, hbody, hbefore, hafter, hleft, hprevious⟩ :=
      Nat.find_spec hkey
    have hsplit : body = (left ++ (listKey ++ before ++ colon :: after).map some) ++
        some openBracket :: right := by
      simp [hbody, keyText]
    have hclosed : blockDepth? 0 (left ++ (listKey ++ before ++ colon :: after).map some) =
        some 0 := by
      refine (depth?_append_of_eq hleft).trans (depth?_of_forall ?_)
      exact fun _ => not_isOpener_of_mem_key hbefore hafter
    obtain ⟨closer, contents, rest, hpairs, rfl, hcontents, hrest⟩ :=
      hnested.exists_closer hsplit hclosed (by decide)
    obtain rfl : closer = closeBracket := by
      rcases hpairs with ⟨hopener, -⟩ | ⟨-, hcloser⟩ | ⟨hopener, -⟩
      · cases hopener
      · exact hcloser
      · cases hopener
    refine ⟨left, before, after, contents, rest, hbody, ?_, hcontents⟩
    refine ⟨hleft, ?_, hprevious, hbefore, hafter, hcontents.listDepth?_eq 0,
      hrest.blockDepth?_eq 0⟩
    rintro first before' after' right' rfl hbefore' hafter' hfirst
    rw [← Bool.not_eq_false]
    intro hident
    have hlt : first.length < Nat.find hkey := by
      rw [← hwidth, List.length_append, List.length_append, List.length_map, length_keyText]
      omega
    exact Nat.find_min hkey hlt ⟨first, before', after', _, rfl, by rw [hbody]; simp; rfl,
      hbefore', hafter', hfirst, hident⟩
  · left
    refine ⟨hnested.blockDepth?_eq 0, ?_⟩
    rintro left before after right rfl hbefore hafter hleft
    rw [← Bool.not_eq_false]
    intro hprevious
    exact hkey ⟨_, left, before, after, right, rfl, by simp, hbefore, hafter, hleft, hprevious⟩

theorem endsAt_iff {text : Bytes} {left right : CodeView} {stop : Nat}
    (hview : codeView text = left ++ some closeBrace :: right) :
    EndsAt text left.length stop ↔
      stop = left.length + 1 + (separator? closeParen right).getD 0 := by
  have hright : right = Mode.code.view (text.drop (left.length + 1)) := by
    obtain ⟨first, second, rfl, rfl, hsecond⟩ := Mode.view_eq_append hview
    obtain ⟨⟨tail, rfl⟩, hmode⟩ := Mode.view_eq_some_cons hsecond
    have hstep : (Mode.code.after first (some closeBrace)).step closeBrace tail.head? = .code := by
      rw [List.head?_cons] at hmode
      rw [hmode.resolve_right (by simp [closeBrace, lineFeed])]
      rfl
    rw [List.head?_cons, Mode.view, hstep] at hsecond
    rw [Mode.length_viewBefore, ← List.drop_drop, List.drop_left]
    exact (List.cons.inj hsecond).2.symm
  have hparen : ∀ blank : Bytes, IsBlank blank →
      (blank ++ [closeParen] <+: text.drop (left.length + 1) ↔
        ∃ rest, right = blank.map some ++ some closeParen :: rest) := by
    intro blank hblank
    have hplain : (blank ++ [closeParen]).all isPlain = true := by
      rw [List.all_append, hblank.isPlain]
      decide
    rw [← Mode.map_prefix_view_iff hplain, ← hright]
    simp [List.IsPrefix, eq_comm]
  have hsome := fun width => @separator?_eq_some_iff closeParen right width (by decide)
  rw [EndsAt]
  cases hwidth : separator? closeParen right with
  | none =>
      have hnone : ∀ blank, IsBlank blank →
          ¬ blank ++ [closeParen] <+: text.drop (left.length + 1) := by
        intro blank hblank hstarts
        obtain ⟨rest, hrest⟩ := (hparen blank hblank).mp hstarts
        have hsep := (hsome _).mpr ⟨blank, rest, hblank, hrest, rfl⟩
        rw [hwidth] at hsep
        cases hsep
      constructor
      · rintro (⟨blank, hblank, hstarts, -⟩ | ⟨-, hstop⟩)
        · exact absurd hstarts (hnone blank hblank)
        · exact hstop
      · intro hstop
        exact .inr ⟨hnone, hstop⟩
  | some width =>
      obtain ⟨blank, rest, hblank, hrest, rfl⟩ := (hsome width).mp hwidth
      constructor
      · rintro (⟨blank', hblank', hstarts, rfl⟩ | ⟨hnone, -⟩)
        · obtain ⟨rest', hrest'⟩ := (hparen blank' hblank').mp hstarts
          have hsep := (hsome _).mpr ⟨blank', rest', hblank', hrest', rfl⟩
          rw [hwidth] at hsep
          simpa [Nat.add_assoc] using (Option.some.inj hsep).symm
        · exact absurd ((hparen blank hblank).mpr ⟨rest, hrest⟩) (hnone blank hblank)
      · intro hstop
        exact .inl ⟨blank, hblank, (hparen blank hblank).mpr ⟨rest, hrest⟩, hstop⟩

theorem MarkerFree.of_least {text : Bytes} {lead rest : CodeView}
    (hview : codeView text = lead ++ rest)
    (hleast : ∀ start brace, Opens text start brace → lead.length ≤ start) :
    MarkerFree lead := by
  rintro left blank right hblank rfl
  have hsplit : codeView text = left ++ ((openingText blank).map some ++ (right ++ rest)) := by
    simp [hview]
  have hopens : Opens text left.length (left.length + marker.length + blank.length) :=
    ⟨⟨0x40, codeAt_of_codeView hsplit⟩, blank, hblank, prefix_drop_of_codeView hsplit, rfl⟩
  have hle := hleast _ _ hopens
  simp only [List.length_append, List.length_map, openingText, List.length_cons] at hle
  omega

theorem exists_blockView {text : Bytes} {start brace close : Nat}
    (hopens : Opens text start brace) (hlt : brace < close)
    (hclose : CodeAt text close closeBrace) :
    ∃ lead blank rest, IsBlank blank ∧ lead.length = start ∧
      brace = start + marker.length + blank.length ∧
      codeView text = blockView lead blank ((codeView text).between brace close) rest := by
  obtain ⟨⟨b, hcode⟩, blank, hblank, hstarts, rfl⟩ := hopens
  obtain ⟨lead, tail, hview, rfl⟩ :=
    hcode.exists_codeView_eq hstarts (isPlain_openingText hblank) rfl
  have hsplit : codeView text =
      (lead ++ (marker ++ blank).map some) ++ some openBrace :: tail := by
    rw [hview]
    simp [openingText]
  have hlength : (lead ++ (marker ++ blank).map some).length =
      lead.length + marker.length + blank.length := by
    simp
    omega
  have hopener := codeAt_of_codeView hsplit
  rw [hlength] at hopener
  obtain ⟨first, rest, hbetween, hfirst⟩ := exists_append_of_getElem? hlt hopener hclose
  obtain ⟨rfl, htail⟩ := List.append_inj (hbetween.symm.trans hsplit) (hfirst.trans hlength.symm)
  refine ⟨lead, blank, rest, hblank, rfl, rfl, ?_⟩
  rw [blockView, (List.cons.inj htail).2]
  exact hview

theorem firstList_bare {text : Bytes} {lead body rest : CodeView}
    (hview : codeView text = lead ++ some openBrace :: (body ++ some closeBrace :: rest))
    (hnested : Nested body) (hbody : BareBody 0 (some openBrace) body) :
    FirstList text lead.length (lead.length + 1 + body.length) none := by
  intro key bracket hkey
  obtain ⟨left, before, after, right, rfl, hbefore, hafter, hleft, hprevious, -⟩ :=
    (keyAt_iff hview hnested).mp hkey
  have hident := hbody.free left before after right (by simp) hbefore hafter hleft
  rw [hprevious] at hident
  cases hident

theorem ListedBody.length_le {left : CodeView} {before after : Bytes}
    {contents right : CodeView}
    (hbody : ListedBody 0 (some openBrace) left before after contents right) {left' : CodeView}
    {before' after' : Bytes} {right' : CodeView}
    (hsplit : listedView left before after contents right =
      left' ++ ((keyText before' after').map some ++ right'))
    (hbefore : IsBlank before') (hafter : IsBlank after') (hleft : blockDepth? 0 left' = some 0)
    (hprevious : (left'.getLast?.getD (some openBrace)).any isIdent = false) :
    left.length ≤ left'.length := by
  rw [listedView] at hsplit
  rcases List.append_eq_append_iff.mp hsplit with ⟨more, rfl, -⟩ | ⟨more, rfl, hmore⟩
  · simp
  · cases more with
    | nil => simp
    | cons code more =>
        obtain ⟨tail, htail⟩ := prefix_of_prefix_append_cons ⟨right', hmore⟩
          (List.cons_ne_nil code more)
          (not_mem_tail_keyText (show StopsKey (some 0x69) = true by decide) hbefore hafter)
        have hident := hbody.left_free left' before' after' tail (by simp [htail]) hbefore
          hafter hleft
        rw [hprevious] at hident
        cases hident

theorem firstList_listed {text : Bytes} {lead left : CodeView} {before after : Bytes}
    {contents right rest : CodeView}
    (hview : codeView text = lead ++ some openBrace ::
      (listedView left before after contents right ++ some closeBrace :: rest))
    (hnested : Nested (listedView left before after contents right))
    (hbody : ListedBody 0 (some openBrace) left before after contents right)
    (hcontents : Nested contents) :
    FirstList text lead.length
      (lead.length + 1 + (listedView left before after contents right).length)
      (some (listedAt (lead.length + 1) left before after contents)) := by
  have hkeys := @keyAt_iff text lead _ rest hview hnested
  have hstop : (listedAt (lead.length + 1) left before after contents).contents.stop =
      lead.length + 1 + left.length + (keyText before after).length + contents.length := rfl
  have hbracket : codeView text =
      (lead ++ some openBrace :: left ++ (listKey ++ before ++ colon :: after).map some) ++
        some openBracket :: (contents ++ some closeBracket ::
          (right ++ some closeBrace :: rest)) := by
    rw [hview]
    simp [listedView, keyText]
  have hwidth : (lead ++ some openBrace :: left ++
      (listKey ++ before ++ colon :: after).map some).length + 1 =
        lead.length + 1 + left.length + (keyText before after).length := by
    simp
    omega
  refine ⟨(lead ++ some openBrace :: left ++
    (listKey ++ before ++ colon :: after).map some).length, ?_, ?_, hwidth.symm, rfl, ?_, ?_, ?_,
    ?_⟩
  · exact hkeys.mpr ⟨left, before, after, _, rfl, hbody.before_blank, hbody.after_blank,
      hbody.left_closed, hbody.key_previous, rfl, hwidth⟩
  · intro key' bracket' hkey
    obtain ⟨left', before', after', right', hsplit, hbefore, hafter, hleft, hprevious, rfl, -⟩ :=
      hkeys.mp hkey
    exact Nat.add_le_add_left (hbody.length_le hsplit hbefore hafter hleft hprevious) _
  · rw [hstop]
    omega
  · rw [hstop, listedView]
    simp
    omega
  · have hclosing : codeView text =
        (lead ++ some openBrace :: left ++ (keyText before after).map some ++ contents) ++
          some closeBracket :: (right ++ some closeBrace :: rest) := by
      rw [hview]
      simp [listedView]
    have hlength : (lead ++ some openBrace :: left ++ (keyText before after).map some ++
        contents).length =
          lead.length + 1 + left.length + (keyText before after).length + contents.length := by
      simp
      omega
    rw [hstop, ← hlength]
    exact codeAt_of_codeView hclosing
  · rw [hstop, ← hwidth, hbracket, between_append]
    exact hcontents

theorem scan_of_nested {text : Bytes} {start brace close : Nat}
    (hopens : Opens text start brace)
    (hleast : ∀ start' brace', Opens text start' brace' → start ≤ start')
    (hlt : brace < close) (hclose : CodeAt text close closeBrace)
    (hnested : Nested ((codeView text).between brace close)) :
    ∃ stop list, scan text = some ⟨⟨start, stop, brace, close⟩, list⟩ ∧
      EndsAt text close stop ∧ FirstList text brace close list := by
  obtain ⟨lead, blank, rest, hblank, rfl, rfl, hview⟩ := exists_blockView hopens hlt hclose
  have hlength : close = lead.length + marker.length + blank.length + 1 +
      ((codeView text).between (lead.length + marker.length + blank.length) close).length := by
    rw [length_between (Nat.le_of_lt (List.getElem?_eq_some_iff.mp hclose).1)]
    omega
  generalize (codeView text).between _ close = body at hview hnested hlength
  subst hlength
  have hbrace : codeView text = (lead ++ (marker ++ blank).map some) ++ some openBrace ::
      (body ++ some closeBrace :: rest) := by
    rw [hview]
    simp [blockView, openingText]
  have hwidth : (lead ++ (marker ++ blank).map some).length =
      lead.length + marker.length + blank.length := by
    simp
    omega
  have hbody : codeView text = (lead ++ (openingText blank).map some ++ body) ++
      some closeBrace :: rest := by
    rw [hview]
    simp [blockView]
  have hbodyWidth : (lead ++ (openingText blank).map some ++ body).length =
      lead.length + marker.length + blank.length + 1 + body.length := by
    simp
    omega
  have hends := (endsAt_iff hbody).mpr rfl
  rw [hbodyWidth] at hends
  have hlead := MarkerFree.of_least hview hleast
  rcases bare_or_listed hnested with hbare |
      ⟨left, before, after, contents, right, rfl, hlisted, hcontents⟩
  · refine ⟨_, none, ?_, hends, ?_⟩
    · rw [scan, hview, scanView_bare hlead hblank hbare]
      rfl
    · rw [← hwidth]
      exact firstList_bare hbrace hnested hbare
  · refine ⟨_, some (listedAt (lead.length + marker.length + blank.length + 1) left before after
      contents), ?_, hends, ?_⟩
    · rw [scan, hview, scanView_listed hlead hblank hlisted]
      rfl
    · rw [← hwidth]
      exact firstList_listed hbrace hnested hlisted hcontents

/-- A block behind a comment that holds another marker, with a brace in a literal and a key
inside brackets. -/
theorem scan_of_nested_comment :
    let text := utf8 "/* @Component(\x7b */ @Component( \x7b a: [\x7b imports: [] \x7d], " ++
      utf8 "imports: ['\x7d', B[0]] \x7d )"
    ∃ stop list, scan text = some ⟨⟨19, stop, 31, 76⟩, list⟩ ∧
      EndsAt text 76 stop ∧ FirstList text 31 76 list := by
  intro text
  have hfirst : ∀ start < 19, marker <+: text.drop start →
      (codeView text)[start]? = some none := by
    decide +kernel
  refine scan_of_nested ?_ ?_ ?_ ?_ ?_
  · exact ⟨⟨0x40, by unfold CodeAt; decide +kernel⟩, [0x20], by decide, by decide +kernel, rfl⟩
  · intro start brace hopens
    obtain ⟨⟨b, hcode⟩, blank, -, hstarts, -⟩ := hopens
    apply Nat.le_of_not_lt
    intro hlt
    have hmarker : marker <+: openingText blank :=
      ⟨blank ++ [openBrace], by simp [openingText]⟩
    have hhidden := hfirst start hlt (hmarker.trans hstarts)
    rw [CodeAt, hhidden] at hcode
    cases hcode
  · decide
  · unfold CodeAt
    decide +kernel
  · decide +kernel

end Balanced

end Extraction
