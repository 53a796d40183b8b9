import Extraction.Proofs.CodeCursor
import Extraction.Proofs.TrueBlock
/-!
The scan by depth as a cursor over the bytes of a text. The cursor passes literals and comments,
but looks ahead and back in the text itself: at the marker, at white space, at the key and at the
byte before it. None of these looks sees a literal or a comment, so the cursor finds what the scan
of the code view finds, and two texts with the same code have the same declaration.
-/

namespace Extraction.Balanced

open Byte Bytes CodeCursor CodeView

namespace Cursor

/-- The next byte of code, read from an offset on, and its offset. -/
def next? (text : Bytes) (offset : Nat) : Option (Nat × UInt8) :=
  match _ : text[offset]? with
  | none => none
  | some b =>
      match _ : skip? text b offset with
      | none => none
      | some none => some (offset, b)
      | some (some behind) => next? text behind
termination_by text.length - offset
decreasing_by
  have hlt := (List.getElem?_eq_some_iff.mp ‹text[offset]? = some _›).1
  have hbehind := lt_of_skip? ‹text[offset]? = some _› ‹skip? text _ offset = _›
  omega

def behindBlank? (byte : UInt8) (text : Bytes) (offset : Nat) : Option Nat :=
  let stop := offset + ((text.drop offset).takeWhile isAsciiBlank).length
  if text[stop]? == some byte then some stop else none

def brace? (text : Bytes) (offset : Nat) : Option Nat :=
  if marker.isPrefixOf (text.drop offset) then
    behindBlank? openBrace text (offset + marker.length)
  else none

def bracket? (text : Bytes) (offset : Nat) : Option Nat :=
  let keyEnd := offset + listKey.length
  if (text.take offset).getLast?.any isIdent || !listKey.isPrefixOf (text.drop offset) ||
      text[keyEnd]?.any isIdent then none
  else
    match behindBlank? colon text keyEnd with
    | some colonAt => behindBlank? openBracket text (colonAt + 1)
    | none => none

def blockStop (text : Bytes) (close : Nat) : Nat :=
  match behindBlank? closeParen text (close + 1) with
  | some paren => paren + 1
  | none => close + 1

/-- Where the cursor stands: before the block, in the block with `depth` brackets open in it, or
in its list with `depth` square brackets open in it. -/
inductive State
  | seeking
  | block (start brace depth : Nat) (found : Option ListProperty)
  | list (start brace key bracket depth : Nat)

/-- What a byte of code leads to: the end of the scan, or a state and the offset to read on from. -/
inductive Turn
  | stop (found : Option Declaration)
  | go (state : State) (offset : Nat)

def State.step (text : Bytes) (index : Nat) (b : UInt8) : State → Turn
  | .seeking =>
      match if b == 0x40 then brace? text index else none with
      | some brace => .go (.block index brace 0 none) (brace + 1)
      | none => .go .seeking (index + 1)
  | .block start brace depth found =>
      if isOpener b then .go (.block start brace (depth + 1) found) (index + 1)
      else if isCloser b then
        match depth with
        | 0 =>
            .stop (if b == closeBrace then some ⟨⟨start, blockStop text index, brace, index⟩, found⟩
              else none)
        | depth + 1 => .go (.block start brace depth found) (index + 1)
      else
        match if b == 0x69 && depth == 0 && found.isNone then bracket? text index else none with
        | some bracket => .go (.list start brace index bracket 0) (bracket + 1)
        | none => .go (.block start brace depth found) (index + 1)
  | .list start brace key bracket depth =>
      if b == openBracket then .go (.list start brace key bracket (depth + 1)) (index + 1)
      else if b == closeBracket then
        match depth with
        | 0 =>
            .go (.block start brace 0 (some ⟨key, index + 1, ⟨bracket + 1, index⟩⟩)) (index + 1)
        | depth + 1 => .go (.list start brace key bracket depth) (index + 1)
      else .go (.list start brace key bracket depth) (index + 1)

theorem next?_of_skip? {text : Bytes} {offset : Nat} {b : UInt8} {stop : Option Nat}
    (hb : text[offset]? = some b) (hskip : skip? text b offset = some stop) :
    next? text offset = stop.elim (some (offset, b)) (next? text) := by
  rw [next?]
  split
  · next hnone => cases hb.symm.trans hnone
  · next hsome =>
      cases hb.symm.trans hsome
      split
      · next hnone => cases hskip.symm.trans hnone
      · next hcode =>
          cases hskip.symm.trans hcode
          rfl
      · next hbehind =>
          cases hskip.symm.trans hbehind
          rfl

/-- Literals and comments are passed whole, up to the first byte of code or to the end. -/
theorem next?_of_tokenizes {text rest : Bytes} {items : List Token} {offset : Nat}
    (htokenizes : Tokenizes rest items) (hdrop : text.drop offset = rest) :
    (∃ width, next? text offset = none ∧ codeView rest = List.replicate width none) ∨
      ∃ width b more, next? text offset = some (offset + width, b) ∧
        codeView rest = List.replicate width none ++ some b :: more := by
  induction htokenizes generalizing offset with
  | nil =>
      have hend : text[offset]? = none := by
        rw [← List.head?_drop, hdrop]
        rfl
      refine .inl ⟨0, ?_, rfl⟩
      rw [next?, hend]
  | @cons token rest items htoken _ ih =>
      obtain ⟨b, tail, htext⟩ := List.exists_cons_of_ne_nil htoken.text_ne
      have hb : text[offset]? = some b := by
        rw [htext] at hdrop
        exact (getElem?_of_drop hdrop).1
      have hnext := next?_of_skip? hb (skip?_eq htoken htext hdrop)
      rw [htoken.codeView_append]
      rcases code_or_hidden token offset with ⟨c, rfl⟩ | ⟨hstop, hview⟩
      · obtain ⟨rfl, -⟩ := List.cons.inj htext
        exact .inr ⟨0, c, _, hnext, rfl⟩
      · rw [hstop] at hnext
        rw [hnext, hview]
        rcases ih (drop_of_drop_eq hdrop) with ⟨width, hnone, hrest⟩ |
          ⟨width, c, more, hsome, hrest⟩
        · refine .inl ⟨token.width + width, hnone, ?_⟩
          rw [hrest, List.replicate_append_replicate]
        · refine .inr ⟨token.width + width, c, more, ?_, ?_⟩
          · rw [← Nat.add_assoc]
            exact hsome
          · rw [hrest, ← List.append_assoc, List.replicate_append_replicate]

theorem of_next? {text : Bytes} {offset index : Nat} {b : UInt8}
    (h : next? text offset = some (index, b)) :
    ∃ width rest, index = offset + width ∧
      codeView (text.drop offset) = List.replicate width none ++ some b :: rest := by
  rcases next?_of_tokenizes (tokenizes_iff.mpr rfl) rfl with ⟨width, hnone, -⟩ |
    ⟨width, c, rest, hsome, hview⟩
  · cases hnone.symm.trans h
  · cases hsome.symm.trans h
    exact ⟨width, rest, rfl, hview⟩

theorem eq_replicate_of_next? {text : Bytes} {offset : Nat} (h : next? text offset = none) :
    ∃ width, codeView (text.drop offset) = List.replicate width none := by
  rcases next?_of_tokenizes (tokenizes_iff.mpr rfl) rfl with ⟨width, -, hview⟩ |
    ⟨width, c, rest, hsome, -⟩
  · exact ⟨width, hview⟩
  · cases hsome.symm.trans h

theorem behindBlank?_eq_some_iff {text : Bytes} {offset stop : Nat} {byte : UInt8}
    (hbyte : isAsciiBlank byte = false) :
    behindBlank? byte text offset = some stop ↔
      ∃ blank rest, IsBlank blank ∧ text.drop offset = blank ++ byte :: rest ∧
        stop = offset + blank.length := by
  simp only [behindBlank?, beq_iff_eq]
  constructor
  · intro h
    split at h
    · next hstop =>
        have hsplit :=
          (List.takeWhile_append_dropWhile (p := isAsciiBlank) (l := text.drop offset)).symm
        rw [← List.getElem?_drop, hsplit, List.getElem?_append_right (by simp)] at hstop
        simp only [List.takeWhile_append_dropWhile, Nat.sub_self, ← List.head?_eq_getElem?,
          List.head?_eq_some_iff] at hstop
        obtain ⟨rest, hrest⟩ := hstop
        rw [hrest] at hsplit
        exact ⟨_, rest, List.all_takeWhile, hsplit, (Option.some.inj h).symm⟩
    · cases h
  · rintro ⟨blank, rest, hblank, hdrop, rfl⟩
    rw [hdrop, List.takeWhile_append_of_pos (List.all_eq_true.mp hblank), ← List.getElem?_drop]
    simp [hbyte, hdrop]

theorem brace?_eq_some_iff {text : Bytes} {offset brace : Nat} :
    brace? text offset = some brace ↔
      ∃ blank rest, IsBlank blank ∧ text.drop offset = openingText blank ++ rest ∧
        brace = offset + marker.length + blank.length := by
  simp only [brace?, List.isPrefixOf_iff_prefix]
  constructor
  · intro h
    split at h
    · next hmarker =>
        obtain ⟨tail, htail⟩ := hmarker
        obtain ⟨blank, rest, hblank, hrest, rfl⟩ := (behindBlank?_eq_some_iff rfl).mp h
        rw [drop_of_drop_eq htail.symm] at hrest
        exact ⟨blank, rest, hblank, by rw [← htail, hrest]; simp [openingText], rfl⟩
    · cases h
  · rintro ⟨blank, rest, hblank, hdrop, hstop⟩
    have htail : text.drop offset = marker ++ (blank ++ openBrace :: rest) := by
      rw [hdrop]
      simp [openingText]
    rw [if_pos ⟨_, htail.symm⟩]
    exact (behindBlank?_eq_some_iff rfl).mpr ⟨blank, rest, hblank, drop_of_drop_eq htail, hstop⟩

theorem bracket?_eq_some_iff {text : Bytes} {offset bracket : Nat} :
    bracket? text offset = some bracket ↔
      (text.take offset).getLast?.any isIdent = false ∧ ∃ before after rest, IsBlank before ∧
        IsBlank after ∧ text.drop offset = keyText before after ++ rest ∧
        bracket + 1 = offset + (keyText before after).length := by
  simp only [bracket?]
  constructor
  · intro h
    split at h
    · cases h
    · next hkey =>
        simp only [Bool.not_eq_true, Bool.or_eq_false_iff, Bool.not_eq_false',
          List.isPrefixOf_iff_prefix] at hkey
        obtain ⟨⟨hprevious, tail, htail⟩, -⟩ := hkey
        split at h
        · next colonAt hcolon =>
            obtain ⟨before, more, hbefore, hmore, rfl⟩ := (behindBlank?_eq_some_iff rfl).mp hcolon
            obtain ⟨after, rest, hafter, hrest, rfl⟩ := (behindBlank?_eq_some_iff rfl).mp h
            rw [drop_of_drop_eq htail.symm] at hmore
            have hdrop : text.drop offset = (listKey ++ before ++ [colon]) ++ more := by
              rw [← htail, hmore]
              simp
            have hbehind := drop_of_drop_eq hdrop
            rw [List.length_append, List.length_append, List.length_singleton, ← Nat.add_assoc,
              ← Nat.add_assoc, hrest] at hbehind
            refine ⟨hprevious, before, after, rest, hbefore, hafter, ?_, ?_⟩
            · rw [hdrop, ← hbehind]
              simp [keyText]
            · rw [length_keyText]
              omega
        · cases h
  · rintro ⟨hprevious, before, after, rest, hbefore, hafter, hdrop, hstop⟩
    have htail : text.drop offset =
        listKey ++ (before ++ colon :: (after ++ openBracket :: rest)) := by
      rw [hdrop]
      simp [keyText]
    have hmore : text.drop offset =
        (listKey ++ before ++ [colon]) ++ (after ++ openBracket :: rest) := by
      rw [htail]
      simp
    have hbehind := drop_of_drop_eq hmore
    rw [List.length_append, List.length_append, List.length_singleton, ← Nat.add_assoc,
      ← Nat.add_assoc] at hbehind
    have hnext : text[offset + listKey.length]?.any isIdent = false := by
      rw [← List.getElem?_drop, htail, List.getElem?_append_right (Nat.le_refl _), Nat.sub_self]
      cases before with
      | nil => rfl
      | cons b before =>
          exact not_isIdent_of_isAsciiBlank (List.all_eq_true.mp hbefore b List.mem_cons_self)
    rw [if_neg (by simp [hprevious, hnext, List.isPrefixOf_iff_prefix, htail]),
      (behindBlank?_eq_some_iff rfl).mpr ⟨before, _, hbefore, drop_of_drop_eq htail, rfl⟩]
    refine (behindBlank?_eq_some_iff rfl).mpr ⟨after, rest, hafter, hbehind, ?_⟩
    rw [length_keyText] at hstop
    omega

/-- Text that opens nothing starts a text exactly if it starts its view. -/
theorem exists_append_iff_view {text piece : Bytes} (hplain : piece.all isPlain = true) :
    (∃ rest, text = piece ++ rest) ↔ ∃ rest, codeView text = piece.map some ++ rest := by
  have hprefix := @Mode.map_prefix_view_iff _ text hplain
  constructor
  · rintro ⟨rest, htext⟩
    obtain ⟨view, hview⟩ := hprefix.mpr ⟨rest, htext.symm⟩
    exact ⟨view, hview.symm⟩
  · rintro ⟨view, hview⟩
    obtain ⟨rest, htext⟩ := hprefix.mp ⟨view, hview.symm⟩
    exact ⟨rest, htext.symm⟩

theorem blockStop_eq (text : Bytes) (close : Nat) :
    blockStop text close =
      close + 1 + (separator? closeParen (codeView (text.drop (close + 1)))).getD 0 := by
  have hparen : ∀ blank : Bytes, IsBlank blank →
      ((∃ rest, text.drop (close + 1) = blank ++ closeParen :: rest) ↔
        ∃ rest, codeView (text.drop (close + 1)) = blank.map some ++ some closeParen :: rest) := by
    intro blank hblank
    have hplain : (blank ++ [closeParen]).all isPlain = true := by
      rw [List.all_append, hblank.isPlain]
      decide
    simpa using @exists_append_iff_view (text.drop (close + 1)) _ hplain
  rw [blockStop]
  split
  · next paren hfound =>
      obtain ⟨blank, rest, hblank, hdrop, rfl⟩ := (behindBlank?_eq_some_iff rfl).mp hfound
      obtain ⟨rest, hview⟩ := (hparen blank hblank).mp ⟨rest, hdrop⟩
      rw [(separator?_eq_some_iff rfl).mpr ⟨blank, rest, hblank, hview, rfl⟩]
      rfl
  · next hnone =>
      cases hfound : separator? closeParen (codeView (text.drop (close + 1))) with
      | none => rfl
      | some width =>
          obtain ⟨blank, rest, hblank, hview, -⟩ := (separator?_eq_some_iff rfl).mp hfound
          obtain ⟨rest, hdrop⟩ := (hparen blank hblank).mpr ⟨rest, hview⟩
          rw [(behindBlank?_eq_some_iff rfl).mpr ⟨blank, rest, hblank, hdrop, rfl⟩] at hnone
          cases hnone

theorem State.lt_of_step {text : Bytes} {index offset : Nat} {b : UInt8} {state next : State}
    (h : state.step text index b = .go next offset) : index < offset := by
  cases state with
  | seeking =>
      simp only [step] at h
      split at h
      · next brace hfound =>
          obtain ⟨-, rfl⟩ := Turn.go.inj h
          split at hfound
          · obtain ⟨blank, -, -, -, rfl⟩ := brace?_eq_some_iff.mp hfound
            omega
          · cases hfound
      · cases h
        exact Nat.lt_succ_self index
  | block start brace depth found =>
      simp only [step] at h
      split at h
      · cases h
        exact Nat.lt_succ_self index
      · split at h
        · split at h
          · cases h
          · cases h
            exact Nat.lt_succ_self index
        · split at h
          · next bracket hfound =>
              obtain ⟨-, rfl⟩ := Turn.go.inj h
              split at hfound
              · obtain ⟨-, before, after, -, -, -, -, hbracket⟩ := bracket?_eq_some_iff.mp hfound
                rw [length_keyText] at hbracket
                omega
              · cases hfound
          · cases h
            exact Nat.lt_succ_self index
  | list start brace key bracket depth =>
      simp only [step] at h
      repeat' split at h
      all_goals
        cases h
        exact Nat.lt_succ_self index

theorem lt_of_next? {text : Bytes} {offset index : Nat} {b : UInt8}
    (h : next? text offset = some (index, b)) : offset ≤ index ∧ index < text.length := by
  obtain ⟨width, rest, rfl, hview⟩ := of_next? h
  have hlength := congrArg List.length hview
  simp only [length_codeView, List.length_drop, List.length_append, List.length_replicate,
    List.length_cons] at hlength
  omega

def scanFrom (text : Bytes) (state : State) (offset : Nat) : Option Declaration :=
  match _ : next? text offset with
  | none => none
  | some (index, b) =>
      match _ : state.step text index b with
      | .stop found => found
      | .go next after => scanFrom text next after
termination_by text.length - offset
decreasing_by
  have hindex := lt_of_next? ‹next? text offset = _›
  have hafter := State.lt_of_step ‹_ = Turn.go _ _›
  omega

theorem scanFrom_of_none {text : Bytes} {state : State} {offset : Nat}
    (h : next? text offset = none) : scanFrom text state offset = none := by
  rw [scanFrom]
  split
  · rfl
  · next hnext => cases h.symm.trans hnext

theorem scanFrom_of_next? {text : Bytes} {state : State} {offset index : Nat} {b : UInt8}
    (h : next? text offset = some (index, b)) :
    scanFrom text state offset = match state.step text index b with
      | .stop found => found
      | .go next after => scanFrom text next after := by
  rw [scanFrom]
  split
  · next hnext => cases h.symm.trans hnext
  · next hnext =>
      cases h.symm.trans hnext
      split
      · next hstep => rw [hstep]
      · next hstep => rw [hstep]

def scan (text : Bytes) : Option Declaration :=
  scanFrom text .seeking 0

/-! What is found from a state on, in the code view. -/

def ofClose (view : CodeView) (start brace : Nat) :
    Option (Nat × Option ListProperty) → Option Declaration
  | none => none
  | some (close, list) =>
      let stop := close + 1 + (separator? closeParen (view.drop (close + 1))).getD 0
      some { block := ⟨start, stop, brace, close⟩, list }

def previous (view : CodeView) (offset : Nat) : Option UInt8 :=
  (view.take offset).getLast?.join

def State.found (view : CodeView) (offset : Nat) : State → Option Declaration
  | .seeking =>
      match firstMatch? opening? (view.drop offset) with
      | none => none
      | some (width, braceWidth) =>
          let brace := offset + width + braceWidth
          ofClose view (offset + width) brace
            (close? (.block 0) none (some openBrace) (brace + 1) (view.drop (brace + 1)))
  | .block start brace depth found =>
      ofClose view start brace
        (close? (.block depth) found (previous view offset) offset (view.drop offset))
  | .list start brace key bracket depth =>
      ofClose view start brace
        (close? (.list key bracket depth) none (previous view offset) offset (view.drop offset))

theorem found_seeking (text : Bytes) :
    State.seeking.found (codeView text) 0 = Balanced.scan text := by
  rw [State.found, Balanced.scan, scanView, List.drop_zero]
  cases hfirst : firstMatch? opening? (codeView text) with
  | none => rfl
  | some found =>
      obtain ⟨start, width⟩ := found
      simp only [Nat.zero_add]
      cases hclose : close? (.block 0) none (some openBrace) (start + width + 1)
          ((codeView text).drop (start + width + 1)) with
      | none => rfl
      | some closing => rfl

theorem drop_eq_cons {view : CodeView} {offset : Nat} {code : Option UInt8}
    (hcode : view[offset]? = some code) : view.drop offset = code :: view.drop (offset + 1) := by
  obtain ⟨hlength, rfl⟩ := List.getElem?_eq_some_iff.mp hcode
  exact List.drop_eq_getElem_cons hlength

theorem previous_succ {view : CodeView} {offset : Nat} {code : Option UInt8}
    (hcode : view[offset]? = some code) : previous view (offset + 1) = code := by
  rw [previous, List.take_add_one, hcode]
  simp

theorem found_hidden {view : CodeView} {offset : Nat} (state : State)
    (hview : view[offset]? = some none) :
    state.found view offset = state.found view (offset + 1) := by
  cases state with
  | seeking =>
      have hopening : opening? (none :: view.drop (offset + 1)) = none := rfl
      rw [State.found, State.found, drop_eq_cons hview, firstMatch?, hopening]
      cases firstMatch? opening? (view.drop (offset + 1)) with
      | none => rfl
      | some found =>
          obtain ⟨width, braceWidth⟩ := found
          simp only [Option.map_some, Nat.add_right_comm offset 1 width, Nat.add_assoc offset]
  | block start brace depth found =>
      rw [State.found, State.found, previous_succ hview, drop_eq_cons hview]
      rfl
  | list start brace key bracket depth =>
      rw [State.found, State.found, previous_succ hview, drop_eq_cons hview]
      rfl

section Step

variable {text : Bytes} {index : Nat} {b : UInt8}

/-- Read from here on, the text shows what it shows read from its start. -/
def ReadsFrom (text : Bytes) (offset : Nat) : Prop :=
  (codeView text).drop offset = codeView (text.drop offset)

theorem ReadsFrom.add {offset : Nat} (hreads : ReadsFrom text offset) {piece rest : Bytes}
    (hdrop : text.drop offset = piece ++ rest) (hplain : piece.all isPlain = true) :
    ReadsFrom text (offset + piece.length) := by
  rw [ReadsFrom, ← List.drop_drop, hreads, drop_of_drop_eq hdrop, hdrop,
    codeView_plain_append hplain]
  exact List.drop_left' (List.length_map _)

theorem ReadsFrom.succ (hreads : ReadsFrom text index)
    (hcode : (codeView text)[index]? = some (some b)) : ReadsFrom text (index + 1) := by
  have hview : codeView (text.drop index) = some b :: (codeView text).drop (index + 1) :=
    hreads.symm.trans (drop_eq_cons hcode)
  obtain ⟨⟨tail, htail⟩, -⟩ := Mode.view_eq_some_cons hview
  rw [htail] at hview
  obtain ⟨hshown, hrest⟩ := List.cons.inj hview
  have hstep : Mode.code.step b tail.head? = .code := by
    split at hshown
    · next hreadsCode => exact beq_iff_eq.mp hreadsCode
    · cases hshown
  have hbehind : text.drop (index + 1) = tail := drop_of_drop_eq (show _ = [b] ++ tail from htail)
  rw [ReadsFrom, hbehind, ← hrest, hstep]
  rfl

theorem ReadsFrom.drop_view (hreads : ReadsFrom text index) {piece rest : Bytes}
    (hdrop : text.drop index = piece ++ rest) (hplain : piece.all isPlain = true) :
    (codeView text).drop index = piece.map some ++ codeView rest := by
  rw [hreads, hdrop, codeView_plain_append hplain]

theorem ReadsFrom.exists_drop (hreads : ReadsFrom text index) {piece : Bytes} {rest : CodeView}
    (hview : (codeView text).drop index = piece.map some ++ rest)
    (hplain : piece.all isPlain = true) : ∃ tail, text.drop index = piece ++ tail :=
  (exists_append_iff_view hplain).mpr ⟨rest, hreads.symm.trans hview⟩

theorem getElem?_of_drop_view {view : CodeView} {piece : Bytes} {rest : CodeView} {last : UInt8}
    (hview : view.drop index = (piece ++ [last]).map some ++ rest) :
    view[index + piece.length]? = some (some last) := by
  rw [← List.getElem?_drop, hview]
  simp

def Turn.Agrees (text : Bytes) (found : Option Declaration) : Turn → Prop
  | .stop result => found = result
  | .go next after => found = next.found (codeView text) after ∧ ReadsFrom text after

theorem agrees_seeking (hcode : (codeView text)[index]? = some (some b))
    (hreads : ReadsFrom text index) :
    (State.seeking.step text index b).Agrees text (State.seeking.found (codeView text) index) := by
  rw [State.step]
  split
  · next brace hfound =>
      split at hfound
      · obtain ⟨blank, rest, hblank, hdrop, rfl⟩ := brace?_eq_some_iff.mp hfound
        have hplain := isPlain_openingText hblank
        have hview := hreads.drop_view hdrop hplain
        have hopening := opening?_eq_some_iff.mpr ⟨blank, _, hblank, hview, rfl⟩
        have hbrace := getElem?_of_drop_view hview
        have hbehind := hreads.add hdrop hplain
        rw [List.length_append, ← Nat.add_assoc] at hbrace
        rw [length_openingText, ← Nat.add_assoc, ← Nat.add_assoc] at hbehind
        rw [drop_eq_cons hcode] at hopening
        refine ⟨?_, hbehind⟩
        rw [State.found, State.found, drop_eq_cons hcode, firstMatch?, hopening,
          previous_succ hbrace]
        simp only [Nat.add_zero, ← Nat.add_assoc]
      · cases hfound
  · next hnone =>
      have hopening : opening? ((codeView text).drop index) = none := by
        rw [Option.eq_none_iff_forall_ne_some]
        intro width hwidth
        obtain ⟨blank, rest, hblank, hview, -⟩ := opening?_eq_some_iff.mp hwidth
        obtain ⟨tail, hdrop⟩ := hreads.exists_drop hview (isPlain_openingText hblank)
        obtain rfl : b = 0x40 :=
          Option.some.inj (List.cons.inj ((drop_eq_cons hcode).symm.trans hview)).1
        cases (brace?_eq_some_iff.mpr ⟨blank, tail, hblank, hdrop, rfl⟩).symm.trans hnone
      refine ⟨?_, hreads.succ hcode⟩
      rw [drop_eq_cons hcode] at hopening
      rw [State.found, State.found, drop_eq_cons hcode, firstMatch?, hopening]
      cases firstMatch? opening? ((codeView text).drop (index + 1)) with
      | none => rfl
      | some found =>
          obtain ⟨width, braceWidth⟩ := found
          simp only [Option.map_some, Nat.add_right_comm index 1 width, Nat.add_assoc index]

section Block

variable (start brace : Nat) {depth : Nat} {found : Option ListProperty}
  (hcode : (codeView text)[index]? = some (some b)) (hreads : ReadsFrom text index)
include hcode hreads

theorem agrees_block_pass {next : Nat} (hnext : blockDepth? depth [some b] = some next)
    (hkey : depth = 0 → found = none → b = 0x69 → bracket? text index = none) :
    (Turn.go (.block start brace next found) (index + 1)).Agrees text
      ((State.block start brace depth found).found (codeView text) index) := by
  refine ⟨?_, hreads.succ hcode⟩
  rw [State.found, State.found, previous_succ hcode, drop_eq_cons hcode, close?_block_step hnext]
  intro hdepth hfound
  rw [Option.eq_none_iff_forall_ne_some]
  intro width hwidth
  obtain ⟨hprevious, before, after, rest, hbefore, hafter, hview, -⟩ :=
    listOpening?_eq_some_iff.mp hwidth
  obtain ⟨tail, hdrop⟩ := hreads.exists_drop ((drop_eq_cons hcode).trans hview)
    (isPlain_keyText hbefore hafter)
  obtain rfl : b = 0x69 := Option.some.inj (List.cons.inj hview).1
  have hident := CodeAt.getLast?_take_any_isIdent hcode (by decide)
  have hbracket := bracket?_eq_some_iff.mpr ⟨hident.trans hprevious, before, after, tail, hbefore,
    hafter, hdrop, Nat.sub_add_cancel (by rw [length_keyText]; omega)⟩
  cases hbracket.symm.trans (hkey hdepth hfound rfl)

theorem agrees_block_key {bracket : Nat} (hb : b = 0x69)
    (hbracket : bracket? text index = some bracket) :
    (Turn.go (.list start brace index bracket 0) (bracket + 1)).Agrees text
      ((State.block start brace 0 none).found (codeView text) index) := by
  subst hb
  obtain ⟨hprevious, before, after, rest, hbefore, hafter, hdrop, hstop⟩ :=
    bracket?_eq_some_iff.mp hbracket
  have hident : (text.take index).getLast?.any isIdent =
      (previous (codeView text) index).any isIdent :=
    CodeAt.getLast?_take_any_isIdent hcode (by decide)
  have hplain := isPlain_keyText hbefore hafter
  have hview := hreads.drop_view hdrop hplain
  have hopener : (codeView text)[bracket]? = some (some openBracket) := by
    have hsplit : (codeView text).drop index =
        ((listKey ++ before ++ colon :: after) ++ [openBracket]).map some ++ codeView rest := by
      rw [hview]
      simp [keyText]
    have hwidth : bracket = index + (listKey ++ before ++ colon :: after).length := by
      simp at hstop ⊢
      omega
    rw [hwidth]
    exact getElem?_of_drop_view hsplit
  have hbehind := hreads.add hdrop hplain
  have hrest : text.drop (bracket + 1) = rest := by
    rw [hstop, drop_of_drop_eq hdrop]
  rw [← hstop] at hbehind
  refine ⟨?_, hbehind⟩
  rw [State.found, State.found, hview,
    close?_block_keyText hbefore hafter (hident.symm.trans hprevious), previous_succ hopener,
    ← hstop, Nat.add_sub_cancel, hbehind, hrest]

theorem agrees_block :
    ((State.block start brace depth found).step text index b).Agrees text
      ((State.block start brace depth found).found (codeView text) index) := by
  have hpass := @agrees_block_pass text index b start brace depth found hcode hreads
  simp only [State.step]
  split
  · next hopens =>
      refine hpass (by simp [blockDepth?, depth?, hopens]) ?_
      rintro - - rfl
      cases hopens
  · next hopens =>
      rw [Bool.not_eq_true] at hopens
      split
      · next hcloses =>
          cases depth with
          | zero =>
              have hend : blockDepth? 0 [some b] = none := by
                simp [blockDepth?, depth?, hopens, hcloses]
              rw [Turn.Agrees, State.found, drop_eq_cons hcode, close?_block_end hend,
                blockStop_eq, ← hreads.succ hcode]
              by_cases hbrace : b = closeBrace
              · simp only [hbrace, beq_self_eq_true, if_true]
                rfl
              · simp only [beq_eq_false_iff_ne.mpr hbrace, Option.some.injEq, hbrace, if_false,
                  Bool.false_eq_true]
                rfl
          | succ depth =>
              exact hpass (by simp [blockDepth?, depth?, hopens, hcloses]) (by simp)
      · next hcloses =>
          rw [Bool.not_eq_true] at hcloses
          split
          · next bracket hbracket =>
              split at hbracket
              · next hkey =>
                  simp only [Bool.and_eq_true, beq_iff_eq, Option.isNone_iff_eq_none] at hkey
                  obtain ⟨⟨hb, rfl⟩, rfl⟩ := hkey
                  exact agrees_block_key start brace hcode hreads hb hbracket
              · cases hbracket
          · next hnone =>
              refine hpass (by simp [blockDepth?, depth?, hopens, hcloses]) ?_
              rintro rfl rfl rfl
              exact hnone

end Block

theorem agrees_list (start brace key bracket depth : Nat)
    (hcode : (codeView text)[index]? = some (some b)) (hreads : ReadsFrom text index) :
    ((State.list start brace key bracket depth).step text index b).Agrees text
      ((State.list start brace key bracket depth).found (codeView text) index) := by
  have hsucc := hreads.succ hcode
  have hpass : ∀ {next}, listDepth? depth [some b] = some next →
      (Turn.go (.list start brace key bracket next) (index + 1)).Agrees text
        ((State.list start brace key bracket depth).found (codeView text) index) := by
    intro next hnext
    refine ⟨?_, hsucc⟩
    rw [State.found, State.found, previous_succ hcode, drop_eq_cons hcode, close?_list_step hnext]
  simp only [State.step]
  split
  · next hopens => exact hpass (by simp [listDepth?, depth?, hopens])
  · next hopens =>
      rw [Bool.not_eq_true] at hopens
      split
      · next hcloses =>
          cases depth with
          | zero =>
              have hend : listDepth? 0 [some b] = none := by
                simp [listDepth?, depth?, hopens, hcloses]
              refine ⟨?_, hsucc⟩
              rw [State.found, State.found, previous_succ hcode, drop_eq_cons hcode,
                close?_list_end hend]
          | succ depth =>
              exact hpass (by simp [listDepth?, depth?, hopens, hcloses])
      · next hcloses =>
          rw [Bool.not_eq_true] at hcloses
          exact hpass (by simp [listDepth?, depth?, hopens, hcloses])

end Step

/-! The whole run. -/

theorem found_of_replicate {view rest : CodeView} {offset width : Nat} (state : State)
    (hview : view.drop offset = List.replicate width none ++ rest) :
    state.found view offset = state.found view (offset + width) := by
  induction width generalizing offset with
  | zero => rfl
  | succ width ih =>
      rw [List.replicate_succ, List.cons_append] at hview
      have hhidden : view[offset]? = some none := by
        rw [← Nat.add_zero offset, ← List.getElem?_drop, hview]
        rfl
      have hrest := (List.cons.inj ((drop_eq_cons hhidden).symm.trans hview)).2
      rw [found_hidden state hhidden, ih hrest, Nat.add_assoc, Nat.add_comm 1]

theorem found_of_drop_eq_nil {view : CodeView} {offset : Nat} (state : State)
    (hview : view.drop offset = []) : state.found view offset = none := by
  cases state with
  | seeking =>
      rw [State.found, hview]
      rfl
  | block start brace depth found =>
      rw [State.found, hview]
      rfl
  | list start brace key bracket depth =>
      rw [State.found, hview]
      rfl

theorem ReadsFrom.hidden {text : Bytes} {offset width : Nat} {b : UInt8} {rest : CodeView}
    (hreads : ReadsFrom text offset)
    (hview : codeView (text.drop offset) = List.replicate width none ++ some b :: rest) :
    ReadsFrom text (offset + width) ∧ (codeView text)[offset + width]? = some (some b) := by
  obtain ⟨first, second, hdrop, hfirst, hsecond⟩ := Mode.view_eq_append hview
  obtain ⟨⟨tail, rfl⟩, hmode⟩ := Mode.view_eq_some_cons hsecond
  have hresumes : (Mode.code.after first (b :: tail).head?).Resumes (b :: tail) :=
    hmode.imp_right fun h => .inr ⟨h.1, congrArg some h.2⟩
  have hwidth : first.length = width := by
    have hlength := congrArg List.length hfirst
    rwa [Mode.length_viewBefore, List.length_replicate] at hlength
  have hcode : (codeView text).drop (offset + width) = some b :: rest := by
    rw [← List.drop_drop, hreads, hview]
    exact List.drop_left' List.length_replicate
  constructor
  · rw [ReadsFrom, hcode, ← hwidth, drop_of_drop_eq hdrop, ← hsecond, hresumes.view_eq]
  · rw [← Nat.add_zero (offset + width), ← List.getElem?_drop, hcode]
    rfl

theorem agrees_next {text : Bytes} {offset index : Nat} {b : UInt8}
    (hreads : ReadsFrom text offset) (hnext : next? text offset = some (index, b))
    (state : State) :
    (state.step text index b).Agrees text (state.found (codeView text) offset) := by
  obtain ⟨width, rest, rfl, hview⟩ := of_next? hnext
  obtain ⟨hbehind, hcode⟩ := hreads.hidden hview
  rw [found_of_replicate state (hreads.trans hview)]
  cases state with
  | seeking => exact agrees_seeking hcode hbehind
  | block start brace depth found => exact agrees_block start brace hcode hbehind
  | list start brace key bracket depth =>
      exact agrees_list start brace key bracket depth hcode hbehind

theorem scanFrom_eq (text : Bytes) (state : State) (offset : Nat)
    (hreads : ReadsFrom text offset) :
    scanFrom text state offset = state.found (codeView text) offset := by
  induction state, offset using scanFrom.induct text with
  | case1 state offset hnext =>
      obtain ⟨width, hview⟩ := eq_replicate_of_next? hnext
      have hcode : (codeView text).drop offset = List.replicate width none ++ [] := by
        rw [List.append_nil, hreads, hview]
      have hnil : (codeView text).drop (offset + width) = [] := by
        rw [← List.drop_drop, hcode]
        exact List.drop_left' List.length_replicate
      rw [scanFrom_of_none hnext, found_of_replicate state hcode, found_of_drop_eq_nil state hnil]
  | case2 state offset index b hnext found hstep =>
      have hagrees := agrees_next hreads hnext state
      rw [hstep] at hagrees
      rw [scanFrom_of_next? hnext, hstep]
      exact hagrees.symm
  | case3 state offset index b hnext next after hstep ih =>
      have hagrees := agrees_next hreads hnext state
      rw [hstep] at hagrees
      rw [scanFrom_of_next? hnext, hstep, hagrees.1]
      exact ih hagrees.2

/-- The cursor finds what the scan of the code view finds. -/
theorem scan_eq (text : Bytes) : Cursor.scan text = Balanced.scan text := by
  rw [Cursor.scan, scanFrom_eq text _ 0 rfl, found_seeking]

/-! The bytes of code that a text is told from, as the cursor is told them one by one. -/

def codeBytesFrom (text : Bytes) (offset : Nat) : List (Nat × UInt8) :=
  match _ : next? text offset with
  | none => []
  | some (index, b) => (index, b) :: codeBytesFrom text (index + 1)
termination_by text.length - offset
decreasing_by
  have hindex := lt_of_next? ‹next? text offset = _›
  omega

def codeBytes (text : Bytes) : List (Nat × UInt8) :=
  codeBytesFrom text 0

theorem codeAt_iff_of_next? {text : Bytes} {offset first index : Nat} {b c : UInt8}
    (hreads : ReadsFrom text offset) (hnext : next? text offset = some (first, c))
    (hle : offset ≤ index) :
    CodeAt text index b ↔ (index = first ∧ b = c) ∨ (first + 1 ≤ index ∧ CodeAt text index b) := by
  obtain ⟨width, rest, rfl, hview⟩ := of_next? hnext
  obtain ⟨further, rfl⟩ := Nat.exists_eq_add_of_le hle
  have hshown : (codeView text)[offset + further]? =
      (List.replicate width none ++ some c :: rest)[further]? := by
    rw [← hview, ← hreads, List.getElem?_drop]
  rcases Nat.lt_trichotomy further width with hbefore | rfl | hbehind
  · rw [List.getElem?_append_left (by simpa using hbefore),
      List.getElem?_replicate_of_lt hbefore] at hshown
    simp [CodeAt, hshown, Nat.ne_of_lt hbefore]
  · rw [List.getElem?_append_right (by simp)] at hshown
    simp [CodeAt, hshown, eq_comm]
  · simp [Nat.ne_of_gt hbehind, Nat.add_assoc, Nat.succ_le_of_lt hbehind]

theorem not_codeAt_of_next? {text : Bytes} {offset index : Nat} {b : UInt8}
    (hreads : ReadsFrom text offset) (hnext : next? text offset = none) (hle : offset ≤ index) :
    ¬ CodeAt text index b := by
  obtain ⟨width, hview⟩ := eq_replicate_of_next? hnext
  obtain ⟨further, rfl⟩ := Nat.exists_eq_add_of_le hle
  rw [CodeAt, ← List.getElem?_drop, hreads, hview, List.getElem?_replicate]
  split <;> simp

theorem mem_codeBytesFrom {text : Bytes} {offset index : Nat} {b : UInt8}
    (hreads : ReadsFrom text offset) :
    (index, b) ∈ codeBytesFrom text offset ↔ offset ≤ index ∧ CodeAt text index b := by
  induction offset using codeBytesFrom.induct text with
  | case1 offset hnext =>
      have hnil : codeBytesFrom text offset = [] := by
        rw [codeBytesFrom]
        split
        · rfl
        · next hsome => cases hnext.symm.trans hsome
      rw [hnil, iff_false_left List.not_mem_nil]
      exact fun ⟨hle, hcode⟩ => not_codeAt_of_next? hreads hnext hle hcode
  | case2 offset first c hnext ih =>
      have hcons : codeBytesFrom text offset = (first, c) :: codeBytesFrom text (first + 1) := by
        rw [codeBytesFrom]
        split
        · next hnone => cases hnext.symm.trans hnone
        · next hsome => cases hnext.symm.trans hsome; rfl
      have hle := (lt_of_next? hnext).1
      obtain ⟨width, rest, rfl, hview⟩ := of_next? hnext
      obtain ⟨hbehind, hcode⟩ := hreads.hidden hview
      rw [hcons, List.mem_cons, ih (hbehind.succ hcode), Prod.mk.injEq]
      constructor
      · rintro (⟨rfl, rfl⟩ | ⟨hlt, hat⟩)
        · exact ⟨hle, hcode⟩
        · exact ⟨by omega, hat⟩
      · rintro ⟨hfrom, hat⟩
        exact (codeAt_iff_of_next? hreads hnext hfrom).mp hat

theorem mem_codeBytes {text : Bytes} {index : Nat} {b : UInt8} :
    (index, b) ∈ codeBytes text ↔ CodeAt text index b := by
  rw [codeBytes, @mem_codeBytesFrom text 0 index b rfl, and_iff_right (Nat.zero_le index)]

end Cursor

theorem codeView_ext {text other : Bytes} (hlength : text.length = other.length)
    (hcode : ∀ offset b, CodeAt text offset b ↔ CodeAt other offset b) :
    codeView text = codeView other := by
  refine List.ext_getElem (by simpa using hlength) fun offset htext hother => ?_
  have hshown := fun b => hcode offset b
  simp only [CodeAt, List.getElem?_eq_getElem htext, List.getElem?_eq_getElem hother,
    Option.some.injEq] at hshown
  exact Option.ext hshown

/-- The scan looks at code only: two texts of one length with the same bytes of code, each at the
same offset, have the same declaration, whatever their literals and comments hold. -/
theorem scan_eq_of_codeBytes {text other : Bytes} (hlength : text.length = other.length)
    (hcode : ∀ code, code ∈ Cursor.codeBytes text ↔ code ∈ Cursor.codeBytes other) :
    Cursor.scan text = Cursor.scan other ∧ Balanced.scan text = Balanced.scan other := by
  have hview : codeView text = codeView other := by
    refine codeView_ext hlength fun offset b => ?_
    rw [← Cursor.mem_codeBytes, hcode, Cursor.mem_codeBytes]
  have hscan : Balanced.scan text = Balanced.scan other := congrArg scanView hview
  exact ⟨by rw [Cursor.scan_eq, hscan, Cursor.scan_eq], hscan⟩

/-- A closing brace in a literal and a bracket in a comment, and other bytes in their place. -/
theorem scan_eq_of_codeBytes_listed :
    let text := utf8 "@Component(\x7b a: '\x7d)', imports: [A /* ] */] \x7d)"
    let other := utf8 "@Component(\x7b a: '[,', imports: [A /*'@'*/] \x7d)"
    let declaration : Declaration := ⟨⟨0, 45, 11, 43⟩, some ⟨22, 42, ⟨32, 41⟩⟩⟩
    text ≠ other ∧ Cursor.scan text = some declaration ∧ Cursor.scan other = some declaration := by
  intro text other declaration
  have hview : codeView text = codeView other := by decide +kernel
  have hcode : ∀ code, code ∈ Cursor.codeBytes text ↔ code ∈ Cursor.codeBytes other := by
    intro code
    rw [Cursor.mem_codeBytes, Cursor.mem_codeBytes, CodeAt, CodeAt, hview]
  have hscan : Balanced.scan text = some declaration := by decide +kernel
  obtain ⟨hcursor, hview⟩ := scan_eq_of_codeBytes (by decide +kernel) hcode
  rw [Cursor.scan_eq, hscan] at hcursor
  exact ⟨by decide +kernel, (Cursor.scan_eq text).trans hscan, hcursor.symm⟩

end Extraction.Balanced
