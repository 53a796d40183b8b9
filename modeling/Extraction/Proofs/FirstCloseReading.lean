import Extraction.Proofs.ScanResult
import Mathlib.Order.Bounds.Basic
/-!
The plain text heuristic read by offsets. The declaration that it finds is the one whose block
starts at the least offset of a marker with its brace and ends at the least offset of `})` behind
that, and whose list stands at the least offset of the block's text at which a key with its bracket
stands that any later bracket closes. There is no other.
-/

namespace Extraction

open Byte Bytes
open Extraction.Balanced (openingText keyText length_openingText length_keyText)

def Bytes.OccursAt (piece text : Bytes) (offset : Nat) : Prop :=
  piece <+: text.drop offset

/-! A search finds what it looks for at the least offset. -/

section Search

variable {pattern : List α → Option β} {items : List α}

theorem isLeast_of_firstMatch? {offset : Nat} {found : β}
    (h : firstMatch? pattern items = some (offset, found)) :
    IsLeast {i | pattern (items.drop i) ≠ none} offset ∧
      pattern (items.drop offset) = some found := by
  obtain ⟨lead, rest, rfl, rfl, hfound, hfree⟩ := firstMatch?_eq_some_iff.mp h
  have hdrop : (lead ++ rest).drop lead.length = rest := List.drop_left
  refine ⟨⟨?_, fun i hi => ?_⟩, hdrop.symm ▸ hfound⟩
  · exact Option.ne_none_iff_exists'.mpr ⟨found, hdrop.symm ▸ hfound⟩
  · by_contra hle
    have hlt : i < lead.length := Nat.lt_of_not_le hle
    refine hi ?_
    rw [List.drop_append_of_le_length (Nat.le_of_lt hlt)]
    refine hfree (lead.take i) (lead.drop i) (List.take_append_drop i lead).symm ?_
    exact fun hnil => hle (List.drop_eq_nil_iff.mp hnil)

theorem eq_none_of_firstMatch? (h : firstMatch? pattern items = none) (offset : Nat) :
    pattern (items.drop offset) = none :=
  firstMatch?_eq_none_iff.mp h _ _ (List.take_append_drop offset items).symm

variable {piece text : Bytes} {base : Nat}

theorem occursAt_iff_isPrefixOf {offset : Nat} :
    OccursAt piece text (base + offset) ↔
      (if piece.isPrefixOf ((text.drop base).drop offset) then some () else none) ≠ none := by
  simp [OccursAt]

theorem isLeast_of_indexOf? {width : Nat} (h : indexOf? piece (text.drop base) = some width) :
    IsLeast {i | base ≤ i ∧ OccursAt piece text i} (base + width) := by
  rw [indexOf?_eq_firstMatch?] at h
  obtain ⟨⟨_, found⟩, hfirst, rfl⟩ := Option.map_eq_some_iff.mp h
  obtain ⟨⟨hfound, hleast⟩, -⟩ := isLeast_of_firstMatch? hfirst
  refine ⟨⟨Nat.le_add_right _ _, occursAt_iff_isPrefixOf.mpr hfound⟩, ?_⟩
  rintro i ⟨hbase, hi⟩
  obtain ⟨more, rfl⟩ := Nat.exists_eq_add_of_le hbase
  exact Nat.add_le_add_left (hleast (occursAt_iff_isPrefixOf.mp hi)) base

theorem not_occursAt_of_indexOf? (h : indexOf? piece (text.drop base) = none) {offset : Nat}
    (hbase : base ≤ offset) : ¬ OccursAt piece text offset := by
  rw [indexOf?_eq_firstMatch?, Option.map_eq_none_iff] at h
  obtain ⟨more, rfl⟩ := Nat.exists_eq_add_of_le hbase
  exact fun hoccurs => occursAt_iff_isPrefixOf.mp hoccurs (eq_none_of_firstMatch? h more)

end Search

namespace FirstClose

/-- A marker, white space and a brace stand at `start`, the brace at `brace`. -/
def OpensAt (text : Bytes) (start brace : Nat) : Prop :=
  ∃ white, IsWhite white ∧ OccursAt (openingText white) text start ∧
    brace = start + marker.length + white.length

/-- A key, a colon and a bracket stand at `start` with white space between them; behind the
bracket is `inner`. -/
def KeyAt (text : Bytes) (start inner : Nat) : Prop :=
  ∃ before after, IsWhite before ∧ IsWhite after ∧
    OccursAt (keyText before after) text start ∧ inner = start + (keyText before after).length

/-- A key with its bracket stands at `start`, and some later bracket closes it. -/
def ListAt (text : Bytes) (start : Nat) : Prop :=
  ∃ inner close, KeyAt text start inner ∧ inner ≤ close ∧ OccursAt [closeBracket] text close

/-- How the heuristic reads the list of a block, by offsets of the block's text. -/
def ReadsList (text : Bytes) (block : Block) : Option ListProperty → Prop
  | none => ∀ start, ¬ ListAt (text.slice block.span) start
  | some list =>
      ∃ start inner close, IsLeast {i | ListAt (text.slice block.span) i} start ∧
        KeyAt (text.slice block.span) start inner ∧
        IsLeast {i | inner ≤ i ∧ OccursAt [closeBracket] (text.slice block.span) i} close ∧
        list = ⟨block.start + start, block.start + close + 1,
          ⟨block.start + inner, block.start + close⟩⟩ ∧
        block.openBrace < list.start ∧ list.stop ≤ block.closeBrace

/-- How the heuristic reads a declaration. -/
structure Reads (text : Bytes) (declaration : Declaration) : Prop where
  start : IsLeast {i | ∃ brace, OpensAt text i brace} declaration.block.start
  openBrace : OpensAt text declaration.block.start declaration.block.openBrace
  openBrace_lt : declaration.block.openBrace < declaration.block.closeBrace
  closeBrace : IsLeast {i | declaration.block.start < i ∧
    OccursAt [Byte.closeBrace, closeParen] text i} declaration.block.closeBrace
  stop : declaration.block.stop = declaration.block.closeBrace + 2
  list : ReadsList text declaration.block declaration.list

section Offsets

variable {text : Bytes} {start : Nat}

theorem opensAt_of_opening? {width : Nat} (h : opening? (text.drop start) = some width) :
    OpensAt text start (start + width - 1) := by
  obtain ⟨white, rest, hwhite, htext, rfl⟩ := opening?_eq_some_iff.mp h
  refine ⟨white, hwhite, ⟨rest, htext.symm⟩, ?_⟩
  rw [length_openingText]
  omega

theorem OpensAt.start_le {brace : Nat} (h : OpensAt text start brace) : start ≤ brace := by
  obtain ⟨white, -, -, rfl⟩ := h
  omega

theorem OpensAt.opening?_ne_none {brace : Nat} (h : OpensAt text start brace) :
    opening? (text.drop start) ≠ none := by
  obtain ⟨white, hwhite, ⟨rest, htext⟩, -⟩ := h
  exact Option.ne_none_iff_exists'.mpr
    ⟨_, opening?_eq_some_iff.mpr ⟨white, rest, hwhite, htext.symm, rfl⟩⟩

theorem OpensAt.unique {first second : Nat} (hfirst : OpensAt text start first)
    (hsecond : OpensAt text start second) : first = second := by
  obtain ⟨white, hwhite, ⟨rest, htext⟩, rfl⟩ := hfirst
  obtain ⟨white', hwhite', ⟨rest', htext'⟩, rfl⟩ := hsecond
  have hopening := opening?_eq_some_iff.mpr ⟨white, rest, hwhite, htext.symm, rfl⟩
  have hopening' := opening?_eq_some_iff.mpr ⟨white', rest', hwhite', htext'.symm, rfl⟩
  have hwidth := Option.some.inj (hopening.symm.trans hopening')
  rw [length_openingText, length_openingText] at hwidth
  omega

theorem OpensAt.lt_of_occursAt {brace offset : Nat} (h : OpensAt text start brace)
    (hle : start ≤ offset) (hoccurs : OccursAt [closeBrace, closeParen] text offset) :
    brace < offset := by
  obtain ⟨white, hwhite, ⟨rest, htext⟩, rfl⟩ := h
  obtain ⟨width, rfl⟩ := Nat.exists_eq_add_of_le hle
  obtain ⟨tail, htail⟩ := hoccurs
  by_contra hlt
  have hwidth : width < (openingText white).length := by
    rw [length_openingText]
    omega
  rw [← List.drop_drop, ← htext, List.drop_append_of_le_length (Nat.le_of_lt hwidth),
    List.drop_eq_getElem_cons hwidth] at htail
  refine not_mem_openingText hwhite (show IsVisible closeBrace by decide) (by decide) ?_
  rw [(List.cons.inj htail).1]
  exact List.getElem_mem hwidth

theorem listOpening?_drop_eq_some_iff {width : Nat} :
    listOpening? (text.drop start) = some width ↔ KeyAt text start (start + width) := by
  rw [listOpening?_eq_some_iff]
  constructor
  · rintro ⟨before, after, rest, hbefore, hafter, htext, rfl⟩
    exact ⟨before, after, hbefore, hafter, ⟨rest, htext.symm⟩, rfl⟩
  · rintro ⟨before, after, hbefore, hafter, ⟨rest, htext⟩, hwidth⟩
    exact ⟨before, after, rest, hbefore, hafter, htext.symm, Nat.add_left_cancel hwidth⟩

theorem KeyAt.exists_width {inner : Nat} (h : KeyAt text start inner) :
    ∃ width, inner = start + width ∧ listOpening? (text.drop start) = some width := by
  obtain ⟨before, after, hbefore, hafter, hoccurs, rfl⟩ := h
  exact ⟨_, rfl, listOpening?_drop_eq_some_iff.mpr ⟨before, after, hbefore, hafter, hoccurs, rfl⟩⟩

theorem KeyAt.unique {first second : Nat} (hfirst : KeyAt text start first)
    (hsecond : KeyAt text start second) : first = second := by
  obtain ⟨width, rfl, hwidth⟩ := hfirst.exists_width
  obtain ⟨width', rfl, hwidth'⟩ := hsecond.exists_width
  rw [Option.some.inj (hwidth.symm.trans hwidth')]

theorem of_list? {contents : Span} (h : list? (text.drop start) = some contents) :
    KeyAt text start (start + contents.start) ∧
      IsLeast {i | start + contents.start ≤ i ∧ OccursAt [closeBracket] text i}
        (start + contents.stop) := by
  rw [list?] at h
  split at h
  · next width hopening =>
      obtain ⟨close, hclose, rfl⟩ := Option.map_eq_some_iff.mp h
      rw [List.drop_drop] at hclose
      refine ⟨listOpening?_drop_eq_some_iff.mp hopening, ?_⟩
      rw [← Nat.add_assoc]
      exact isLeast_of_indexOf? hclose
  · cases h

theorem list?_drop_ne_none_iff : list? (text.drop start) ≠ none ↔ ListAt text start := by
  constructor
  · intro h
    obtain ⟨contents, hcontents⟩ := Option.ne_none_iff_exists'.mp h
    obtain ⟨hkey, ⟨hle, hclose⟩, -⟩ := of_list? hcontents
    exact ⟨_, _, hkey, hle, hclose⟩
  · rintro ⟨inner, close, hkey, hle, hclose⟩ hnone
    obtain ⟨width, rfl, hopening⟩ := hkey.exists_width
    rw [list?, hopening] at hnone
    have hindex := Option.map_eq_none_iff.mp hnone
    rw [List.drop_drop] at hindex
    exact not_occursAt_of_indexOf? hindex hle hclose

end Offsets

/-! What is found is read so. -/

theorem readsList_of_findList {text : Bytes} {block : Block} {found : Option ListProperty}
    (h : findList block.start (text.slice block.span) = found)
    (hinside : ∀ list, found = some list →
      block.openBrace < list.start ∧ list.stop ≤ block.closeBrace) :
    ReadsList text block found := by
  cases found with
  | none =>
      intro start hlist
      rw [findList, Option.map_eq_none_iff] at h
      exact list?_drop_ne_none_iff.mpr hlist (eq_none_of_firstMatch? h start)
  | some list =>
      obtain ⟨⟨start, contents⟩, hfirst, hlist⟩ := Option.map_eq_some_iff.mp h
      obtain ⟨hleast, hfound⟩ := isLeast_of_firstMatch? hfirst
      simp only [list?_drop_ne_none_iff] at hleast
      obtain ⟨hkey, hclose⟩ := of_list? hfound
      refine ⟨start, _, _, hleast, hkey, hclose, ?_, hinside list rfl⟩
      rw [← hlist]
      simp only [Nat.add_assoc]

theorem reads_of_scan {text : Bytes} {declaration : Declaration}
    (h : scan text = some declaration) : Reads text declaration := by
  have hstands := standsIn_of_scan h
  rw [scan] at h
  split at h
  · cases h
  · next start width hfirst =>
      split at h
      · cases h
      · next close hclose =>
          cases h
          obtain ⟨⟨-, hleast⟩, hopening⟩ := isLeast_of_firstMatch? hfirst
          have hopens := opensAt_of_opening? hopening
          obtain ⟨⟨hle, hoccurs⟩, hleastClose⟩ := isLeast_of_indexOf? hclose
          have hlt := hopens.lt_of_occursAt hle hoccurs
          have hpositive := Nat.lt_of_le_of_lt hopens.start_le hlt
          exact
            { start := ⟨⟨_, hopens⟩, fun i hi => hleast (hi.elim fun _ => OpensAt.opening?_ne_none)⟩
              openBrace := hopens
              openBrace_lt := hlt
              closeBrace := ⟨⟨hpositive, hoccurs⟩, fun i hi =>
                hleastClose ⟨Nat.le_of_lt hi.1, hi.2⟩⟩
              stop := rfl
              list := readsList_of_findList rfl fun list hlist =>
                ⟨(hstands.list list hlist).openBrace_lt, (hstands.list list hlist).stop_le⟩ }

/-! A text has one reading at most. -/

theorem ReadsList.unique {text : Bytes} {block : Block} {first second : Option ListProperty}
    (hfirst : ReadsList text block first) (hsecond : ReadsList text block second) :
    first = second := by
  cases first with
  | none =>
      cases second with
      | none => rfl
      | some list =>
          obtain ⟨start, -, -, hstart, -⟩ := hsecond
          exact absurd hstart.1 (hfirst start)
  | some list =>
      obtain ⟨start, inner, close, hstart, hkey, hclose, rfl, -⟩ := hfirst
      cases second with
      | none => exact absurd hstart.1 (hsecond start)
      | some list' =>
          obtain ⟨start', inner', close', hstart', hkey', hclose', rfl, -⟩ := hsecond
          obtain rfl := hstart.unique hstart'
          obtain rfl := hkey.unique hkey'
          obtain rfl := hclose.unique hclose'
          rfl

theorem Reads.unique {text : Bytes} {first second : Declaration} (hfirst : Reads text first)
    (hsecond : Reads text second) : first = second := by
  obtain ⟨⟨start, stop, openBrace, closeBrace⟩, list⟩ := first
  obtain ⟨⟨start', stop', openBrace', closeBrace'⟩, list'⟩ := second
  obtain rfl : start = start' := hfirst.start.unique hsecond.start
  obtain rfl : openBrace = openBrace' := hfirst.openBrace.unique hsecond.openBrace
  obtain rfl : closeBrace = closeBrace' := hfirst.closeBrace.unique hsecond.closeBrace
  obtain rfl : stop = stop' := hfirst.stop.trans hsecond.stop.symm
  obtain rfl : list = list' := hfirst.list.unique hsecond.list
  rfl

theorem exists_scan {text : Bytes} {start close : Nat}
    (hstart : IsLeast {i | ∃ brace, OpensAt text i brace} start) (hlt : start < close)
    (hclose : OccursAt [closeBrace, closeParen] text close) :
    ∃ declaration, scan text = some declaration := by
  obtain ⟨brace, hopens⟩ := hstart.1
  cases hfirst : firstMatch? opening? text with
  | none => exact absurd (eq_none_of_firstMatch? hfirst start) hopens.opening?_ne_none
  | some found =>
      obtain ⟨first, width⟩ := found
      obtain ⟨⟨-, hleast⟩, hopening⟩ := isLeast_of_firstMatch? hfirst
      have hle : first ≤ close :=
        Nat.le_trans (hleast hopens.opening?_ne_none) (Nat.le_of_lt hlt)
      cases hindex : indexOf? [closeBrace, closeParen] (text.drop first) with
      | none => exact absurd hclose (not_occursAt_of_indexOf? hindex hle)
      | some offset => exact ⟨_, by rw [scan, hfirst]; simp only [hindex]; rfl⟩

/-- The heuristic finds a declaration exactly if `})` stands behind the first marker with its
brace, and what it finds is the reading of the text. -/
theorem scan_reading (text : Bytes) :
    ((scan text).isSome ↔ ∃ start, IsLeast {i | ∃ brace, OpensAt text i brace} start ∧
        ∃ close, start < close ∧ OccursAt [closeBrace, closeParen] text close) ∧
      ∀ declaration, scan text = some declaration ↔ Reads text declaration := by
  have hexists : ∀ {declaration}, Reads text declaration → (scan text).isSome := by
    intro declaration hreads
    obtain ⟨found, hfound⟩ := exists_scan hreads.start hreads.closeBrace.1.1 hreads.closeBrace.1.2
    rw [hfound]
    rfl
  refine ⟨⟨?_, ?_⟩, fun declaration => ⟨reads_of_scan, fun hreads => ?_⟩⟩
  · intro hsome
    obtain ⟨declaration, h⟩ := Option.isSome_iff_exists.mp hsome
    have hreads := reads_of_scan h
    exact ⟨_, hreads.start, _, hreads.closeBrace.1⟩
  · rintro ⟨start, hstart, close, hlt, hclose⟩
    exact Option.isSome_iff_exists.mpr (exists_scan hstart hlt hclose)
  · obtain ⟨found, hfound⟩ := Option.isSome_iff_exists.mp (hexists hreads)
    rw [hfound, hreads.unique (reads_of_scan hfound)]

example : scan (utf8 "@Component(\x7b imports: [f(\x7b\x7d), A] \x7d)") =
    some ⟨⟨0, 28, 11, 26⟩, none⟩ := by
  decide +kernel

end FirstClose

end Extraction
