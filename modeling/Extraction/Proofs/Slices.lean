import Extraction.Text.Bytes
/-!
The bytes at the offsets of a text that is written as the pieces around them.
-/

namespace Extraction.Bytes

theorem take_append_slice (text : Bytes) {first second : Nat} (hle : first ≤ second) :
    text.take first ++ text.slice ⟨first, second⟩ = text.take second := by
  obtain ⟨width, rfl⟩ := Nat.exists_eq_add_of_le hle
  simp [slice, List.take_add]

theorem slice_append_drop (text : Bytes) {first second : Nat} (hle : first ≤ second) :
    text.slice ⟨first, second⟩ ++ text.drop second = text.drop first := by
  obtain ⟨width, rfl⟩ := Nat.exists_eq_add_of_le hle
  simp [slice, ← List.drop_drop, List.take_append_drop]

theorem take_slice_drop (text replacement : Bytes) {start first second stop : Nat}
    (hfirst : start ≤ first) (hsecond : second ≤ stop) :
    text.take start ++ (text.slice ⟨start, first⟩ ++
        (replacement ++ (text.slice ⟨second, stop⟩ ++ text.drop stop))) =
      text.take first ++ (replacement ++ text.drop second) := by
  rw [← text.take_append_slice hfirst, ← text.slice_append_drop hsecond, List.append_assoc]

theorem slice_append_slice (text : Bytes) {first second third : Nat} (hfirst : first ≤ second)
    (hsecond : second ≤ third) :
    text.slice ⟨first, second⟩ ++ text.slice ⟨second, third⟩ = text.slice ⟨first, third⟩ := by
  obtain ⟨width, rfl⟩ := Nat.exists_eq_add_of_le hfirst
  obtain ⟨more, rfl⟩ := Nat.exists_eq_add_of_le hsecond
  have hwidth : first + width + more - first = width + more := by omega
  simp only [slice, Nat.add_sub_cancel_left, hwidth, List.take_add, List.drop_drop]

theorem drop_of_drop_eq {text left right : Bytes} {offset : Nat}
    (h : text.drop offset = left ++ right) : text.drop (offset + left.length) = right := by
  rw [← List.drop_drop, h, List.drop_left]

theorem getElem?_of_prefix_drop {text piece : Bytes} {offset : Nat} {b : UInt8}
    (h : b :: piece <+: text.drop offset) : text[offset]? = some b := by
  obtain ⟨rest, hrest⟩ := h
  rw [← Nat.add_zero offset, ← List.getElem?_drop, ← hrest]
  rfl

theorem slice_of_prefix_drop {text piece : Bytes} {offset : Nat}
    (h : piece <+: text.drop offset) : text.slice ⟨offset, offset + piece.length⟩ = piece := by
  obtain ⟨rest, hrest⟩ := h
  rw [slice, ← hrest, Nat.add_sub_cancel_left, List.take_left]

theorem slice_succ {text : Bytes} {offset : Nat} {b : UInt8} (h : text[offset]? = some b) :
    text.slice ⟨offset, offset + 1⟩ = [b] := by
  obtain ⟨hlt, hget⟩ := List.getElem?_eq_some_iff.mp h
  rw [slice, Nat.add_sub_cancel_left, List.drop_eq_getElem_cons hlt, hget]
  rfl

theorem slice?_eq_some_iff {text piece : Bytes} {span : Span} :
    text.slice? span = some piece ↔ span.fits text = true ∧ text.slice span = piece := by
  unfold slice?
  split
  · next hfits => simp [hfits]
  · next hfits => simp [hfits]

section Pieces

variable {text left middle right : Bytes}

theorem getElem?_of_eq_append {b : UInt8} (htext : text = left ++ b :: right) {offset : Nat}
    (hoffset : offset = left.length) : text[offset]? = some b := by
  rw [htext, hoffset, List.getElem?_append_right (Nat.le_refl _), Nat.sub_self]
  rfl

theorem slice_of_eq_append (htext : text = left ++ (middle ++ right)) {span : Span}
    (hstart : span.start = left.length) (hstop : span.stop = left.length + middle.length) :
    text.slice span = middle := by
  rw [slice, htext, hstart, hstop, List.drop_left, Nat.add_sub_cancel_left, List.take_left]

end Pieces

end Extraction.Bytes
