import Mathlib.Data.List.Chain
import Extraction.Text.Bytes
/-!
Where a text can be cut. The encoding of a character goes on with continuation bytes only behind
a byte that is not ASCII, so each ASCII byte starts and ends at a boundary.
-/

namespace Extraction

def Byte.IsAscii (b : UInt8) : Prop :=
  b < 0x80

instance (b : UInt8) : Decidable (Byte.IsAscii b) :=
  inferInstanceAs (Decidable (b < 0x80))

namespace Bytes

open Byte

theorem isContinuation_of_isAscii {b : UInt8} (hb : IsAscii b) : isContinuation b = false := by
  rw [isContinuation, Bool.and_eq_false_iff, decide_eq_false_iff_not]
  exact .inl (UInt8.not_le.mpr hb)

/-- No byte that continues a character stands right behind an ASCII byte. -/
def Unbroken (text : Bytes) : Prop :=
  text.IsChain fun b next => IsAscii b → isContinuation next = false

theorem utf8EncodeChar_unbroken (c : Char) :
    (String.utf8EncodeChar c).head?.any isContinuation = false ∧
      Unbroken (String.utf8EncodeChar c) := by
  have hascii : ∀ {n}, n ≤ 127 → IsAscii (UInt8.ofNat n) := by
    intro n hn
    simp only [IsAscii, UInt8.lt_iff_toNat_lt, UInt8.toNat_ofNat', UInt8.reduceToNat]
    omega
  have hwide : ∀ {n}, 128 ≤ n → n < 256 → ¬ IsAscii (UInt8.ofNat n) := by
    intro n hn hlt
    simp only [IsAscii, UInt8.lt_iff_toNat_lt, UInt8.toNat_ofNat', UInt8.reduceToNat]
    omega
  have hlead : ∀ {n}, 192 ≤ n → n < 256 → isContinuation (UInt8.ofNat n) = false := by
    intro n hn hlt
    simp only [isContinuation, Bool.and_eq_false_iff, decide_eq_false_iff_not,
      UInt8.le_iff_toNat_le, UInt8.lt_iff_toNat_lt, UInt8.toNat_ofNat', UInt8.reduceToNat]
    omega
  have hcons : ∀ {n next rest}, 128 ≤ n → n < 256 → Unbroken (next :: rest) →
      Unbroken (UInt8.ofNat n :: next :: rest) := fun hn hlt hrest =>
    List.isChain_cons_cons.mpr ⟨fun hb => absurd hb (hwide hn hlt), hrest⟩
  unfold String.utf8EncodeChar
  simp only
  split
  · exact ⟨isContinuation_of_isAscii (hascii ‹_›), .singleton _⟩
  · split
    · exact ⟨hlead (by omega) (by omega), hcons (by omega) (by omega) (.singleton _)⟩
    · split
      · exact ⟨hlead (by omega) (by omega), hcons (by omega) (by omega)
          (hcons (by omega) (by omega) (.singleton _))⟩
      · exact ⟨hlead (by omega) (by omega), hcons (by omega) (by omega)
          (hcons (by omega) (by omega) (hcons (by omega) (by omega) (.singleton _)))⟩

theorem unbroken_utf8 (s : String) : Unbroken (utf8 s) := by
  suffices ∀ cs : List Char, (cs.flatMap String.utf8EncodeChar).head?.any isContinuation = false ∧
      Unbroken (cs.flatMap String.utf8EncodeChar) from (this s.toList).2
  intro cs
  induction cs with
  | nil => exact ⟨rfl, .nil⟩
  | cons c cs ih =>
      obtain ⟨hhead, hrest⟩ := ih
      obtain ⟨hlead, hchar⟩ := utf8EncodeChar_unbroken c
      rw [List.flatMap_cons]
      constructor
      · rw [List.head?_append_of_ne_nil _ String.utf8EncodeChar_ne_nil]
        exact hlead
      · refine List.isChain_append.mpr ⟨hchar, hrest, fun b _ next hnext _ => ?_⟩
        rw [hnext] at hhead
        exact hhead

theorem isContinuation_of_mem_tail_utf8EncodeChar {c : Char} {b : UInt8}
    (hb : b ∈ (String.utf8EncodeChar c).tail) : isContinuation b = true := by
  have hcontinues : ∀ {n}, 128 ≤ n → n < 192 → isContinuation (UInt8.ofNat n) = true := by
    intro n hn hlt
    simp only [isContinuation, Bool.and_eq_true, decide_eq_true_iff, UInt8.le_iff_toNat_le,
      UInt8.lt_iff_toNat_lt, UInt8.toNat_ofNat', UInt8.reduceToNat]
    omega
  unfold String.utf8EncodeChar at hb
  simp only at hb
  split at hb
  · cases hb
  · split at hb
    · obtain rfl := List.mem_singleton.mp hb
      exact hcontinues (by omega) (by omega)
    · split at hb
      · simp only [List.tail_cons, List.mem_cons, List.not_mem_nil, or_false] at hb
        rcases hb with rfl | rfl <;> exact hcontinues (by omega) (by omega)
      · simp only [List.tail_cons, List.mem_cons, List.not_mem_nil, or_false] at hb
        rcases hb with rfl | rfl | rfl <;> exact hcontinues (by omega) (by omega)

theorem utf8EncodeChar_append_inj {c d : Char} {s t : Bytes}
    (h : String.utf8EncodeChar c ++ s = String.utf8EncodeChar d ++ t) : c = d := by
  have hdecode : ∀ (c : Char) (s : Bytes),
      (String.utf8EncodeChar c ++ s).toByteArray.utf8DecodeChar? 0 = some c := by
    intro c s
    rw [List.toByteArray_append]
    exact ByteArray.utf8DecodeChar?_utf8EncodeChar_append
  exact Option.some.inj ((hdecode c s).symm.trans (h ▸ hdecode d t))

/-- A character stands in a string where its encoding stands in the text: the encoding of one
character never starts within that of another. -/
theorem mem_of_utf8EncodeChar_infix {c : Char} {s : String}
    (h : String.utf8EncodeChar c <:+: utf8 s) : c ∈ s.toList := by
  obtain ⟨left, right, htext⟩ := h
  rw [List.append_assoc, utf8] at htext
  generalize s.toList = cs at htext ⊢
  induction cs generalizing left with
  | nil => simp [String.utf8EncodeChar_ne_nil] at htext
  | cons d cs ih =>
      rw [List.flatMap_cons] at htext
      rcases List.append_eq_append_iff.mp htext with ⟨more, hchar, hmore⟩ | ⟨more, rfl, hmore⟩
      · cases left with
        | nil =>
            exact List.mem_cons.mpr (.inl (utf8EncodeChar_append_inj htext))
        | cons first left =>
            cases more with
            | nil => exact List.mem_cons_of_mem _ (ih [] hmore)
            | cons b more =>
                have htail : b ∈ (String.utf8EncodeChar d).tail := by
                  rw [hchar]
                  simp
                have hhead : (String.utf8EncodeChar c).head? = some b := by
                  rw [← List.head?_append_of_ne_nil _ String.utf8EncodeChar_ne_nil, hmore]
                  rfl
                have hstart := (utf8EncodeChar_unbroken c).1
                rw [hhead, Option.any_some, isContinuation_of_mem_tail_utf8EncodeChar htail]
                  at hstart
                cases hstart
      · exact List.mem_cons_of_mem _ (ih more hmore.symm)

theorem isBoundary_of_getElem? {text : Bytes} {offset : Nat} {b : UInt8}
    (h : text[offset]? = some b) (hb : IsAscii b) : isBoundary text offset = true := by
  rw [isBoundary, h]
  simp [isContinuation_of_isAscii hb]

namespace Unbroken

variable {text : Bytes}

theorem isBoundary_succ (hunbroken : Unbroken text) {offset : Nat} {b : UInt8}
    (h : text[offset]? = some b) (hb : IsAscii b) : isBoundary text (offset + 1) = true := by
  obtain ⟨hlt, hoffset⟩ := List.getElem?_eq_some_iff.mp h
  cases hnext : text[offset + 1]? with
  | none =>
      have hlength := List.getElem?_eq_none_iff.mp hnext
      rw [isBoundary, hnext]
      simp
      omega
  | some next =>
      obtain ⟨hlt, hsucc⟩ := List.getElem?_eq_some_iff.mp hnext
      have hcontinuation := List.isChain_iff_getElem.mp hunbroken offset hlt
        (hoffset ▸ hb)
      rw [hsucc] at hcontinuation
      rw [isBoundary, hnext]
      simp [hcontinuation]

theorem of_infix {piece : Bytes} (hunbroken : Unbroken text) (hsub : piece <:+: text) :
    Unbroken piece :=
  List.IsChain.infix hunbroken hsub

end Unbroken

end Bytes

end Extraction
