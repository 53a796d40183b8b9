import Extraction.Text.Bytes
/-!
Searching a list. A search finds a match exactly if there is one with none before it, and what it
finds is the text in front of the match.
-/

namespace Extraction

theorem firstMatch?_eq_some_iff {pattern : List α → Option β} {items : List α} {offset : Nat}
    {found : β} :
    firstMatch? pattern items = some (offset, found) ↔
      ∃ lead rest, items = lead ++ rest ∧ offset = lead.length ∧ pattern rest = some found ∧
        ∀ left right, lead = left ++ right → right ≠ [] → pattern (right ++ rest) = none := by
  induction items generalizing offset with
  | nil =>
      constructor
      · intro h
        obtain ⟨match_, hmatch, heq⟩ := Option.map_eq_some_iff.mp h
        cases heq
        exact ⟨[], [], rfl, rfl, hmatch, by simp⟩
      · rintro ⟨lead, rest, hitems, rfl, hmatch, -⟩
        obtain ⟨rfl, rfl⟩ := List.append_eq_nil_iff.mp hitems.symm
        simp [firstMatch?, hmatch]
  | cons item items ih =>
      simp only [firstMatch?]
      constructor
      · intro h
        split at h
        · next found' hmatch =>
            cases h
            exact ⟨[], item :: items, rfl, rfl, hmatch, by simp⟩
        · next hnone =>
            obtain ⟨⟨offset', found'⟩, hmatch, heq⟩ := Option.map_eq_some_iff.mp h
            cases heq
            obtain ⟨lead, rest, rfl, rfl, hfound, hfree⟩ := ih.mp hmatch
            refine ⟨item :: lead, rest, rfl, rfl, hfound, ?_⟩
            intro left right hlead hright
            cases left with
            | nil =>
                obtain rfl : item :: lead = right := hlead
                exact hnone
            | cons first left =>
                exact hfree left right (List.cons.inj hlead).2 hright
      · rintro ⟨lead, rest, hitems, rfl, hmatch, hfree⟩
        cases lead with
        | nil =>
            obtain rfl : item :: items = rest := hitems
            simp [hmatch]
        | cons first lead =>
            obtain ⟨rfl, hrest⟩ := List.cons.inj hitems
            have hrest : items = lead ++ rest := hrest
            have hnone : pattern (item :: items) = none :=
              hrest ▸ hfree [] (item :: lead) rfl (by simp)
            rw [hnone, ih.mpr ⟨lead, rest, hrest, rfl, hmatch, fun left right hlead =>
              hfree (item :: left) right (by rw [hlead]; rfl)⟩]
            rfl

theorem firstMatch?_eq_none_iff {pattern : List α → Option β} {items : List α} :
    firstMatch? pattern items = none ↔
      ∀ left right, items = left ++ right → pattern right = none := by
  induction items with
  | nil =>
      simp only [firstMatch?, Option.map_eq_none_iff]
      constructor
      · intro hnone left right hitems
        obtain ⟨-, rfl⟩ := List.append_eq_nil_iff.mp hitems.symm
        exact hnone
      · exact fun hnone => hnone [] [] rfl
  | cons item items ih =>
      constructor
      · intro h left right hitems
        simp only [firstMatch?] at h
        cases left with
        | nil =>
            obtain rfl : item :: items = right := hitems
            split at h
            · cases h
            · assumption
        | cons first left =>
            split at h
            · cases h
            · exact ih.mp (Option.map_eq_none_iff.mp h) left right (List.cons.inj hitems).2
      · intro hnone
        rw [firstMatch?, hnone [] _ rfl]
        simp only [Option.map_eq_none_iff]
        exact ih.mpr fun left right hitems => hnone (item :: left) right (by rw [hitems]; rfl)

theorem exists_of_append_eq_append_cons {left right lead rest : List α} {a : α}
    (h : left ++ right = lead ++ a :: rest) (hleft : a ∉ left) :
    ∃ middle, lead = left ++ middle ∧ right = middle ++ a :: rest := by
  rcases List.append_eq_append_iff.mp h with ⟨middle, hlead, hright⟩ | ⟨middle, rfl, hmiddle⟩
  · exact ⟨middle, hlead, hright⟩
  · cases middle with
    | nil => exact ⟨[], by simp, hmiddle.symm⟩
    | cons b middle =>
        obtain ⟨rfl, -⟩ := List.cons.inj hmiddle
        exact absurd (List.mem_append_right _ List.mem_cons_self) hleft

theorem exists_of_append_eq_append_cons_of_not_mem {left right lead rest : List α} {a : α}
    (h : left ++ right = lead ++ a :: rest) (hright : a ∉ right) :
    ∃ middle, left = lead ++ a :: middle ∧ rest = middle ++ right := by
  rcases List.append_eq_append_iff.mp h with ⟨middle, rfl, rfl⟩ | ⟨middle, rfl, hmiddle⟩
  · simp at hright
  · cases middle with
    | nil =>
        obtain rfl : right = a :: rest := hmiddle.symm
        simp at hright
    | cons b middle =>
        obtain ⟨rfl, rfl⟩ := List.cons.inj hmiddle
        exact ⟨middle, rfl, rfl⟩

namespace Bytes

variable {needle : Bytes}

theorem indexOf?_eq_firstMatch? (text : Bytes) :
    indexOf? needle text =
      (firstMatch? (fun rest => if needle.isPrefixOf rest then some () else none) text).map
        (·.1) := by
  induction text with
  | nil => cases needle <;> rfl
  | cons b text ih =>
      rw [indexOf?, firstMatch?, ih]
      cases needle.isPrefixOf (b :: text) with
      | true => rfl
      | false => simp [Function.comp_def]

theorem indexOf?_eq_some_iff {text : Bytes} {offset : Nat} :
    indexOf? needle text = some offset ↔
      ∃ lead rest, text = lead ++ rest ∧ offset = lead.length ∧ needle <+: rest ∧
        ∀ left right, lead = left ++ right → right ≠ [] → ¬ needle <+: right ++ rest := by
  have hstart : ∀ rest, (if needle.isPrefixOf rest then some () else none) = some () ↔
      needle <+: rest := by
    intro rest
    rw [← List.isPrefixOf_iff_prefix]
    simp
  have hnone : ∀ rest, (if needle.isPrefixOf rest then some () else none) = none ↔
      ¬ needle <+: rest := by
    intro rest
    rw [← List.isPrefixOf_iff_prefix]
    simp
  rw [indexOf?_eq_firstMatch?, Option.map_eq_some_iff]
  constructor
  · rintro ⟨⟨start, ⟨⟩⟩, hfirst, rfl⟩
    obtain ⟨lead, rest, rfl, rfl, hrest, hfree⟩ := firstMatch?_eq_some_iff.mp hfirst
    exact ⟨lead, rest, rfl, rfl, (hstart rest).mp hrest,
      fun left right hlead hright => (hnone _).mp (hfree left right hlead hright)⟩
  · rintro ⟨lead, rest, rfl, rfl, hrest, hfree⟩
    exact ⟨(lead.length, ()), firstMatch?_eq_some_iff.mpr ⟨lead, rest, rfl, rfl,
      (hstart rest).mpr hrest,
      fun left right hlead hright => (hnone _).mpr (hfree left right hlead hright)⟩, rfl⟩

theorem indexOf?_singleton_eq_some_iff {b : UInt8} {text : Bytes} {offset : Nat} :
    indexOf? [b] text = some offset ↔
      ∃ lead rest, text = lead ++ b :: rest ∧ offset = lead.length ∧ b ∉ lead := by
  rw [indexOf?_eq_some_iff]
  constructor
  · rintro ⟨lead, rest, rfl, rfl, ⟨tail, rfl⟩, hfree⟩
    refine ⟨lead, tail, rfl, rfl, fun hmem => ?_⟩
    obtain ⟨left, right, rfl⟩ := List.append_of_mem hmem
    exact hfree left (b :: right) rfl (by simp) ⟨right ++ b :: tail, by simp⟩
  · rintro ⟨lead, rest, rfl, rfl, hmem⟩
    refine ⟨lead, b :: rest, rfl, rfl, ⟨rest, rfl⟩, ?_⟩
    rintro left right rfl hright ⟨tail, htail⟩
    cases right with
    | nil => contradiction
    | cons first right =>
        obtain ⟨rfl, -⟩ := List.cons.inj htail
        simp at hmem

theorem contains_iff {text : Bytes} : text.contains needle = true ↔ needle <:+: text := by
  induction text with
  | nil => cases needle <;> simp [contains, indexOf?]
  | cons b text ih =>
      rw [List.infix_cons_iff, ← ih, contains, indexOf?, contains,
        ← List.isPrefixOf_iff_prefix]
      cases needle.isPrefixOf (b :: text) <;> simp

end Bytes

end Extraction
