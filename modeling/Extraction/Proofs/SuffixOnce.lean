import Extraction.Proofs.PascalCase
/-!
Class names under the policy that adds the suffix only where it is missing. A capitalized word ends
the Pascal case of an identifier exactly if it is the last segment, so the name of a slug ends in
the suffix, and what is left without it ends so again only if the slug itself repeats the word.
-/

namespace Extraction

theorem IsSlug.forall_segments {cs : List Char} (hslug : IsSlug cs) :
    ∀ segment ∈ segments cs, segment ≠ [] ∧ segment.all isSlugChar = true := by
  have hsegment : ∀ {segment : List Char}, segment.all isSlugChar = true →
      segments segment = [segment] := by
    intro segment hall
    refine List.splitOn_eq_singleton fun hmem => ?_
    exact absurd (List.all_eq_true.mp hall _ hmem) (by decide)
  induction hslug with
  | segment hne hall =>
      intro segment hmem
      rw [hsegment hall] at hmem
      obtain rfl := List.mem_singleton.mp hmem
      exact ⟨hne, hall⟩
  | hyphen hne hall _ ih =>
      intro segment hmem
      rw [segments_append, hsegment hall, List.singleton_append, List.mem_cons] at hmem
      rcases hmem with rfl | hmem
      · exact ⟨hne, hall⟩
      · exact ih segment hmem

section Word

variable {pieces : List (List Char)} {word : List Char}
  (hpieces : ∀ piece ∈ pieces, piece ≠ [] ∧ piece.all isSlugChar = true)
  (hne : word ≠ []) (hword : word.all isSmallLetter = true)
include hpieces hne hword

/-- A capitalized word at the end of slug segments neither starts within the last of them nor goes
on from one to the next: its capital is in no slug, and no segment goes on with a small letter. -/
theorem exists_initial_of_word {stem : List Char}
    (h : pieces.flatMap capitalized = stem ++ capitalized word) :
    ∃ initial, pieces = initial ++ [word] ∧ stem = initial.flatMap capitalized := by
  cases word with
  | nil => exact absurd rfl hne
  | cons d word =>
      rw [List.all_cons, Bool.and_eq_true] at hword
      refine exists_initial_of_flatMap_capitalized (isSlugChar_of_isSmallLetter hword.1) ?_ h
      intro piece hpiece
      obtain ⟨hne, hall⟩ := hpieces piece hpiece
      cases piece with
      | nil => exact absurd rfl hne
      | cons c rest =>
          rw [List.all_cons, Bool.and_eq_true] at hall
          refine ⟨c, rest, rfl, hall.1, fun hmem => ?_, fun hmem => ?_⟩
          · have hsmall := List.all_eq_true.mp hword.2 _ hmem
            rw [(capitalize_slugChar hall.1).2.2.1] at hsmall
            cases hsmall
          · have hslug := List.all_eq_true.mp hall.2 _ hmem
            rw [(capitalize_slugChar (isSlugChar_of_isSmallLetter hword.1)).2.2.2 hword.1] at hslug
            cases hslug

theorem capitalized_suffix_iff :
    capitalized word <:+ pieces.flatMap capitalized ↔ [word] <:+ pieces := by
  constructor
  · rintro ⟨stem, hstem⟩
    obtain ⟨initial, rfl, -⟩ := exists_initial_of_word hpieces hne hword hstem.symm
    exact List.suffix_append initial [word]
  · rintro ⟨initial, rfl⟩
    rw [List.flatMap_append, List.flatMap_singleton]
    exact List.suffix_append _ _

end Word

theorem SuffixPolicy.toList_ifMissing (pascal suffix : String) :
    (SuffixPolicy.ifMissing.apply pascal suffix).toList =
      if suffix.toList <:+ pascal.toList then pascal.toList
      else pascal.toList ++ suffix.toList := by
  simp only [apply, List.isSuffixOf_iff_suffix]
  split
  · rfl
  · exact String.toList_append

/-- Under the policy that adds a missing suffix, a class name ends in the suffix, and once more in
front of it exactly if the last two segments of the slug are both its word. -/
theorem symbolicName_ifMissing (identifier : Identifier) (hslug : IsSlug identifier.text.toList) :
    let name := (NamingOptions.derive { policy := .ifMissing } identifier).symbolicName.toList
    let joined := (segments identifier.text.toList).flatMap capitalized
    let suffix := "Component".toList
    let word := "component".toList
    '-' ∉ name ∧ name = (if suffix <:+ joined then joined else joined ++ suffix) ∧
      ∃ stem, name = stem ++ suffix ∧
        (suffix <:+ stem ↔ [word, word] <:+ segments identifier.text.toList) := by
  intro name joined suffix word
  have hpieces := hslug.forall_segments
  have hword : word ≠ [] := by decide
  have hsmall : word.all isSmallLetter = true := by decide
  have hsuffix : capitalized word = suffix := by decide
  have hpascal : (pascalCase identifier.text).toList = joined := by
    rw [pascalCase, String.toList_ofList]
    exact pascalChars_eq_capitalized fun segment hsegment => (hpieces segment hsegment).2
  have hname : name = if suffix <:+ joined then joined else joined ++ suffix := by
    simp only [name, NamingOptions.derive, SuffixPolicy.toList_ifMissing, hpascal]
    rfl
  have hhyphen : '-' ∉ joined := by
    rw [← hpascal, pascalCase, String.toList_ofList]
    exact hyphen_not_mem_pascalChars true _
  have hends := capitalized_suffix_iff hpieces hword hsmall
  rw [hsuffix] at hends
  by_cases hpresent : suffix <:+ joined
  · -- The suffix is there: the last segment is its word, and the name is as long as the slug.
    obtain ⟨stem, hstem⟩ := hpresent
    obtain ⟨initial, hinitial, rfl⟩ := exists_initial_of_word hpieces hword hsmall hstem.symm
    have hbefore : suffix <:+ initial.flatMap capitalized ↔ [word] <:+ initial := by
      rw [← hsuffix]
      refine capitalized_suffix_iff (fun piece hpiece => hpieces piece ?_) hword hsmall
      rw [hinitial]
      exact List.mem_append_left _ hpiece
    rw [hname, if_pos ⟨_, hstem⟩]
    refine ⟨hhyphen, rfl, initial.flatMap capitalized, hstem.symm, hbefore.trans ?_⟩
    rw [hinitial]
    exact List.suffix_append_self_iff.symm
  · rw [hname, if_neg hpresent]
    refine ⟨?_, rfl, joined, rfl, iff_of_false hpresent fun htwice => hpresent (hends.mpr ?_)⟩
    · rw [List.mem_append, not_or]
      exact ⟨hhyphen, by decide⟩
    · exact (List.suffix_append [word] [word]).trans htwice

/-- A slug that ends in the word, with a digit where a capital would be. -/
theorem symbolicName_ifMissing_present :
    let identifier : Identifier := ⟨"2fa-card-component", by decide⟩
    let name := (NamingOptions.derive { policy := .ifMissing } identifier).symbolicName.toList
    IsSlug identifier.text.toList ∧ '-' ∉ name ∧
      ∃ stem, name = stem ++ "Component".toList ∧ ¬ "Component".toList <:+ stem := by
  intro identifier name
  have hslug : IsSlug identifier.text.toList := by
    rw [show identifier.text.toList =
      "2fa".toList ++ '-' :: ("card".toList ++ '-' :: "component".toList) by decide]
    exact .hyphen (by decide) (by decide)
      (.hyphen (by decide) (by decide) (.segment (by decide) (by decide)))
  obtain ⟨hhyphen, -, stem, hname, htwice⟩ := symbolicName_ifMissing identifier hslug
  exact ⟨hslug, hhyphen, stem, hname, fun hagain => absurd (htwice.mp hagain) (by decide)⟩

/-- A slug that repeats the word keeps both in its class name. -/
theorem symbolicName_ifMissing_repeated :
    let identifier : Identifier := ⟨"component-component", by decide⟩
    let name := (NamingOptions.derive { policy := .ifMissing } identifier).symbolicName.toList
    IsSlug identifier.text.toList ∧ name = "ComponentComponent".toList ∧
      ¬ ∃ stem, name = stem ++ "Component".toList ∧ ¬ "Component".toList <:+ stem := by
  intro identifier name
  have hname : name = "Component".toList ++ "Component".toList := by decide +kernel
  have hslug : IsSlug identifier.text.toList := by
    rw [show identifier.text.toList = "component".toList ++ '-' :: "component".toList by decide]
    exact .hyphen (by decide) (by decide) (.segment (by decide) (by decide))
  refine ⟨hslug, hname, ?_⟩
  rintro ⟨stem, hstem, honce⟩
  obtain rfl := List.append_cancel_right (hname.symm.trans hstem)
  exact honce (List.suffix_refl _)

end Extraction
