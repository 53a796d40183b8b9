import Extraction.Proofs.Walk
import Extraction.Text.Blank
/-!
Trimming a text takes whole words of white space off its ends: what is left starts and ends with
none, and white space put around a text does not change it.
-/

namespace Extraction.Bytes

/-! Dropping words from the front of a text. -/

section Words

variable {isWord : Bytes → Bool}

theorem dropWords_of_forall {text : Bytes}
    (hwords : ∀ word, isWord word = true → ¬ word <+: text) : dropWords isWord text = text := by
  have hnot : ∀ {word rest : Bytes}, text = word ++ rest → isWord word = false := by
    intro word rest htext
    rw [← Bool.not_eq_true]
    intro hword
    exact hwords word hword ⟨rest, htext.symm⟩
  match text with
  | [] => rfl
  | [a] => simp [dropWords, @hnot [a] [] rfl]
  | [a, b] => simp [dropWords, @hnot [a] [b] rfl, @hnot [a, b] [] rfl]
  | a :: b :: c :: rest =>
      simp [dropWords, @hnot [a] _ rfl, @hnot [a, b] _ rfl, @hnot [a, b, c] _ rfl]

theorem dropWords_one {a : UInt8} {rest : Bytes} (hword : isWord [a] = true) :
    dropWords isWord (a :: rest) = dropWords isWord rest := by
  rw [dropWords.eq_def]
  simp [hword]

theorem dropWords_two {a b : UInt8} {rest : Bytes} (hone : isWord [a] = false)
    (hword : isWord [a, b] = true) :
    dropWords isWord (a :: b :: rest) = dropWords isWord rest := by
  rw [dropWords.eq_def]
  simp [hone, hword]

theorem dropWords_three {a b c : UInt8} {rest : Bytes} (hone : isWord [a] = false)
    (htwo : isWord [a, b] = false) (hword : isWord [a, b, c] = true) :
    dropWords isWord (a :: b :: c :: rest) = dropWords isWord rest := by
  rw [dropWords.eq_def]
  simp [hone, htwo, hword]

theorem dropWords_append {word : Bytes} (hword : isWord word = true)
    (hlength : 0 < word.length ∧ word.length ≤ 3)
    (hstarts : ∀ width < word.length, isWord (word.take width) = false) (rest : Bytes) :
    dropWords isWord (word ++ rest) = dropWords isWord rest := by
  match word with
  | [] => simp at hlength
  | [a] => exact dropWords_one hword
  | [a, b] => exact dropWords_two (hstarts 1 (by simp)) hword
  | [a, b, c] => exact dropWords_three (hstarts 1 (by simp)) (hstarts 2 (by simp)) hword
  | _ :: _ :: _ :: _ :: _ =>
      simp only [List.length_cons] at hlength
      omega

theorem dropWords_flatten_append {words : List Bytes}
    (hwords : ∀ word ∈ words, isWord word = true ∧ (0 < word.length ∧ word.length ≤ 3) ∧
      ∀ width < word.length, isWord (word.take width) = false) (rest : Bytes) :
    dropWords isWord (words.flatten ++ rest) = dropWords isWord rest := by
  induction words with
  | nil => rfl
  | cons word words ih =>
      obtain ⟨hword, hlength, hstarts⟩ := hwords word List.mem_cons_self
      rw [List.flatten_cons, List.append_assoc, dropWords_append hword hlength hstarts]
      exact ih fun word hmem => hwords word (List.mem_cons_of_mem _ hmem)

theorem exists_words_of_dropWords (text : Bytes) :
    ∃ words : List Bytes, (∀ word ∈ words, isWord word = true) ∧
      text = words.flatten ++ dropWords isWord text := by
  have hcons : ∀ {word rest : Bytes}, isWord word = true →
      dropWords isWord (word ++ rest) = dropWords isWord rest →
      (∃ words : List Bytes, (∀ word ∈ words, isWord word = true) ∧
        rest = words.flatten ++ dropWords isWord rest) →
      ∃ words : List Bytes, (∀ word ∈ words, isWord word = true) ∧
        word ++ rest = words.flatten ++ dropWords isWord (word ++ rest) := by
    intro word rest hword hdrop ih
    obtain ⟨words, hwords, hrest⟩ := ih
    refine ⟨word :: words, ?_, ?_⟩
    · intro other hmem
      rcases List.mem_cons.mp hmem with rfl | hmem
      · exact hword
      · exact hwords other hmem
    · rw [hdrop, List.flatten_cons, List.append_assoc, ← hrest]
  induction text using dropWords.induct isWord with
  | case1 => exact ⟨[], by simp, rfl⟩
  | case2 a rest hword ih => exact hcons hword (dropWords_one hword) ih
  | case3 a hone => exact ⟨[], by simp, by simp [dropWords, hone]⟩
  | case4 a hone b rest hword ih =>
      exact hcons hword (dropWords_two (by simpa using hone) hword) ih
  | case5 a hone b htwo => exact ⟨[], by simp, by simp [dropWords, hone, htwo]⟩
  | case6 a hone b htwo c rest hword ih =>
      exact hcons hword (dropWords_three (by simpa using hone) (by simpa using htwo) hword) ih
  | case7 a hone b htwo c rest hthree =>
      exact ⟨[], by simp, by simp [dropWords, hone, htwo, hthree]⟩

theorem not_prefix_dropWords {word : Bytes} (hword : isWord word = true)
    (hlength : 0 < word.length ∧ word.length ≤ 3) (text : Bytes) :
    ¬ word <+: dropWords isWord text := by
  induction text using dropWords.induct isWord with
  | case1 =>
      intro hstarts
      simp [List.prefix_nil.mp hstarts] at hlength
  | case2 a rest hone ih => rwa [dropWords_one hone]
  | case3 a hone =>
      intro hstarts
      match word with
      | [] => simp at hlength
      | [x] => simp_all [dropWords]
      | _ :: _ :: _ => simp [dropWords, hone] at hstarts
  | case4 a hone b rest htwo ih => rwa [dropWords_two (by simpa using hone) htwo]
  | case5 a hone b htwo =>
      intro hstarts
      match word with
      | [] => simp at hlength
      | [x] => simp_all [dropWords]
      | [x, y] => simp_all [dropWords]
      | _ :: _ :: _ :: _ => simp [dropWords, hone, htwo] at hstarts
  | case6 a hone b htwo c rest hthree ih =>
      rwa [dropWords_three (by simpa using hone) (by simpa using htwo) hthree]
  | case7 a hone b htwo c rest hthree =>
      intro hstarts
      match word with
      | [] => simp at hlength
      | [x] => simp_all [dropWords]
      | [x, y] => simp_all [dropWords]
      | [x, y, z] => simp_all [dropWords]
      | _ :: _ :: _ :: _ :: _ =>
          simp only [List.length_cons] at hlength
          omega

end Words

/-! The words of white space: none starts or ends another, and only their first bytes start a
character. -/

theorem length_of_mem_whiteSpaceWords :
    ∀ word ∈ whiteSpaceWords, 0 < word.length ∧ word.length ≤ 3 := by
  decide

theorem take_not_mem_whiteSpaceWords :
    ∀ word ∈ whiteSpaceWords, ∀ width < word.length, word.take width ∉ whiteSpaceWords := by
  decide

theorem drop_not_mem_whiteSpaceWords :
    ∀ word ∈ whiteSpaceWords, ∀ width < word.length,
      (word.reverse.take width).reverse ∉ whiteSpaceWords := by
  decide

theorem isContinuation_of_mem_whiteSpaceWords :
    ∀ word ∈ whiteSpaceWords, word.head?.any isContinuation = false ∧
      word.tail.all isContinuation = true := by
  decide

def IsWhite (text : Bytes) : Prop :=
  ∃ words : List Bytes, (∀ word ∈ words, word ∈ whiteSpaceWords) ∧ text = words.flatten

theorem exists_white_trimStart (text : Bytes) :
    ∃ lead, IsWhite lead ∧ text = lead ++ trimStart text := by
  obtain ⟨words, hwords, htext⟩ := @exists_words_of_dropWords whiteSpaceWords.contains text
  exact ⟨words.flatten, ⟨words, by simpa using hwords, rfl⟩, htext⟩

theorem trimStart_append {lead : Bytes} (hlead : IsWhite lead) (text : Bytes) :
    trimStart (lead ++ text) = trimStart text := by
  obtain ⟨words, hwords, rfl⟩ := hlead
  apply dropWords_flatten_append
  intro word hmem
  have hword := hwords word hmem
  refine ⟨by simpa using hword, length_of_mem_whiteSpaceWords word hword, ?_⟩
  intro width hwidth
  simpa using take_not_mem_whiteSpaceWords word hword width hwidth

theorem trimStart_of_forall {text : Bytes} (hwords : ∀ word ∈ whiteSpaceWords, ¬ word <+: text) :
    trimStart text = text :=
  dropWords_of_forall fun word hword => hwords word (by simpa using hword)

theorem not_prefix_trimStart {word : Bytes} (hword : word ∈ whiteSpaceWords) (text : Bytes) :
    ¬ word <+: trimStart text :=
  not_prefix_dropWords (by simpa using hword) (length_of_mem_whiteSpaceWords word hword) text

theorem exists_white_trimEnd (text : Bytes) :
    ∃ trail, IsWhite trail ∧ text = trimEnd text ++ trail := by
  obtain ⟨words, hwords, htext⟩ :=
    @exists_words_of_dropWords (fun word => whiteSpaceWords.contains word.reverse) text.reverse
  refine ⟨words.flatten.reverse, ⟨(words.map List.reverse).reverse, ?_, ?_⟩, ?_⟩
  · intro word hmem
    rw [List.mem_reverse, List.mem_map] at hmem
    obtain ⟨reversed, hreversed, rfl⟩ := hmem
    simpa using hwords reversed hreversed
  · exact List.reverse_flatten
  · have hreverse := congrArg List.reverse htext
    rwa [List.reverse_reverse, List.reverse_append] at hreverse

theorem trimEnd_append {trail : Bytes} (htrail : IsWhite trail) (text : Bytes) :
    trimEnd (text ++ trail) = trimEnd text := by
  obtain ⟨words, hwords, rfl⟩ := htrail
  rw [trimEnd, List.reverse_append, List.reverse_flatten, trimEnd]
  refine congrArg List.reverse (dropWords_flatten_append ?_ _)
  intro word hmem
  rw [List.mem_reverse, List.mem_map] at hmem
  obtain ⟨word, hmem, rfl⟩ := hmem
  have hword := hwords word hmem
  refine ⟨by simpa using hword, by simpa using length_of_mem_whiteSpaceWords word hword, ?_⟩
  intro width hwidth
  simpa using drop_not_mem_whiteSpaceWords word hword width (by simpa using hwidth)

theorem trimEnd_of_forall {text : Bytes} (hwords : ∀ word ∈ whiteSpaceWords, ¬ word <:+ text) :
    trimEnd text = text := by
  rw [trimEnd, dropWords_of_forall, List.reverse_reverse]
  intro word hword hstarts
  refine hwords word.reverse (by simpa using hword) ?_
  rwa [← List.reverse_prefix, List.reverse_reverse]

/-- White space around a text is all that trimming takes. -/
theorem exists_white_trim (text : Bytes) :
    ∃ lead trail, IsWhite lead ∧ IsWhite trail ∧ text = lead ++ (trim text ++ trail) := by
  obtain ⟨lead, hlead, hstart⟩ := exists_white_trimStart text
  obtain ⟨trail, htrail, hend⟩ := exists_white_trimEnd (trimStart text)
  exact ⟨lead, trail, hlead, htrail, hstart.trans (congrArg (lead ++ ·) hend)⟩

theorem mem_of_mem_trim {text : Bytes} {b : UInt8} (h : b ∈ trim text) : b ∈ text := by
  obtain ⟨lead, trail, -, -, htext⟩ := exists_white_trim text
  rw [htext]
  exact List.mem_append_right _ (List.mem_append_left _ h)

theorem trim_white_append {lead : Bytes} (hlead : IsWhite lead) (text : Bytes) :
    trim (lead ++ text) = trim text := by
  rw [trim, trimStart_append hlead, trim]

theorem IsWhite.head?_any_isContinuation {text : Bytes} (hwhite : IsWhite text) :
    text.head?.any isContinuation = false := by
  obtain ⟨words, hwords, rfl⟩ := hwhite
  cases words with
  | nil => rfl
  | cons word words =>
      have hword := hwords word List.mem_cons_self
      have hlength := length_of_mem_whiteSpaceWords word hword
      have hhead := (isContinuation_of_mem_whiteSpaceWords word hword).1
      cases word with
      | nil => simp at hlength
      | cons b word => exact hhead

theorem trim_append_white {trail : Bytes} (htrail : IsWhite trail) (text : Bytes) :
    trim (text ++ trail) = trim text := by
  obtain ⟨lead, hlead, htext⟩ := exists_white_trimStart text
  have htrim : trim text = trimEnd (trimStart text) := rfl
  rw [htrim]
  generalize hrest : trimStart text = rest at htext
  rw [htext, List.append_assoc, trim_white_append hlead]
  cases hrestCases : rest with
  | nil =>
      have htrailStart : trimStart trail = [] := by
        have happend := trimStart_append htrail []
        rwa [List.append_nil] at happend
      rw [List.nil_append, trim, htrailStart]
  | cons a more =>
      rw [trim, trimStart_of_forall, trimEnd_append htrail]
      intro word hword hstarts
      cases htrailCases : trail with
      | nil =>
          rw [htrailCases, List.append_nil, ← hrestCases, ← hrest] at hstarts
          exact not_prefix_trimStart hword text hstarts
      | cons b tail =>
          rw [htrailCases] at hstarts htrail
          have hb : isContinuation b = false := htrail.head?_any_isContinuation
          have htail := (isContinuation_of_mem_whiteSpaceWords word hword).2
          have hshort := Balanced.prefix_of_prefix_append_cons hstarts (List.cons_ne_nil a more)
            (fun hmem => by simp [List.all_eq_true.mp htail b hmem] at hb)
          rw [← hrestCases, ← hrest] at hshort
          exact not_prefix_trimStart hword text hshort

end Extraction.Bytes
