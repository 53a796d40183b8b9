import Extraction.Proofs.Reading
import Extraction.Proofs.Trimming
import Extraction.Source.Block
/-!
The entries of a list's contents: a name put in front becomes the first entry, trimming the
contents changes none, and the entries together have every byte that is neither a comma nor part
of white space.
-/

namespace Extraction

open Byte Bytes

/-! Bytes that no white space has. -/

theorem Bytes.IsWhite.all {p : UInt8 → Bool} {text : Bytes} (hwhite : IsWhite text)
    (hwords : (whiteSpaceWords.all fun word => word.all p) = true) : text.all p = true := by
  obtain ⟨words, hmem, rfl⟩ := hwhite
  rw [List.all_flatten, List.all_eq_true]
  intro word hword
  exact List.all_eq_true.mp hwords word (hmem word hword)

theorem Bytes.IsWhite.not_mem {b : UInt8} {text : Bytes} (hwhite : IsWhite text)
    (hwords : ∀ word ∈ whiteSpaceWords, b ∉ word) : b ∉ text := by
  obtain ⟨words, hmem, rfl⟩ := hwhite
  intro hb
  obtain ⟨word, hword, hb⟩ := List.mem_flatten.mp hb
  exact hwords word (hmem word hword) hb

theorem Bytes.IsWhite.isPlain {text : Bytes} (hwhite : IsWhite text) :
    text.all isPlain = true :=
  hwhite.all (by decide)

theorem Bytes.IsWhite.comma_not_mem {text : Bytes} (hwhite : IsWhite text) : comma ∉ text :=
  hwhite.not_mem (by decide)

theorem trim_of_isIdent {name : Bytes} (hname : name.all isIdent = true) : trim name = name := by
  have hident : (whiteSpaceWords.all fun word => word.all fun b => !isIdent b) = true := by
    decide
  have hwords : ∀ word ∈ whiteSpaceWords, ¬ word <:+: name := by
    intro word hword hsub
    cases word with
    | nil => simp [whiteSpaceWords, whiteSpace] at hword
    | cons b word =>
        have hmem : b ∈ name := hsub.subset List.mem_cons_self
        have hnot := List.all_eq_true.mp (List.all_eq_true.mp hident _ hword) b List.mem_cons_self
        rw [List.all_eq_true.mp hname b hmem] at hnot
        cases hnot
  rw [trim, trimStart_of_forall fun word hword hstarts => hwords word hword hstarts.isInfix,
    trimEnd_of_forall fun word hword hsuffix => hwords word hword hsuffix.isInfix]

theorem comma_not_mem_of_isIdent {name : Bytes} (hname : name.all isIdent = true) :
    comma ∉ name := by
  intro hmem
  have hident := List.all_eq_true.mp hname comma hmem
  cases hident

/-! Entry by entry. -/

theorem splitOn_of_not_mem {separator : UInt8} {text : Bytes} (hmem : separator ∉ text) :
    text.splitOn separator = [text] := by
  induction text with
  | nil => rfl
  | cons b text ih =>
      rw [List.mem_cons, not_or] at hmem
      have hne : (b == separator) = false := by simpa using Ne.symm hmem.1
      simp [splitOn, hne, ih hmem.2]

theorem splitOn_append_cons {separator : UInt8} {left : Bytes} (hmem : separator ∉ left)
    (right : Bytes) :
    (left ++ separator :: right).splitOn separator = left :: right.splitOn separator := by
  induction left with
  | nil => simp [splitOn]
  | cons b left ih =>
      rw [List.mem_cons, not_or] at hmem
      have hne : (b == separator) = false := by simpa using Ne.symm hmem.1
      simp [splitOn, hne, ih hmem.2]

def entry (piece : Bytes) : List Bytes :=
  [trim piece].filter fun entry => !entry.isEmpty

theorem listEntries_of_not_mem {text : Bytes} (hmem : comma ∉ text) :
    listEntries text = entry text := by
  rw [listEntries, splitOn_of_not_mem hmem]
  rfl

theorem listEntries_append_cons {left : Bytes} (hmem : comma ∉ left) (right : Bytes) :
    listEntries (left ++ comma :: right) = entry left ++ listEntries right := by
  rw [listEntries, splitOn_append_cons hmem, List.map_cons, ← List.singleton_append,
    List.filter_append]
  rfl

theorem entry_white_append {lead : Bytes} (hlead : IsWhite lead) (piece : Bytes) :
    entry (lead ++ piece) = entry piece := by
  rw [entry, trim_white_append hlead, entry]

theorem entry_append_white {trail : Bytes} (htrail : IsWhite trail) (piece : Bytes) :
    entry (piece ++ trail) = entry piece := by
  rw [entry, trim_append_white htrail, entry]

theorem entry_of_isIdent {name : Bytes} (hname : name.all isIdent = true) (hne : name ≠ []) :
    entry name = [name] := by
  rw [entry, trim_of_isIdent hname]
  simp [hne]

theorem comma_induction {motive : Bytes → Prop} (text : Bytes)
    (last : ∀ piece, comma ∉ piece → motive piece)
    (more : ∀ piece rest, comma ∉ piece → motive rest → motive (piece ++ comma :: rest)) :
    motive text := by
  generalize hlength : text.length = length
  induction length using Nat.strongRecOn generalizing text with
  | ind length ih =>
      by_cases hmem : comma ∈ text
      · obtain ⟨piece, rest, rfl, hpiece⟩ := List.eq_append_cons_of_mem hmem
        refine more piece rest hpiece (ih rest.length ?_ rest rfl)
        simp at hlength
        omega
      · exact last text hmem

theorem listEntries_white_append {lead : Bytes} (hlead : IsWhite lead) (text : Bytes) :
    listEntries (lead ++ text) = listEntries text := by
  by_cases hmem : comma ∈ text
  · obtain ⟨piece, rest, rfl, hpiece⟩ := List.eq_append_cons_of_mem hmem
    rw [← List.append_assoc, listEntries_append_cons (by simp [hlead.comma_not_mem, hpiece]),
      listEntries_append_cons hpiece, entry_white_append hlead]
  · rw [listEntries_of_not_mem (by simp [hlead.comma_not_mem, hmem]),
      listEntries_of_not_mem hmem, entry_white_append hlead]

theorem listEntries_append_white {trail : Bytes} (htrail : IsWhite trail) (text : Bytes) :
    listEntries (text ++ trail) = listEntries text := by
  induction text using comma_induction with
  | last piece hpiece =>
      rw [listEntries_of_not_mem (by simp [htrail.comma_not_mem, hpiece]),
        listEntries_of_not_mem hpiece, entry_append_white htrail]
  | more piece rest hpiece ih =>
      rw [List.append_assoc, List.cons_append, listEntries_append_cons hpiece, ih,
        listEntries_append_cons hpiece]

theorem listEntries_trim (text : Bytes) : listEntries (trim text) = listEntries text := by
  obtain ⟨lead, trail, hlead, htrail, htext⟩ := exists_white_trim text
  have hentries := congrArg listEntries htext
  rw [listEntries_white_append hlead, listEntries_append_white htrail] at hentries
  exact hentries.symm

def prependedContents (name existing : Bytes) : Bytes :=
  if existing.isEmpty then name else name ++ comma :: existing

theorem listEntries_prependedContents {name : Bytes} (hname : name.all isIdent = true)
    (hne : name ≠ []) (existing : Bytes) :
    listEntries (prependedContents name existing) = name :: listEntries existing := by
  unfold prependedContents
  split
  · next hempty =>
      rw [List.isEmpty_iff.mp hempty, listEntries_of_not_mem (comma_not_mem_of_isIdent hname),
        entry_of_isIdent hname hne]
      rfl
  · rw [listEntries_append_cons (comma_not_mem_of_isIdent hname), entry_of_isIdent hname hne]
    rfl

theorem count_flatten_listEntries {b : UInt8} (hcomma : b ≠ comma)
    (hwhite : ∀ word ∈ whiteSpaceWords, b ∉ word) (text : Bytes) :
    (listEntries text).flatten.count b = text.count b := by
  have hpiece : ∀ piece : Bytes, (entry piece).flatten.count b = piece.count b := by
    intro piece
    have hzero : ∀ {blank : Bytes}, IsWhite blank → blank.count b = 0 := by
      intro blank hblank
      rw [List.count_eq_zero]
      exact hblank.not_mem hwhite
    obtain ⟨lead, trail, hlead, htrail, htext⟩ := exists_white_trim piece
    have hcount : piece.count b = (trim piece).count b := by
      have heq := congrArg (List.count b) htext
      rwa [List.count_append, List.count_append, hzero hlead, hzero htrail, Nat.zero_add,
        Nat.add_zero] at heq
    rw [hcount, entry]
    cases htrim : trim piece with
    | nil => rfl
    | cons c rest => simp
  induction text using comma_induction with
  | last piece hmem => rw [listEntries_of_not_mem hmem, hpiece]
  | more piece rest hmem ih =>
      rw [listEntries_append_cons hmem, List.flatten_append, List.count_append, hpiece, ih,
        List.count_append, List.count_cons_of_ne (Ne.symm hcomma)]

end Extraction
