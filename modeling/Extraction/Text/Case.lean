import Extraction.Text.CaseTable
/-!
Upper and lower case of a whole text, with the mappings of a character to several characters.
They do not depend on a locale.
-/

namespace Extraction

private def mapCase (runs : List CaseTable.Run) (words : List (Nat × List Nat)) (c : Char) :
    List Char :=
  match words.lookup c.toNat with
  | some codes => codes.map Char.ofNat
  | none =>
      match runs.find? (·.contains c.toNat) with
      | some run => [Char.ofNat (c.toNat + run.shift).toNat]
      | none => [c]

def upperChar (c : Char) : List Char :=
  if c.toNat < 0x80 then
    [if 'a' ≤ c ∧ c ≤ 'z' then Char.ofNat (c.toNat - 32) else c]
  else mapCase CaseTable.upperRuns CaseTable.upperWords c

def lowerChar (c : Char) : List Char :=
  if c.toNat < 0x80 then
    [if 'A' ≤ c ∧ c ≤ 'Z' then Char.ofNat (c.toNat + 32) else c]
  else mapCase CaseTable.lowerRuns CaseTable.lowerWords c

def upperChars (cs : List Char) : List Char :=
  cs.flatMap upperChar

private theorem mem_mapCase {runs : List CaseTable.Run} {words : List (Nat × List Nat)}
    {c d : Char} (hd : d ∈ mapCase runs words c) :
    d = c ∨ (∃ word ∈ words, ∃ code ∈ word.2, d = Char.ofNat code) ∨
      ∃ run ∈ runs, run.contains c.toNat = true ∧ d = Char.ofNat (c.toNat + run.shift).toNat := by
  unfold mapCase at hd
  split at hd
  · next codes hcodes =>
      obtain ⟨code, hcode, rfl⟩ := List.mem_map.mp hd
      obtain ⟨before, after, rfl, -⟩ := List.lookup_eq_some_iff.mp hcodes
      exact .inr (.inl ⟨(c.toNat, codes), by simp, code, hcode, rfl⟩)
  · split at hd
    · next run hrun =>
        exact .inr (.inr ⟨run, List.mem_of_find?_eq_some hrun,
          by simpa using List.find?_some hrun, List.mem_singleton.mp hd⟩)
    · exact .inl (List.mem_singleton.mp hd)

theorem toNat_charOfNat {code : Nat} (hvalid : code.isValidChar) :
    (Char.ofNat code).toNat = code := by
  rw [Char.ofNat, dif_pos hvalid]
  rfl

theorem eq_of_mem_upperChar {c d : Char} (hd : d ∈ upperChar c) (hlow : d.toNat < 0x41) :
    d = c := by
  have hwords : ∀ word ∈ CaseTable.upperWords, ∀ code ∈ word.2,
      code.isValidChar ∧ 0x41 ≤ code := by
    decide +kernel
  have hruns : ∀ run ∈ CaseTable.upperRuns, (0x41 : Int) ≤ run.first + run.shift ∧
      (run.last + run.shift < 0xD800 ∨
        0xE000 ≤ run.first + run.shift ∧ run.last + run.shift < 0x110000) := by
    decide +kernel
  unfold upperChar at hd
  split at hd
  · obtain rfl := List.mem_singleton.mp hd
    split at hlow
    · next hsmall =>
        have hfirst : 0x61 ≤ c.toNat := hsmall.1
        have hlast : c.toNat ≤ 0x7A := hsmall.2
        rw [toNat_charOfNat (.inl (by omega))] at hlow
        omega
    · next hother => rw [if_neg hother]
  · rcases mem_mapCase hd with rfl | ⟨word, hword, code, hcode, rfl⟩ | ⟨run, hrun, hcontains, rfl⟩
    · rfl
    · obtain ⟨hvalid, hle⟩ := hwords word hword code hcode
      rw [toNat_charOfNat hvalid] at hlow
      omega
    · obtain ⟨hfirst, hvalid⟩ := hruns run hrun
      simp only [CaseTable.Run.contains, Bool.and_eq_true, decide_eq_true_eq] at hcontains
      rw [toNat_charOfNat] at hlow
      · omega
      · unfold Nat.isValidChar
        omega

private def inRanges (ranges : List (Nat × Nat)) (c : Char) : Bool :=
  ranges.any fun (first, last) => first ≤ c.toNat && c.toNat ≤ last

/-- Whether the first character that is not ignorable is a letter with case. -/
def reachesCased (cs : List Char) : Bool :=
  (cs.dropWhile (inRanges CaseTable.ignorableRanges)).head?.any
    (inRanges CaseTable.casedRanges)

/-- Lowers a text; `before` is the text in front of it, reversed. A capital sigma that ends a
word becomes a final sigma. -/
def lowerFrom (before : List Char) : List Char → List Char
  | [] => []
  | c :: rest =>
      (if c == '\u03A3' then
        if reachesCased before && !reachesCased rest then ['\u03C2'] else ['\u03C3']
      else lowerChar c) ++ lowerFrom (c :: before) rest

def lowerChars (cs : List Char) : List Char :=
  lowerFrom [] cs

end Extraction
