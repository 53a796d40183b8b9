import Mathlib.Data.List.Basic
import Mathlib.Data.List.Induction
import Extraction.Proofs.SlugNames
/-!
Pascal case segment by segment. A hyphen joins two texts whose Pascal cases stand side by side, no
hyphen is left, and the capital letters tell where the segments of an identifier were, so that
identifiers whose segments start with a letter keep their names apart.
-/

namespace Extraction

def isSmallLetter (c : Char) : Bool :=
  0x61 ≤ c.toNat && c.toNat ≤ 0x7A

def segments (cs : List Char) : List (List Char) :=
  cs.splitOn '-'

def raised : List Char → List Char
  | [] => []
  | c :: rest => upperChar c ++ rest

/-- A segment with a capital letter in place of a small letter at its start. -/
def capitalized : List Char → List Char
  | [] => []
  | c :: rest => c.toUpper :: rest

def isLettered : List Char → Bool
  | [] => false
  | c :: rest => isSmallLetter c && rest.all isSlugChar

/-! The segments of a text. -/

theorem segments_append (left right : List Char) :
    segments (left ++ '-' :: right) = segments left ++ segments right :=
  List.splitOn_append_cons_self left right

theorem segments_inj {cs ds : List Char} : segments cs = segments ds ↔ cs = ds := by
  constructor
  · intro h
    rw [← @List.intercalate_splitOn _ cs _ _ '-', ← @List.intercalate_splitOn _ ds _ _ '-']
    exact congrArg _ h
  · exact congrArg _

theorem pascalChars_eq (atStart : Bool) (cs : List Char) :
    ∃ first others, segments cs = first :: others ∧
      pascalChars atStart cs =
        (if atStart then raised first else first) ++ others.flatMap raised := by
  induction atStart, cs using pascalChars.induct with
  | case1 atStart => exact ⟨[], [], rfl, by cases atStart <;> rfl⟩
  | case2 atStart rest ih =>
      obtain ⟨first, others, hrest, hpascal⟩ := ih
      refine ⟨[], first :: others, ?_, ?_⟩
      · rw [← hrest]
        exact segments_append [] rest
      · rw [pascalChars, hpascal]
        cases atStart <;> rfl
  | case3 atStart c rest hne ih =>
      obtain ⟨first, others, hrest, hpascal⟩ := ih
      refine ⟨c :: first, others, ?_, ?_⟩
      · rw [segments, List.splitOn_cons_eq_if_modifyHead, if_neg (by simpa using hne)]
        exact congrArg _ hrest
      · rw [pascalChars.eq_3 _ _ _ hne, hpascal]
        cases atStart <;> simp [raised]

theorem pascalChars_eq_flatMap (cs : List Char) :
    pascalChars true cs = (segments cs).flatMap raised := by
  obtain ⟨first, others, hsegments, hpascal⟩ := pascalChars_eq true cs
  rw [hpascal, hsegments, List.flatMap_cons]
  rfl

theorem pascalCase_append (left right : String) :
    pascalCase (left ++ "-" ++ right) = pascalCase left ++ pascalCase right := by
  have hchars : (left ++ "-" ++ right).toList = left.toList ++ '-' :: right.toList := by simp
  rw [pascalCase, pascalCase, pascalCase, hchars, pascalChars_eq_flatMap, segments_append,
    List.flatMap_append, ← pascalChars_eq_flatMap, ← pascalChars_eq_flatMap, String.ofList_append]

theorem hyphen_not_mem_pascalChars (atStart : Bool) (cs : List Char) :
    '-' ∉ pascalChars atStart cs := by
  induction atStart, cs using pascalChars.induct with
  | case1 atStart => exact List.not_mem_nil
  | case2 atStart rest ih =>
      rw [pascalChars]
      exact ih
  | case3 atStart c rest hne ih =>
      rw [pascalChars.eq_3 _ _ _ hne, List.mem_append, not_or]
      refine ⟨fun hmem => hne ?_, ih⟩
      cases atStart with
      | false => exact (List.mem_singleton.mp hmem).symm
      | true => exact (eq_of_mem_upperChar hmem (by decide)).symm

/-! Segments of small letters and digits. -/

theorem isSlugChar_of_isSmallLetter {c : Char} (hletter : isSmallLetter c = true) :
    isSlugChar c = true := by
  rw [isSlugChar, Bool.or_eq_true]
  exact .inl hletter

theorem exists_of_isLettered {segment : List Char} (hsegment : isLettered segment = true) :
    ∃ c rest, segment = c :: rest ∧ isSmallLetter c = true ∧ rest.all isSlugChar = true := by
  cases segment with
  | nil => cases hsegment
  | cons c rest => exact ⟨c, rest, rfl, (Bool.and_eq_true _ _).mp hsegment⟩

theorem capitalize_slugChar {c : Char} (hslug : isSlugChar c = true) :
    upperChar c = [c.toUpper] ∧ c.toUpper.toLower = c ∧ isSmallLetter c.toUpper = false ∧
      (isSmallLetter c = true → isSlugChar c.toUpper = false) := by
  have hcodes : ∀ code < 0x80, isSlugChar (Char.ofNat code) = true →
      upperChar (Char.ofNat code) = [(Char.ofNat code).toUpper] ∧
        (Char.ofNat code).toUpper.toLower = Char.ofNat code ∧
        isSmallLetter (Char.ofNat code).toUpper = false ∧
        (isSmallLetter (Char.ofNat code) = true →
          isSlugChar (Char.ofNat code).toUpper = false) := by
    decide +kernel
  have hcode : c.toNat < 0x80 := by
    simp only [isSlugChar, Bool.or_eq_true, Bool.and_eq_true, decide_eq_true_eq] at hslug
    omega
  have hchar := hcodes c.toNat hcode
  rw [Char.ofNat_toNat] at hchar
  exact hchar hslug

theorem toUpper_inj {c d : Char} (hc : isSlugChar c = true) (hd : isSlugChar d = true)
    (h : c.toUpper = d.toUpper) : c = d := by
  rw [← (capitalize_slugChar hc).2.1, h, (capitalize_slugChar hd).2.1]

theorem pascalChars_eq_capitalized {cs : List Char}
    (hslug : ∀ segment ∈ segments cs, segment.all isSlugChar = true) :
    pascalChars true cs = (segments cs).flatMap capitalized := by
  rw [pascalChars_eq_flatMap]
  refine List.flatMap_congr fun segment hsegment => ?_
  have hall := hslug segment hsegment
  cases segment with
  | nil => rfl
  | cons c rest =>
      rw [List.all_cons, Bool.and_eq_true] at hall
      rw [raised, capitalized, (capitalize_slugChar hall.1).1]
      rfl

/-- A text that ends with a character and what follows it ends so in one way only, if that
character does not come again and the other end does not have it. -/
theorem append_cons_inj_of_apart {left left' right right' : List Char} {c d : Char}
    (hc : c ∉ right') (hd : d ∉ right) (h : left ++ c :: right = left' ++ d :: right') :
    left = left' ∧ c = d ∧ right = right' := by
  rcases List.append_eq_append_iff.mp h with ⟨middle, rfl, hends⟩ | ⟨middle, rfl, hends⟩
  · cases middle with
    | nil =>
        obtain ⟨rfl, rfl⟩ := List.cons.inj hends
        exact ⟨(List.append_nil left).symm, rfl, rfl⟩
    | cons b middle =>
        obtain ⟨-, rfl⟩ := List.cons.inj hends
        simp at hd
  · cases middle with
    | nil =>
        obtain ⟨rfl, rfl⟩ := List.cons.inj hends
        exact ⟨List.append_nil left', rfl, rfl⟩
    | cons b middle =>
        obtain ⟨-, rfl⟩ := List.cons.inj hends
        simp at hc

theorem exists_initial_of_flatMap_capitalized {pieces : List (List Char)} {stem word : List Char}
    {d : Char} (hd : isSlugChar d = true)
    (hpieces : ∀ piece ∈ pieces, ∃ c rest, piece = c :: rest ∧ isSlugChar c = true ∧
      c.toUpper ∉ word ∧ d.toUpper ∉ rest)
    (h : pieces.flatMap capitalized = stem ++ capitalized (d :: word)) :
    ∃ initial, pieces = initial ++ [d :: word] ∧ stem = initial.flatMap capitalized := by
  rcases List.eq_nil_or_concat pieces with rfl | ⟨initial, last, rfl⟩
  · simp [capitalized] at h
  · obtain ⟨c, rest, rfl, hc, hword, hrest⟩ := hpieces last (by simp)
    rw [List.concat_eq_append, List.flatMap_append, List.flatMap_singleton, capitalized,
      capitalized] at h
    obtain ⟨hstem, hchar, rfl⟩ := append_cons_inj_of_apart hword hrest h
    obtain rfl := toUpper_inj hc hd hchar
    exact ⟨initial, List.concat_eq_append, hstem.symm⟩

theorem flatMap_capitalized_inj {pieces others : List (List Char)}
    (hpieces : pieces.all isLettered = true) (hothers : others.all isLettered = true)
    (h : pieces.flatMap capitalized = others.flatMap capitalized) : pieces = others := by
  induction others using List.reverseRecOn generalizing pieces with
  | nil =>
      cases pieces with
      | nil => rfl
      | cons piece pieces =>
          obtain ⟨c, rest, rfl, -⟩ :=
            exists_of_isLettered (List.all_eq_true.mp hpieces piece List.mem_cons_self)
          simp [capitalized] at h
  | append_singleton others last ih =>
      rw [List.all_append, Bool.and_eq_true, List.all_cons, List.all_nil, Bool.and_true] at hothers
      obtain ⟨d, word, rfl, hd, hword⟩ := exists_of_isLettered hothers.2
      have hcapital : ∀ {c : Char} {rest : List Char}, isSmallLetter c = true →
          rest.all isSlugChar = true → c.toUpper ∉ rest := by
        intro c rest hc hrest hmem
        have hslug := List.all_eq_true.mp hrest _ hmem
        rw [(capitalize_slugChar (isSlugChar_of_isSmallLetter hc)).2.2.2 hc] at hslug
        cases hslug
      have hapart : ∀ piece ∈ pieces, ∃ c rest, piece = c :: rest ∧ isSlugChar c = true ∧
          c.toUpper ∉ word ∧ d.toUpper ∉ rest := by
        intro piece hpiece
        obtain ⟨c, rest, rfl, hc, hrest⟩ :=
          exists_of_isLettered (List.all_eq_true.mp hpieces piece hpiece)
        exact ⟨c, rest, rfl, isSlugChar_of_isSmallLetter hc, hcapital hc hword, hcapital hd hrest⟩
      rw [List.flatMap_append, List.flatMap_singleton] at h
      obtain ⟨initial, rfl, hstem⟩ :=
        exists_initial_of_flatMap_capitalized (isSlugChar_of_isSmallLetter hd) hapart h
      rw [List.all_append, Bool.and_eq_true] at hpieces
      rw [ih hpieces.1 hothers.1 hstem.symm]

/-! The names of an identifier. -/

theorem Identifier.ext_text {a b : Identifier} (h : a.text = b.text) : a = b := by
  cases a
  cases b
  cases h
  rfl

theorem pascalCase_inj {a b : String} (ha : (segments a.toList).all isLettered = true)
    (hb : (segments b.toList).all isLettered = true) (h : pascalCase a = pascalCase b) :
    a = b := by
  have hslug : ∀ {cs : List Char}, (segments cs).all isLettered = true →
      ∀ segment ∈ segments cs, segment.all isSlugChar = true := by
    intro cs hcs segment hsegment
    obtain ⟨c, rest, rfl, hc, hrest⟩ :=
      exists_of_isLettered (List.all_eq_true.mp hcs segment hsegment)
    rw [List.all_cons, isSlugChar_of_isSmallLetter hc, hrest]
    rfl
  rw [pascalCase, pascalCase, String.ofList_inj, pascalChars_eq_capitalized (hslug ha),
    pascalChars_eq_capitalized (hslug hb)] at h
  exact String.toList_inj.mp (segments_inj.mp (flatMap_capitalized_inj ha hb h))

/-- Identifiers whose segments start with a letter have names of their own, whichever of their
names is looked at. -/
theorem names_distinct :
    (∀ (options : NamingOptions) (a b : Identifier), options.policy = .always →
      (segments a.text.toList).all isLettered = true →
      (segments b.text.toList).all isLettered = true →
      (options.derive a).symbolicName = (options.derive b).symbolicName ∨
        (options.derive a).selector = (options.derive b).selector ∨
        (options.derive a).fileBaseName = (options.derive b).fileBaseName → a = b) ∧
      (∀ left right : String,
        pascalCase (left ++ "-" ++ right) = pascalCase left ++ pascalCase right) ∧
      ∀ text : String, '-' ∉ (pascalCase text).toList := by
  refine ⟨fun options a b hpolicy ha hb hsame => Identifier.ext_text ?_, pascalCase_append,
    fun text => ?_⟩
  · rcases hsame with hname | hselector | hfile
    · simp only [NamingOptions.derive, hpolicy, SuffixPolicy.apply] at hname
      exact pascalCase_inj ha hb ((String.append_left_inj _).mp hname)
    · simp only [NamingOptions.derive, NamingOptions.selector] at hselector
      split at hselector
      · exact hselector
      · exact (String.append_right_inj _).mp hselector
    · exact (String.append_left_inj _).mp hfile
  · rw [pascalCase, String.toList_ofList]
    exact hyphen_not_mem_pascalChars true text.toList

/-- An identifier that was typed with blanks around it, and two that have the same letters. -/
theorem names_distinct_blanks :
    let options : NamingOptions := { suffix := "View", selectorPrefix := "" }
    let typed : Identifier := ⟨trimmed " a1-bc ", by decide +kernel⟩
    let card : Identifier := ⟨"a1-bc", by decide⟩
    let other : Identifier := ⟨"a1b-c", by decide⟩
    (options.derive typed).symbolicName = "A1BcView" ∧ typed = card ∧
      (options.derive other).symbolicName ≠ (options.derive card).symbolicName := by
  intro options typed card other
  refine ⟨by decide +kernel, ?_, fun hname => ?_⟩
  · exact names_distinct.1 options typed card rfl (by decide +kernel) (by decide +kernel)
      (.inl (by decide +kernel))
  · have hsame := names_distinct.1 options other card rfl (by decide +kernel) (by decide +kernel)
      (.inl hname)
    exact absurd (congrArg Identifier.text hsame) (by decide)

end Extraction
