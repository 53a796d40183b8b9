import Extraction.Toml.Text
import Extraction.Toml.Writer
import Mathlib.Data.List.Basic
/-!
A written string reads as what was written, in each of the four forms. Between double quotes one
character is read at a time, escaped or not. Over several lines the quotes of a text are told from
the closing ones by their number, since no more than two of them stand together in the text.
-/

namespace Extraction.TomlText

/-! Between double quotes. -/

structure Unescapes (read : List Char → Option (List Char × List Char)) : Prop where
  short {e c : Char} {rest text left : List Char} (hc : shortEscape? e = some c)
    (hrest : read rest = some (text, left)) : read ('\\' :: e :: rest) = some (c :: text, left)
  code {x y z w c : Char} {rest text left : List Char} (hc : scalar? [x, y, z, w] = some c)
    (hrest : read rest = some (text, left)) :
    read ('\\' :: 'u' :: x :: y :: z :: w :: rest) = some (c :: text, left)
  plain {c : Char} {rest text left : List Char} (hplain : isPlain c = true) (hquote : c ≠ '"')
    (hescape : c ≠ '\\') (hrest : read rest = some (text, left)) :
    read (c :: rest) = some (c :: text, left)

theorem unescapes_basic? : Unescapes basic? where
  short hc hrest := by
    unfold shortEscape? at hc
    split at hc <;> cases hc <;> simp [basic?, shortEscape?, hrest]
  code hc hrest := by rw [basic?, hc, hrest]
  plain hplain hquote hescape hrest := by
    rw [basic?.eq_6 _ _ hquote (by simp [hescape]) (by simp [hescape]) (by simp [hescape])]
    simp [hplain, hescape, hrest]

theorem unescapes_basicLines? : Unescapes (basicLines? false) where
  short hc hrest := by
    unfold shortEscape? at hc
    split at hc <;> cases hc <;> simp [basicLines?, shortEscape?, hrest]
  code hc hrest := by rw [basicLines?, hc, hrest]
  plain {c} _ _ _ hplain hquote hescape hrest := by
    have hreturn : c ≠ '\r' := by
      rintro rfl
      cases hplain
    simp [basicLines?, hplain, hquote, hescape, hreturn, hrest]

theorem isPlain_of_not_control {c : Char} (h : (c.toNat < 0x20 || c == '\x7F') = false) :
    isPlain c = true := by
  simp only [Bool.or_eq_false_iff, decide_eq_false_iff_not, Nat.not_lt, beq_eq_false_iff_ne] at h
  simp [isPlain, h]

theorem hexDigits_eq {n : Nat} (hn : n < 0x80) :
    ∃ x y z w, hexDigits n = [x, y, z, w] ∧ scalar? [x, y, z, w] = some (Char.ofNat n) := by
  have hread : ∀ n < 0x80, (hexDigits n).length = 4 ∧
      scalar? (hexDigits n) = some (Char.ofNat n) := by
    decide
  obtain ⟨hlength, hscalar⟩ := hread n hn
  obtain ⟨x, y, z, w, hdigits⟩ := List.length_eq_four.mp hlength
  exact ⟨x, y, z, w, hdigits, hdigits ▸ hscalar⟩

theorem Unescapes.escapeChar {read : List Char → Option (List Char × List Char)}
    (h : Unescapes read) {c : Char} {rest text left : List Char} (hquote : c ≠ '"')
    (hrest : read rest = some (text, left)) :
    read (escapeChar c ++ rest) = some (c :: text, left) := by
  unfold TomlText.escapeChar
  split
  · next hc =>
      obtain rfl := eq_of_beq hc
      exact h.short rfl hrest
  split
  · next hc =>
      obtain rfl := eq_of_beq hc
      exact h.short rfl hrest
  split
  · next hc =>
      obtain rfl := eq_of_beq hc
      exact h.short rfl hrest
  split
  · next hc =>
      obtain rfl := eq_of_beq hc
      exact h.short rfl hrest
  split
  · next hc =>
      obtain rfl := eq_of_beq hc
      exact h.short rfl hrest
  split
  · next hc =>
      obtain rfl := eq_of_beq hc
      exact h.short rfl hrest
  split
  · next hc =>
      have hn : c.toNat < 0x80 := by
        rcases Bool.or_eq_true_iff.mp hc with hlow | hdelete
        · have := of_decide_eq_true hlow
          omega
        · rw [eq_of_beq hdelete]
          decide
      obtain ⟨x, y, z, w, hdigits, hscalar⟩ := hexDigits_eq hn
      rw [hdigits]
      rw [Char.ofNat_toNat] at hscalar
      exact h.code hscalar hrest
  · next hescape hc =>
      exact h.plain (isPlain_of_not_control (by simpa using hc)) hquote
        (by simpa using hescape) hrest

theorem basic?_escapeFrom (cs rest : List Char) :
    basic? (escapeFrom false 0 0 cs ++ '"' :: rest) = some (cs, rest) := by
  induction cs with
  | nil => rfl
  | cons c cs ih =>
      rw [escapeFrom]
      split
      · next hc =>
          rw [eq_of_beq hc]
          exact unescapes_basic?.short rfl ih
      · next hc =>
          rw [if_neg (by simp), List.append_assoc]
          exact unescapes_basic?.escapeChar (by simpa using hc) ih

/-! Runs of quotes. -/

/-- Every run of a character is at most so long; the first one goes on with a run begun before. -/
def RunsWithin (quote : Char) (bound : Nat) : Nat → List Char → Prop
  | _, [] => True
  | run, c :: cs =>
      if c = quote then run < bound ∧ RunsWithin quote bound (run + 1) cs
      else RunsWithin quote bound 0 cs

/-- The run that a character ends or goes on with, and the longest one so far. -/
def countRun (quote : Char) (counts : Nat × Nat) (c : Char) : Nat × Nat :=
  if c == quote then (counts.1 + 1, max counts.2 (counts.1 + 1)) else (0, counts.2)

theorem le_countRun (quote : Char) (cs : List Char) (counts : Nat × Nat) :
    counts.2 ≤ (cs.foldl (countRun quote) counts).2 := by
  induction cs generalizing counts with
  | nil => exact Nat.le_refl _
  | cons c cs ih =>
      refine Nat.le_trans ?_ (ih (countRun quote counts c))
      unfold countRun
      split
      · exact Nat.le_max_left _ _
      · exact Nat.le_refl _

theorem runsWithin_of_countRun {quote : Char} {bound : Nat} {cs : List Char} {counts : Nat × Nat}
    (h : (cs.foldl (countRun quote) counts).2 ≤ bound) :
    RunsWithin quote bound counts.1 cs := by
  induction cs generalizing counts with
  | nil => trivial
  | cons c cs ih =>
      have htail := ih h
      rw [RunsWithin]
      rw [List.foldl_cons] at h
      split
      · next hc =>
          rw [countRun, if_pos (beq_iff_eq.mpr hc)] at htail h
          refine ⟨?_, htail⟩
          have hmax := Nat.le_trans (le_countRun quote cs _) h
          exact Nat.lt_of_succ_le (Nat.le_trans (Nat.le_max_right _ _) hmax)
      · next hc =>
          rwa [countRun, if_neg (by simpa using hc)] at htail

theorem runsWithin_of_longestRun {quote : Char} {bound : Nat} {cs : List Char}
    (h : longestRun quote cs ≤ bound) : RunsWithin quote bound 0 cs :=
  @runsWithin_of_countRun quote bound cs (0, 0) h

theorem not_mem_of_runsWithin {quote : Char} {cs : List Char} (h : RunsWithin quote 0 0 cs) :
    quote ∉ cs := by
  induction cs with
  | nil => exact List.not_mem_nil
  | cons c cs ih =>
      rw [RunsWithin] at h
      split at h
      · exact absurd h.1 (Nat.not_lt_zero 0)
      · next hc => simp [Ne.symm hc, ih h]

/-! Between apostrophes. -/

theorem literal?_append {cs : List Char} (hplain : ∀ c ∈ cs, isPlain c = true)
    (hquote : '\'' ∉ cs) (rest : List Char) :
    literal? (cs ++ '\'' :: rest) = some (cs, rest) := by
  induction cs with
  | nil => rfl
  | cons c cs ih =>
      rw [List.forall_mem_cons] at hplain
      rw [List.mem_cons, not_or] at hquote
      simp [literal?, Ne.symm hquote.1, hplain.1, ih hplain.2 hquote.2]

theorem literalLines?_quotes {run : Nat} (hrun : run ≤ 2) {c : Char} {rest text left : List Char}
    (hc : c ≠ '\'') (hrest : literalLines? (c :: rest) = some (text, left)) :
    literalLines? (List.replicate run '\'' ++ c :: rest) =
      some (List.replicate run '\'' ++ text, left) := by
  have hone : literalLines? ('\'' :: c :: rest) = some ('\'' :: text, left) := by
    rw [literalLines?.eq_6]
    · simp [hrest, isPlain]
    all_goals simp [hc]
  match run, hrun with
  | 0, _ => exact hrest
  | 1, _ => exact hone
  | 2, _ =>
      have htwo : literalLines? ('\'' :: '\'' :: c :: rest) =
          some ('\'' :: '\'' :: text, left) := by
        rw [literalLines?.eq_6]
        · simp [hone, isPlain]
        all_goals simp [hc]
      exact htwo

theorem literalLines?_append {cs : List Char} {run : Nat} {after : Char} (hrun : run ≤ 2)
    (hplain : ∀ c ∈ cs, isPlain c = true ∨ c = '\n') (hruns : RunsWithin '\'' 2 run cs)
    (hafter : after ≠ '\'') (rest : List Char) :
    literalLines? (List.replicate run '\'' ++ (cs ++ '\'' :: '\'' :: '\'' :: after :: rest)) =
      some (List.replicate run '\'' ++ cs, after :: rest) := by
  -- A run of quotes is read whole, by the character that ends it: up to there it is carried along.
  induction cs generalizing run with
  | nil =>
      match run, hrun with
      | 0, _ => simp [literalLines?, hafter]
      | 1, _ => simp [literalLines?, hafter]
      | 2, _ => simp [literalLines?]
  | cons c cs ih =>
      rw [List.forall_mem_cons] at hplain
      rw [RunsWithin] at hruns
      split at hruns
      · next hc =>
          obtain rfl := hc
          have hread := ih hruns.1 hplain.2 hruns.2
          rw [List.replicate_succ', List.append_assoc, List.append_assoc] at hread
          exact hread
      · next hc =>
          have hread := ih (Nat.zero_le 2) hplain.2 hruns
          refine literalLines?_quotes hrun hc ?_
          have hreturn : c ≠ '\r' := by
            rintro rfl
            simp [isPlain] at hplain
          rw [List.replicate_zero, List.nil_append, List.nil_append] at hread
          simp only [List.append_eq]
          simp [literalLines?, hc, hreturn, hplain.1, hread]

/-! Between three double quotes. -/

theorem exists_escapeChar {c : Char} (hc : c ≠ '"') :
    ∃ d ds, escapeChar c = d :: ds ∧ d ≠ '"' ∧ d ≠ '\n' ∧ d ≠ '\r' := by
  unfold escapeChar
  repeat' split
  case isFalse hbreak _ hreturn _ _ =>
      exact ⟨c, [], rfl, hc, by simpa using hbreak, by simpa using hreturn⟩
  all_goals exact ⟨_, _, rfl, by decide⟩

theorem basicLines?_quotes {run : Nat} (hrun : run ≤ 2) {c : Char} {rest text left : List Char}
    (hc : c ≠ '"') (hrest : basicLines? false (c :: rest) = some (text, left)) :
    basicLines? false (List.replicate run '"' ++ c :: rest) =
      some (List.replicate run '"' ++ text, left) := by
  have hone : basicLines? false ('"' :: c :: rest) = some ('"' :: text, left) := by
    simp [basicLines?, hc, hrest, isPlain]
  match run, hrun with
  | 0, _ => exact hrest
  | 1, _ => exact hone
  | 2, _ =>
      have htwo : basicLines? false ('"' :: '"' :: c :: rest) =
          some ('"' :: '"' :: text, left) := by
        simp [basicLines?, hc, hone, isPlain]
      exact htwo

theorem basicLines?_escapeFrom {cs : List Char} {run : Nat} {after : Char} (hrun : run ≤ 2)
    (hafter : after ≠ '"') (rest : List Char) :
    basicLines? false
        (List.replicate run '"' ++
          (escapeFrom true 2 run cs ++ '"' :: '"' :: '"' :: after :: rest)) =
      some (List.replicate run '"' ++ cs, after :: rest) := by
  induction cs generalizing run with
  | nil =>
      match run, hrun with
      | 0, _ => simp [escapeFrom, basicLines?, hafter]
      | 1, _ => simp [escapeFrom, basicLines?, hafter]
      | 2, _ => simp [escapeFrom, basicLines?]
  | cons c cs ih =>
      have hread := ih (Nat.zero_le 2)
      rw [List.replicate_zero, List.nil_append, List.nil_append] at hread
      rw [escapeFrom]
      split
      · next hc =>
          obtain rfl := eq_of_beq hc
          split
          · next hless =>
              have hmore := ih (Nat.succ_le_of_lt hless)
              rw [List.replicate_succ', List.append_assoc, List.append_assoc] at hmore
              exact hmore
          · exact basicLines?_quotes hrun (by decide) (unescapes_basicLines?.short rfl hread)
      · next hc =>
          have hquote : c ≠ '"' := by simpa using hc
          split
          · next hbreak =>
              obtain rfl : c = '\n' := by simpa using hbreak
              refine basicLines?_quotes hrun (by decide) ?_
              simp [basicLines?, hread]
          · obtain ⟨d, ds, hescape, hd, -⟩ := exists_escapeChar hquote
            have hchar := unescapes_basicLines?.escapeChar hquote hread
            rw [hescape] at hchar ⊢
            rw [List.append_assoc]
            exact basicLines?_quotes hrun hd hchar

/-! The four forms. -/

theorem dropLineBreak_of_head {c : Char} {rest : List Char} (hbreak : c ≠ '\n')
    (hreturn : c ≠ '\r') : dropLineBreak (c :: rest) = c :: rest := by
  simp [dropLineBreak, hbreak, hreturn]

theorem exists_escapeFrom {lines : Bool} (quotes : Nat) {c : Char} (cs : List Char)
    (hbreak : lines = true → c ≠ '\n') :
    ∃ d ds, escapeFrom lines quotes 0 (c :: cs) = d :: ds ∧
      (quotes = 0 → d ≠ '"') ∧ d ≠ '\n' ∧ d ≠ '\r' := by
  rw [escapeFrom]
  split
  · split
    · next hless => exact ⟨_, _, rfl, by omega, by decide, by decide⟩
    · exact ⟨_, _, rfl, fun _ => by decide, by decide, by decide⟩
  · next hc =>
    rw [if_neg (by simpa using hbreak)]
    obtain ⟨d, ds, hescape, hd, hends⟩ := exists_escapeChar (c := c) (by simpa using hc)
    rw [hescape]
    exact ⟨_, _, rfl, fun _ => hd, hends⟩

section

variable {after : Char} (hquote : after ≠ '"') (hapostrophe : after ≠ '\'') (cs rest : List Char)

include hquote in
theorem string?_basic :
    string? (writeIn .basic cs ++ after :: rest) = some (cs, after :: rest) := by
  have hread := basic?_escapeFrom cs (after :: rest)
  rw [writeIn, List.append_assoc, List.cons_append, List.singleton_append]
  cases cs with
  | nil => simp [escapeFrom, string?, hquote, basic?]
  | cons c cs =>
      have hbreak : false = true → c ≠ '\n' := nofun
      obtain ⟨d, ds, hescape, hd, -⟩ := exists_escapeFrom 0 cs hbreak
      rw [hescape, List.cons_append] at hread ⊢
      simp [string?, hd rfl, hread]

theorem string?_literal (hne : cs ≠ []) (hplain : ∀ c ∈ cs, isPlain c = true)
    (hfree : '\'' ∉ cs) :
    string? (writeIn .literal cs ++ after :: rest) = some (cs, after :: rest) := by
  have hread := literal?_append hplain hfree (after :: rest)
  obtain ⟨c, cs, rfl⟩ := List.exists_cons_of_ne_nil hne
  rw [List.mem_cons, not_or] at hfree
  simp only [writeIn, List.cons_append, List.append_assoc, List.nil_append] at hread ⊢
  simp [string?, Ne.symm hfree.1, hread]

include hquote in
theorem string?_basicLines :
    string? (writeIn .basicLines cs ++ after :: rest) = some (cs, after :: rest) := by
  have hread := @basicLines?_escapeFrom cs 0 after (Nat.zero_le 2) hquote rest
  rw [List.replicate_zero, List.nil_append, List.nil_append] at hread
  have hdrop : dropLineBreak (leadingBreak cs ++
      (escapeFrom true 2 0 cs ++ '"' :: '"' :: '"' :: after :: rest)) =
        escapeFrom true 2 0 cs ++ '"' :: '"' :: '"' :: after :: rest := by
    unfold leadingBreak
    split
    · rfl
    · next hbreak =>
        cases cs with
        | nil => rfl
        | cons c cs =>
            have hne : true = true → c ≠ '\n' := by
              rintro - rfl
              simp at hbreak
            obtain ⟨d, ds, hescape, -, hends⟩ := exists_escapeFrom 2 cs hne
            rw [hescape]
            exact dropLineBreak_of_head hends.1 hends.2
  rw [← hdrop] at hread
  simpa [writeIn, List.replicate, string?] using hread

include hapostrophe in
theorem string?_literalLines (hplain : ∀ c ∈ cs, isPlain c = true ∨ c = '\n')
    (hruns : RunsWithin '\'' 2 0 cs) :
    string? (writeIn .literalLines cs ++ after :: rest) = some (cs, after :: rest) := by
  have hread := literalLines?_append (Nat.zero_le 2) hplain hruns hapostrophe rest
  rw [List.replicate_zero, List.nil_append, List.nil_append] at hread
  have hdrop : dropLineBreak (leadingBreak cs ++
      (cs ++ '\'' :: '\'' :: '\'' :: after :: rest)) =
        cs ++ '\'' :: '\'' :: '\'' :: after :: rest := by
    unfold leadingBreak
    split
    · rfl
    · next hbreak =>
        cases cs with
        | nil => rfl
        | cons c cs =>
            refine dropLineBreak_of_head (by rintro rfl; simp at hbreak) ?_
            rintro rfl
            simp [isPlain] at hplain
  rw [← hdrop] at hread
  simpa [writeIn, List.replicate, string?] using hread

theorem isPlain_or_break {c : Char} (h : isControl c = false) : isPlain c = true ∨ c = '\n' := by
  by_cases htab : c = '\t'
  · exact .inl (by simp [isPlain, htab])
  by_cases hbreak : c = '\n'
  · exact .inr hbreak
  simp only [isControl, Bool.or_eq_false_iff] at h
  refine .inl (isPlain_of_not_control ?_)
  simpa [htab, hbreak] using h

inductive Fits : Style → List Char → Prop
  | basic {cs : List Char} : Fits .basic cs
  | literal {cs : List Char} (hne : cs ≠ []) (hplain : ∀ c ∈ cs, isPlain c = true)
      (hfree : '\'' ∉ cs) : Fits .literal cs
  | basicLines {cs : List Char} : Fits .basicLines cs
  | literalLines {cs : List Char} (hplain : ∀ c ∈ cs, isPlain c = true ∨ c = '\n')
      (hruns : RunsWithin '\'' 2 0 cs) : Fits .literalLines cs

/-- The form that is chosen for a text can hold it. -/
theorem fits_style (cs : List Char) : Fits (style cs) cs := by
  have hchars : cs.any isControl = false → ∀ c ∈ cs, isPlain c = true ∨ c = '\n' :=
    fun hcontrol c hc => isPlain_or_break (by simpa using List.any_eq_false.mp hcontrol c hc)
  unfold style
  simp only
  split
  · exact .basic
  next hbasic =>
  split
  · next hliteral =>
      simp only [Bool.and_eq_true, Bool.not_eq_true', beq_iff_eq] at hliteral
      obtain ⟨⟨hcontrol, hrun⟩, hbreak⟩ := hliteral
      refine .literal ?_ (fun c hc => ?_) ?_
      · rintro rfl
        exact hbasic rfl
      · refine (hchars hcontrol c hc).resolve_right ?_
        rintro rfl
        simp [hc] at hbreak
      · exact not_mem_of_runsWithin (runsWithin_of_longestRun (Nat.le_of_eq hrun))
  split
  · exact .basicLines
  split
  · next hlines =>
      simp only [Bool.and_eq_true, Bool.not_eq_true', decide_eq_true_eq] at hlines
      exact .literalLines (hchars hlines.1) (runsWithin_of_longestRun hlines.2)
  split
  · exact .basicLines
  · exact .basic

include hquote hapostrophe in
theorem string?_writeIn {style : Style} (hfits : Fits style cs) :
    string? (writeIn style cs ++ after :: rest) = some (cs, after :: rest) := by
  cases hfits with
  | basic => exact string?_basic hquote cs rest
  | literal hne hplain hfree => exact string?_literal cs rest hne hplain hfree
  | basicLines => exact string?_basicLines hquote cs rest
  | literalLines hplain hruns => exact string?_literalLines hapostrophe cs rest hplain hruns

end

theorem exists_writeIn (style : Style) (cs : List Char) :
    ∃ c rest, writeIn style cs = c :: rest ∧ (c = '"' ∨ c = '\'') := by
  cases style with
  | basic | basicLines => exact ⟨_, _, rfl, .inl rfl⟩
  | literal | literalLines => exact ⟨_, _, rfl, .inr rfl⟩

end Extraction.TomlText
