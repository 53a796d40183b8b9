import Mathlib.Algebra.Group.Nat.Defs
import Extraction.CommandLine.Range
/-!
The texts that name a range on a command line. A count is written in digits, with a plus sign in
front if one likes and white space around it; the two counts of a range stand around the first
colon or hyphen. Parsing accepts exactly these texts and gives the numbers that the digits write.
-/

namespace Extraction

structure WritesDigits (digits : List Char) (value : Nat) : Prop where
  ne_nil : digits ≠ []
  isDigit : ∀ c ∈ digits, c.isDigit = true
  value_eq : Nat.ofDigitChars 10 digits 0 = value
  value_lt : value < 2 ^ 64

/-- Such digits, perhaps behind a plus sign. -/
def WritesCount (cs : List Char) (value : Nat) : Prop :=
  WritesDigits cs value ∨ ∃ digits, cs = '+' :: digits ∧ WritesDigits digits value

def SpellsCount (cs : List Char) (value : Nat) : Prop :=
  ∃ before numeral after, cs = before ++ (numeral ++ after) ∧
    (∀ c ∈ before, isWhiteSpace c = true) ∧ (∀ c ∈ after, isWhiteSpace c = true) ∧
    WritesCount numeral value

/-- Two offsets around the first colon of a text. -/
def SpellsBytes (text : String) (span : Span) : Prop :=
  ∃ before after, text.toList = before ++ ':' :: after ∧ ':' ∉ before ∧
    SpellsCount before span.start ∧ SpellsCount after span.stop ∧ span.start ≤ span.stop

/-- Two line numbers around the first hyphen of a text, or one for both ends. -/
def SpellsLines (text : String) (range : LineRange) : Prop :=
  ∃ before after, (text.toList = before ++ '-' :: after ∧ '-' ∉ before ∨
      '-' ∉ text.toList ∧ before = text.toList ∧ after = text.toList) ∧
    SpellsCount before range.first ∧ SpellsCount after range.last ∧
    1 ≤ range.first ∧ range.first ≤ range.last

/-! Counts. -/

/-- A number only grows with further digits, so the first digit that takes it out of bounds is
where the whole numeral is out of bounds. -/
theorem readDigits_eq_ok_iff {cs : List Char} {value count : Nat} (hvalue : value < countBound) :
    readDigits value cs = .ok count ↔
      (∀ c ∈ cs, c.isDigit = true) ∧ Nat.ofDigitChars 10 cs value = count ∧ count < countBound := by
  induction cs generalizing value with
  | nil =>
      rw [readDigits, Nat.ofDigitChars_nil]
      constructor
      · intro h
        cases h
        exact ⟨by simp, rfl, hvalue⟩
      · rintro ⟨-, rfl, -⟩
        rfl
  | cons c cs ih =>
      have hdigit : ('0' ≤ c ∧ c ≤ '9') ↔ c.isDigit = true := Char.isDigit_iff_toNat.symm
      have hnext : value * 10 + (c.toNat - 48) = 10 * value + (c.toNat - '0'.toNat) := by
        rw [Nat.mul_comm]
        rfl
      rw [readDigits, Nat.ofDigitChars_cons, hnext, List.forall_mem_cons]
      by_cases hc : c.isDigit = true
      · rw [if_pos (hdigit.mpr hc)]
        simp only [hc, true_and]
        split
        · next hlt => exact ih hlt
        · next hge =>
            refine iff_of_false (fun h => nomatch h) ?_
            rintro ⟨-, rfl, hlt⟩
            rw [Nat.ofDigitChars_eq_ofDigitChars_zero] at hlt
            have hpos : 0 < 10 ^ cs.length := Nat.pow_pos (by decide)
            have hle := Nat.le_mul_of_pos_left (10 * value + (c.toNat - '0'.toNat)) hpos
            omega
      · rw [if_neg fun h => hc (hdigit.mp h)]
        exact iff_of_false (fun h => nomatch h) fun h => hc h.1.1

theorem readDigits_zero_eq_ok_iff {digits : List Char} {count : Nat} (hne : digits ≠ []) :
    readDigits 0 digits = .ok count ↔ WritesDigits digits count := by
  rw [readDigits_eq_ok_iff (by decide)]
  exact ⟨fun ⟨hdigits, hvalue, hlt⟩ => ⟨hne, hdigits, hvalue, hlt⟩,
    fun h => ⟨h.isDigit, h.value_eq, h.value_lt⟩⟩

theorem not_writesDigits_plus {rest : List Char} {value : Nat} :
    ¬ WritesDigits ('+' :: rest) value := fun h =>
  absurd (h.isDigit '+' List.mem_cons_self) (by decide)

theorem parseCount_eq_ok_iff {cs : List Char} {count : Nat} :
    parseCount cs = .ok count ↔ WritesCount cs count := by
  unfold parseCount
  split
  · refine iff_of_false (fun h => nomatch h) ?_
    rintro (h | ⟨digits, hcs, -⟩)
    · exact h.ne_nil rfl
    · cases hcs
  · refine iff_of_false (fun h => nomatch h) ?_
    rintro (h | ⟨digits, hcs, h⟩)
    · exact not_writesDigits_plus h
    · obtain rfl := (List.cons.inj hcs).2
      exact h.ne_nil rfl
  · next digits hne =>
      rw [readDigits_zero_eq_ok_iff fun hnil => hne (by rw [hnil])]
      constructor
      · exact fun h => .inr ⟨digits, rfl, h⟩
      · rintro (h | ⟨digits, hcs, h⟩)
        · exact absurd h not_writesDigits_plus
        · obtain rfl := (List.cons.inj hcs).2
          exact h
  · next hne _ hplus =>
      rw [readDigits_zero_eq_ok_iff hne]
      constructor
      · exact .inl
      · rintro (h | ⟨digits, hcs, -⟩)
        · exact h
        · exact absurd hcs (hplus digits)

theorem isWhiteSpace_of_writesCount {cs : List Char} {value : Nat} (h : WritesCount cs value) :
    cs ≠ [] ∧ ∀ c ∈ cs, isWhiteSpace c = false := by
  have hblank : whiteSpace.all (fun c => !c.isDigit) = true := by decide
  have hdigit : ∀ {digits : List Char}, WritesDigits digits value →
      ∀ c ∈ digits, isWhiteSpace c = false := by
    intro digits hdigits c hc
    rw [isWhiteSpace, List.contains_eq_mem, decide_eq_false_iff_not]
    intro hmem
    have hother := List.all_eq_true.mp hblank c hmem
    rw [hdigits.isDigit c hc] at hother
    cases hother
  rcases h with h | ⟨digits, rfl, h⟩
  · exact ⟨h.ne_nil, hdigit h⟩
  · exact ⟨List.cons_ne_nil _ _, List.forall_mem_cons.mpr ⟨by decide, hdigit h⟩⟩

/-! White space around a count. -/

theorem exists_trimChars (cs : List Char) :
    ∃ before after, cs = before ++ (trimChars cs ++ after) ∧
      (∀ c ∈ before, isWhiteSpace c = true) ∧ ∀ c ∈ after, isWhiteSpace c = true := by
  refine ⟨cs.takeWhile isWhiteSpace,
    (((cs.dropWhile isWhiteSpace).reverse.takeWhile isWhiteSpace)).reverse, ?_, ?_, ?_⟩
  · rw [trimChars, ← List.reverse_append, List.takeWhile_append_dropWhile, List.reverse_reverse,
      List.takeWhile_append_dropWhile]
  · exact List.all_eq_true.mp List.all_takeWhile
  · intro c hc
    exact List.all_eq_true.mp List.all_takeWhile c (List.mem_reverse.mp hc)

theorem trimChars_append {before core after : List Char}
    (hbefore : ∀ c ∈ before, isWhiteSpace c = true) (hafter : ∀ c ∈ after, isWhiteSpace c = true)
    (hne : core ≠ []) (hcore : ∀ c ∈ core, isWhiteSpace c = false) :
    trimChars (before ++ (core ++ after)) = core := by
  have hdrop : ∀ {kept rest : List Char}, kept ≠ [] → (∀ c ∈ kept, isWhiteSpace c = false) →
      (kept ++ rest).dropWhile isWhiteSpace = kept ++ rest := by
    intro kept rest hkept hnone
    cases kept with
    | nil => exact absurd rfl hkept
    | cons c kept =>
        rw [List.cons_append, List.dropWhile_cons_of_neg]
        simp [hnone c List.mem_cons_self]
  have hback : core.reverse.dropWhile isWhiteSpace = core.reverse := by
    have h := @hdrop core.reverse [] (by simpa using hne) fun c hc =>
      hcore c (List.mem_reverse.mp hc)
    rwa [List.append_nil] at h
  rw [trimChars, List.dropWhile_append_of_pos hbefore, hdrop hne hcore, List.reverse_append,
    List.dropWhile_append_of_pos fun c hc => hafter c (List.mem_reverse.mp hc), hback,
    List.reverse_reverse]

theorem parseTrimmedCount_eq_ok_iff {cs : List Char} {fault : String → NumeralError → RangeError}
    {count : Nat} : parseTrimmedCount cs fault = .ok count ↔ SpellsCount cs count := by
  have hparse : parseTrimmedCount cs fault = .ok count ↔ WritesCount (trimChars cs) count := by
    rw [← parseCount_eq_ok_iff, parseTrimmedCount]
    cases parseCount (trimChars cs) with
    | ok value => simp
    | error cause => simp
  rw [hparse]
  constructor
  · intro h
    obtain ⟨before, after, hcs, hbefore, hafter⟩ := exists_trimChars cs
    exact ⟨before, trimChars cs, after, hcs, hbefore, hafter, h⟩
  · rintro ⟨before, numeral, after, rfl, hbefore, hafter, h⟩
    obtain ⟨hne, hnumeral⟩ := isWhiteSpace_of_writesCount h
    rwa [trimChars_append hbefore hafter hne hnumeral]

/-! The first separator. -/

theorem splitAtFirst_eq_none_iff {separator : Char} {cs : List Char} :
    splitAtFirst separator cs = none ↔ separator ∉ cs := by
  induction cs with
  | nil => simp [splitAtFirst]
  | cons c cs ih =>
      rw [splitAtFirst, List.mem_cons, not_or, ← ih]
      split
      · next heq => simp [eq_of_beq heq]
      · next hne =>
          rw [Option.map_eq_none_iff]
          exact ⟨fun h => ⟨fun heq => hne (by simp [heq]), h⟩, And.right⟩

theorem splitAtFirst_eq_some_iff {separator : Char} {cs before after : List Char} :
    splitAtFirst separator cs = some (before, after) ↔
      cs = before ++ separator :: after ∧ separator ∉ before := by
  induction cs generalizing before with
  | nil => simp [splitAtFirst]
  | cons c cs ih =>
      rw [splitAtFirst]
      split
      · next heq =>
          obtain rfl := eq_of_beq heq
          cases before with
          | nil => simp
          | cons b before =>
              refine iff_of_false (by simp) ?_
              rintro ⟨hcs, hmem⟩
              exact hmem ((List.cons.inj hcs).1 ▸ List.mem_cons_self)
      · next hne =>
          have hc : c ≠ separator := by simpa using hne
          cases before with
          | nil => simp [hc]
          | cons b before =>
              simp only [Option.map_eq_some_iff, Prod.exists, Prod.mk.injEq, List.cons.injEq,
                List.cons_append, List.mem_cons, not_or]
              constructor
              · rintro ⟨front, back, h, ⟨rfl, rfl⟩, rfl⟩
                obtain ⟨hcs, hmem⟩ := ih.mp h
                exact ⟨⟨rfl, hcs⟩, Ne.symm hc, hmem⟩
              · rintro ⟨⟨rfl, hcs⟩, -, hmem⟩
                exact ⟨before, after, ih.mpr ⟨hcs, hmem⟩, ⟨rfl, rfl⟩, rfl⟩

/-! Ranges. -/

theorem both_eq_ok_iff {first last : Except RangeError Nat} {α : Type}
    {finish : Nat → Nat → Except RangeError α} {result : α} :
    (match first with
      | .error err => Except.error err
      | .ok a =>
          match last with
          | .error err => Except.error err
          | .ok b => finish a b) = Except.ok result ↔
      ∃ a b, first = .ok a ∧ last = .ok b ∧ finish a b = .ok result := by
  cases first with
  | error err => simp
  | ok a =>
      cases last with
      | error err => simp
      | ok b => simp

theorem parseByteRange_eq_ok_iff {text : String} {span : Span} :
    parseByteRange text = .ok span ↔ SpellsBytes text span := by
  unfold parseByteRange
  cases hsplit : splitAtFirst ':' text.toList with
  | none =>
      refine iff_of_false (fun h => nomatch h) ?_
      rintro ⟨before, after, htext, -⟩
      rw [splitAtFirst_eq_none_iff, htext] at hsplit
      simp at hsplit
  | some parts =>
      obtain ⟨before, after⟩ := parts
      refine both_eq_ok_iff.trans ?_
      simp only [parseTrimmedCount_eq_ok_iff]
      constructor
      · rintro ⟨start, stop, hstart, hstop, h⟩
        split at h
        · cases h
        · next hle =>
            cases h
            obtain ⟨htext, hmem⟩ := splitAtFirst_eq_some_iff.mp hsplit
            exact ⟨before, after, htext, hmem, hstart, hstop, Nat.le_of_not_lt hle⟩
      · rintro ⟨before, after, htext, hmem, hstart, hstop, hle⟩
        rw [splitAtFirst_eq_some_iff.mpr ⟨htext, hmem⟩] at hsplit
        cases hsplit
        exact ⟨span.start, span.stop, hstart, hstop, if_neg (Nat.not_lt.mpr hle)⟩

theorem getD_splitAtFirst_eq_iff {cs before after : List Char} :
    (splitAtFirst '-' cs).getD (cs, cs) = (before, after) ↔
      cs = before ++ '-' :: after ∧ '-' ∉ before ∨ '-' ∉ cs ∧ before = cs ∧ after = cs := by
  cases hsplit : splitAtFirst '-' cs with
  | none =>
      have hmem := splitAtFirst_eq_none_iff.mp hsplit
      rw [Option.getD_none, Prod.mk.injEq]
      constructor
      · rintro ⟨rfl, rfl⟩
        exact .inr ⟨hmem, rfl, rfl⟩
      · rintro (⟨rfl, -⟩ | ⟨-, rfl, rfl⟩)
        · simp at hmem
        · exact ⟨rfl, rfl⟩
  | some parts =>
      rw [Option.getD_some]
      constructor
      · rintro rfl
        exact .inl (splitAtFirst_eq_some_iff.mp hsplit)
      · rintro (h | ⟨hmem, -⟩)
        · exact Option.some.inj (hsplit.symm.trans (splitAtFirst_eq_some_iff.mpr h))
        · rw [splitAtFirst_eq_none_iff.mpr hmem] at hsplit
          cases hsplit

theorem parseLineRange_eq_ok_iff {text : String} {range : LineRange} :
    parseLineRange text = .ok range ↔ SpellsLines text range := by
  unfold parseLineRange
  cases hparts : (splitAtFirst '-' text.toList).getD (text.toList, text.toList) with
  | mk before after =>
      refine both_eq_ok_iff.trans ?_
      simp only [parseTrimmedCount_eq_ok_iff]
      constructor
      · rintro ⟨first, last, hfirst, hlast, h⟩
        split at h
        · cases h
        · next hle =>
            cases h
            rw [not_or] at hle
            exact ⟨before, after, getD_splitAtFirst_eq_iff.mp hparts, hfirst, hlast,
              Nat.one_le_iff_ne_zero.mpr hle.1, Nat.le_of_not_lt hle.2⟩
      · rintro ⟨front, back, htext, hfirst, hlast, hone, hle⟩
        rw [getD_splitAtFirst_eq_iff.mpr htext] at hparts
        cases hparts
        refine ⟨range.first, range.last, hfirst, hlast, if_neg ?_⟩
        omega

theorem exists_error_iff {ε α : Type} {result : Except ε α} :
    (∃ err, result = .error err) ↔ ∀ value, result ≠ .ok value := by
  cases result with
  | error err => simp
  | ok value => simp

theorem not_mem_toString {c : Char} (hc : c.isDigit = false) (value : Nat) :
    c ∉ (toString value).toList := by
  rw [Nat.toString_eq_repr, Nat.toList_repr]
  intro hmem
  rw [Nat.isDigit_of_mem_toDigits (by decide) (by decide) hmem] at hc
  cases hc

theorem spellsCount_toString {value : Nat} (hvalue : value < 2 ^ 64) :
    SpellsCount (toString value).toList value := by
  refine ⟨[], (toString value).toList, [], by simp, by simp, by simp, .inl ?_⟩
  rw [Nat.toString_eq_repr, Nat.toList_repr]
  exact ⟨Nat.toDigits_ne_nil, fun c hc => Nat.isDigit_of_mem_toDigits (by decide) (by decide) hc,
    Nat.ofDigitChars_ten_toDigits, hvalue⟩

/-- Range arguments are parsed by their grammar: every text that spells a range gives that range,
every other text is refused, and a range that is written in decimal is read back. -/
theorem ranges_spelled :
    (∀ text span, parseByteRange text = .ok span ↔ SpellsBytes text span) ∧
      (∀ text range, parseLineRange text = .ok range ↔ SpellsLines text range) ∧
      (∀ text, (∃ err, parseByteRange text = .error err) ↔ ∀ span, ¬ SpellsBytes text span) ∧
      (∀ text, (∃ err, parseLineRange text = .error err) ↔ ∀ range, ¬ SpellsLines text range) ∧
      ∀ start stop : Nat, start ≤ stop → stop < 2 ^ 64 →
        parseByteRange (toString start ++ ":" ++ toString stop) = .ok ⟨start, stop⟩ ∧
          (1 ≤ start →
            parseLineRange (toString start ++ "-" ++ toString stop) = .ok ⟨start, stop⟩) := by
  refine ⟨fun text span => parseByteRange_eq_ok_iff, fun text range => parseLineRange_eq_ok_iff,
    fun text => ?_, fun text => ?_, fun start stop hle hlt => ?_⟩
  · rw [exists_error_iff]
    exact forall_congr' fun span => not_congr parseByteRange_eq_ok_iff
  · rw [exists_error_iff]
    exact forall_congr' fun range => not_congr parseLineRange_eq_ok_iff
  · have hstart := spellsCount_toString (Nat.lt_of_le_of_lt hle hlt)
    have hstop := spellsCount_toString hlt
    constructor
    · exact parseByteRange_eq_ok_iff.mpr ⟨_, _, by simp, not_mem_toString (by decide) start,
        hstart, hstop, hle⟩
    · intro hone
      exact parseLineRange_eq_ok_iff.mpr ⟨_, _, .inl ⟨by simp, not_mem_toString (by decide) start⟩,
        hstart, hstop, hone, hle⟩

/-- The largest number of 64 bits is read back. -/
theorem ranges_spelled_largest :
    parseByteRange "3:18446744073709551615" = .ok ⟨3, 18446744073709551615⟩ ∧
      parseLineRange "3-18446744073709551615" = .ok ⟨3, 18446744073709551615⟩ := by
  obtain ⟨hbytes, hlines⟩ :=
    ranges_spelled.2.2.2.2 3 18446744073709551615 (by decide) (by decide)
  rw [show toString 3 ++ ":" ++ toString 18446744073709551615 = "3:18446744073709551615" by
    decide +kernel] at hbytes
  have hlines := hlines (by decide)
  rw [show toString 3 ++ "-" ++ toString 18446744073709551615 = "3-18446744073709551615" by
    decide +kernel] at hlines
  exact ⟨hbytes, hlines⟩

example : parseByteRange "3:18446744073709551616" =
    .error (.badEnd "18446744073709551616" .tooLarge) :=
  rfl

end Extraction
