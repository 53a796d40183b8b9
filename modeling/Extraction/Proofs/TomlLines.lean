import Extraction.Proofs.TomlStrings
import Extraction.Toml.Document
/-!
Documents that are read line by line: headers, settings and empty lines, each of which is read
whatever comes after it.
-/

namespace Extraction.TomlDocument

theorem skipBlanks_cons {c : Char} (hc : isBlank c = false) (rest : List Char) :
    skipBlanks (c :: rest) = c :: rest :=
  List.dropWhile_cons_of_neg (by simp [hc])

theorem skipBlanks_blank (rest : List Char) : skipBlanks (' ' :: rest) = skipBlanks rest := rfl

theorem endLine?_break (rest : List Char) : endLine? ('\n' :: rest) = some rest := rfl

theorem isBlank_of_isBareKeyChar {c : Char} (hc : isBareKeyChar c = true) : isBlank c = false := by
  cases hblank : isBlank c with
  | false => rfl
  | true =>
      rcases Bool.or_eq_true_iff.mp hblank with h | h
      · rw [eq_of_beq h] at hc
        cases hc
      · rw [eq_of_beq h] at hc
        cases hc

structure IsBare (key : List Char) : Prop where
  ne_nil : key ≠ []
  bare : ∀ c ∈ key, isBareKeyChar c = true

theorem IsBare.of_all {key : List Char} (hne : key ≠ []) (hbare : key.all isBareKeyChar = true) :
    IsBare key :=
  ⟨hne, List.all_eq_true.mp hbare⟩

theorem IsBare.exists_cons {key : List Char} (h : IsBare key) :
    ∃ c cs, key = c :: cs ∧ isBareKeyChar c = true := by
  obtain ⟨c, cs, rfl⟩ := List.exists_cons_of_ne_nil h.ne_nil
  exact ⟨c, cs, rfl, h.bare c List.mem_cons_self⟩

theorem keyPart?_bare {key : List Char} (h : IsBare key) {rest : List Char}
    (hrest : ∀ c ∈ rest.head?, isBareKeyChar c = false) :
    keyPart? (key ++ rest) = some (String.ofList key, rest) := by
  have htake : (key ++ rest).takeWhile isBareKeyChar = key := by
    rw [List.takeWhile_append_of_pos h.bare]
    cases rest with
    | nil => simp
    | cons c rest => simp [hrest c rfl]
  obtain ⟨c, cs, rfl, hc⟩ := h.exists_cons
  unfold keyPart?
  split
  · next heq =>
      cases heq
      cases hc
  · next heq =>
      cases heq
      cases hc
  · rw [htake]
    simp

theorem key?_bare {key : List Char} (h : IsBare key) {rest after : List Char}
    (hrest : ∀ c ∈ rest.head?, isBareKeyChar c = false) (hafter : skipBlanks rest = after)
    (hdot : after.head? ≠ some '.') :
    key? (key ++ rest) = some ([], String.ofList key, after) := by
  have hskip : skipBlanks (key ++ rest) = key ++ rest := by
    obtain ⟨c, cs, rfl, hc⟩ := h.exists_cons
    exact skipBlanks_cons (isBlank_of_isBareKeyChar hc) _
  have hparts : keyParts? (depthLimit - 1) (key ++ rest) = some ([String.ofList key], after) := by
    rw [depthLimit, keyParts?, hskip, keyPart?_bare h hrest]
    simp only [hafter]
    split
    · exact absurd rfl hdot
    · rfl
  rw [key?, hparts]
  rfl

/-- A text that is read as a value if a line break follows it. -/
def Writes (text : List Char) (value : TomlValue) : Prop :=
  ∀ fuel depth rest, value? (fuel + 1) depth (skipBlanks (text ++ '\n' :: rest)) =
    some (value, '\n' :: rest)

open TomlText in
theorem writes_string (s : String) : Writes (write s).toList (.string s) := by
  intro fuel depth rest
  have hbreak : '\n' ≠ '"' ∧ '\n' ≠ '\'' := by decide
  have hread := string?_writeIn hbreak.1 hbreak.2 s.toList rest (fits_style s.toList)
  rw [write, String.toList_ofList]
  obtain ⟨c, cs, hwritten, hc⟩ := exists_writeIn (style s.toList) s.toList
  rw [hwritten, List.cons_append] at hread ⊢
  rcases hc with rfl | rfl
  · rw [skipBlanks_cons rfl]
    simp [value?, hread]
  · rw [skipBlanks_cons rfl]
    simp [value?, hread]

theorem writes_boolean (value : Bool) :
    Writes (if value then "true" else "false").toList (.boolean value) := by
  intro fuel depth rest
  cases value
  · rfl
  · rfl

/-- A text that is read to its end. -/
def Reads (state : State) (cs : List Char) (entries : TomlEntries) : Prop :=
  ∀ fuel, cs.length < fuel → lines? fuel state cs = some entries

theorem reads_nil {state : State} {entries : TomlEntries} (h : state.close = some entries) :
    Reads state [] entries := by
  intro fuel hfuel
  obtain ⟨fuel, rfl⟩ := Nat.exists_eq_succ_of_ne_zero (Nat.ne_of_gt hfuel)
  exact h

theorem reads_of_succ {state : State} {cs : List Char} {entries : TomlEntries}
    (h : ∀ fuel, cs.length ≤ fuel → lines? (fuel + 1) state cs = some entries) :
    Reads state cs entries := by
  intro fuel hfuel
  obtain ⟨fuel, rfl⟩ := Nat.exists_eq_succ_of_ne_zero (Nat.ne_of_gt (Nat.zero_lt_of_lt hfuel))
  exact h fuel (Nat.le_of_lt_succ hfuel)

theorem Reads.blank {state : State} {rest : List Char} {entries : TomlEntries}
    (h : Reads state rest entries) : Reads state ('\n' :: rest) entries :=
  reads_of_succ fun fuel hfuel => h fuel hfuel

theorem Reads.header {state opened : State} {name : String} {rest : List Char}
    {entries : TomlEntries} (hname : IsBare name.toList)
    (hopen : state.openTable [] name = some opened) (h : Reads opened rest entries) :
    Reads state ('[' :: (name.toList ++ ']' :: '\n' :: rest)) entries := by
  refine reads_of_succ fun fuel hfuel => ?_
  have hkey : key? (name.toList ++ ']' :: '\n' :: rest) =
      some ([], String.ofList name.toList, ']' :: '\n' :: rest) :=
    key?_bare hname (by simp; decide) rfl (by simp)
  rw [String.ofList_toList] at hkey
  have hrest : lines? fuel opened rest = some entries := by
    apply h
    simp only [List.length_cons, List.length_append] at hfuel
    omega
  obtain ⟨c, cs, hcons, hc⟩ := hname.exists_cons
  rw [lines?, skipBlanks_cons rfl]
  rw [hcons] at hkey ⊢
  split
  · next heq => cases heq
  · next heq =>
      cases heq
      cases hc
  · next heq =>
      cases heq
      rw [hkey]
      simp only [hopen, endLine?_break, hrest]
  · next hno heq =>
      cases heq
      exact (hno rfl).elim

theorem Reads.setting {state : State} {key : String} {text rest : List Char} {value : TomlValue}
    {entries : TomlEntries} (hkey : IsBare key.toList) (hvalue : Writes text value)
    (hfresh : state.entries.lookup key = none)
    (h : Reads { state with entries := state.entries ++ [(key, value)] } rest entries) :
    Reads state (key.toList ++ ' ' :: '=' :: ' ' :: (text ++ '\n' :: rest)) entries := by
  refine reads_of_succ fun fuel hfuel => ?_
  have hparts : key? (key.toList ++ ' ' :: '=' :: ' ' :: (text ++ '\n' :: rest)) =
      some ([], String.ofList key.toList, '=' :: ' ' :: (text ++ '\n' :: rest)) :=
    key?_bare hkey (by simp; decide) rfl (by simp)
  rw [String.ofList_toList] at hparts
  have hread (fuel : Nat) : value? (fuel + 1) 0 (skipBlanks (' ' :: (text ++ '\n' :: rest))) =
      some (value, '\n' :: rest) := by
    rw [skipBlanks_blank]
    exact hvalue _ _ _
  have hinsert : state.entries.insert key value [] true =
      some (state.entries ++ [(key, value)]) := by
    simp [TomlEntries.insert, hfresh]
  have hrest : lines? fuel { state with entries := state.entries ++ [(key, value)] } rest =
      some entries := by
    apply h
    simp only [List.length_cons, List.length_append] at hfuel
    omega
  obtain ⟨c, cs, hcons, hc⟩ := hkey.exists_cons
  rw [hcons, List.cons_append] at hparts ⊢
  rw [lines?, skipBlanks_cons (isBlank_of_isBareKeyChar hc)]
  split
  · next heq => cases heq
  · next heq =>
      obtain ⟨rfl, -⟩ := List.cons.inj heq
      cases hc
  · next heq =>
      obtain ⟨rfl, -⟩ := List.cons.inj heq
      cases hc
  · next heq =>
      cases heq
      have hline : ¬ (c == '#' || c == '\n' || c == '\r') = true := by
        intro hend
        simp only [Bool.or_eq_true, beq_iff_eq] at hend
        rcases hend with (rfl | rfl) | rfl <;> cases hc
      rw [if_neg hline, hparts]
      simp only [hread, hinsert, endLine?_break, hrest]

theorem State.close_table {root entries : TomlEntries} {name : String}
    (hfresh : root.lookup name = none) :
    (State.mk root (.table [] name) entries).close =
      some (root ++ [(name, .table .header entries)]) := by
  simp [close, TomlEntries.closeTable, TomlEntries.update, hfresh]

theorem State.openTable_fresh {state : State} {root : TomlEntries} {name : String}
    (hclose : state.close = some root) (hfresh : root.lookup name = none) :
    state.openTable [] name = some ⟨root, .table [] name, []⟩ := by
  simp [openTable, hclose, TomlEntries.openTable, hfresh]

theorem parse?_of_reads {document : String} {entries : TomlEntries}
    (hmark : document.toList.head? ≠ some '\uFEFF') (h : Reads {} document.toList entries) :
    parse? document = some entries := by
  rw [parse?, read?, if_neg (by simpa using hmark)]
  exact h _ (Nat.lt_succ_self _)

end Extraction.TomlDocument
