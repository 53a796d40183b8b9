import Extraction.Proofs.CheckedRewire
import Extraction.Proofs.Planning
/-!
Planning with every cut and subtraction checked. A range of a string's encoding can be cut out
exactly if characters end at both of its offsets, so the edit of an accepted selection leaves whole
characters, and on those rewiring cuts nothing that it cannot cut.
-/

namespace Extraction

open Byte Bytes

/-! Offsets between characters. -/

/-- An offset between two characters of a string, or at one of its ends. -/
def IsCharOffset (source : String) (offset : Nat) : Prop :=
  ∃ first second, source = first ++ second ∧ offset = (utf8 first).length

namespace Bytes

theorem head?_utf8 (s : String) : (utf8 s).head?.any isContinuation = false := by
  rw [utf8]
  cases s.toList with
  | nil => rfl
  | cons c cs =>
      rw [List.flatMap_cons, List.head?_append_of_ne_nil _ String.utf8EncodeChar_ne_nil]
      exact (utf8EncodeChar_unbroken c).1

theorem isBoundary_of_append {left right : Bytes} {offset : Nat}
    (h : isBoundary (left ++ right) (left.length + offset) = true) :
    isBoundary right offset = true := by
  unfold isBoundary at h ⊢
  rw [List.getElem?_append_right (Nat.le_add_right _ _), Nat.add_sub_cancel_left] at h
  cases hat : right[offset]? with
  | none =>
      rw [hat] at h
      simpa using h
  | some b =>
      rw [hat] at h
      simp only [Bool.or_eq_true, beq_iff_eq, Nat.add_eq_zero_iff] at h ⊢
      exact h.imp_left And.right

theorem not_isBoundary_of_lt {c : Char} {rest : Bytes} {offset : Nat} (hpos : 0 < offset)
    (hlt : offset < (String.utf8EncodeChar c).length) :
    isBoundary (String.utf8EncodeChar c ++ rest) offset = false := by
  obtain ⟨more, rfl⟩ := Nat.exists_eq_add_of_le' hpos
  have htail : more < (String.utf8EncodeChar c).tail.length := by
    rw [List.length_tail]
    omega
  have hmem : (String.utf8EncodeChar c)[more + 1] ∈ (String.utf8EncodeChar c).tail := by
    rw [← List.getElem_tail htail]
    exact List.getElem_mem htail
  have hcontinues := isContinuation_of_mem_tail_utf8EncodeChar hmem
  rw [isBoundary, List.getElem?_append_left hlt, List.getElem?_eq_getElem hlt]
  simp [hcontinues]

theorem isBoundary_utf8_iff {source : String} {offset : Nat} :
    isBoundary (utf8 source) offset = true ↔ IsCharOffset source offset := by
  constructor
  · suffices hchars : ∀ cs : List Char,
        isBoundary (cs.flatMap String.utf8EncodeChar) offset = true →
          ∃ first second, cs = first ++ second ∧
            offset = (first.flatMap String.utf8EncodeChar).length by
      intro h
      obtain ⟨first, second, hsource, hoffset⟩ := hchars source.toList h
      refine ⟨String.ofList first, String.ofList second, ?_, by simpa [utf8] using hoffset⟩
      rw [← String.ofList_append, ← hsource, String.ofList_toList]
    intro cs
    induction cs generalizing offset with
    | nil =>
        intro h
        exact ⟨[], [], rfl, by simpa [isBoundary] using h⟩
    | cons c cs ih =>
        intro h
        rw [List.flatMap_cons] at h
        cases Nat.eq_zero_or_pos offset with
        | inl hzero => exact ⟨[], c :: cs, rfl, hzero⟩
        | inr hpos =>
            have hle : (String.utf8EncodeChar c).length ≤ offset := by
              by_contra hlt
              rw [not_isBoundary_of_lt hpos (Nat.lt_of_not_le hlt)] at h
              cases h
            obtain ⟨more, rfl⟩ := Nat.exists_eq_add_of_le hle
            obtain ⟨first, second, rfl, rfl⟩ := ih (isBoundary_of_append h)
            exact ⟨c :: first, second, rfl, by simp⟩
  · rintro ⟨first, second, rfl, rfl⟩
    have hhead := head?_utf8 second
    rw [utf8_append, isBoundary, List.getElem?_append_right (Nat.le_refl _), Nat.sub_self,
      ← List.head?_eq_getElem?]
    cases hsecond : (utf8 second).head? with
    | none => simp [List.head?_eq_none_iff.mp hsecond]
    | some b =>
        rw [hsecond] at hhead
        simp [show isContinuation b = false from hhead]

end Bytes

theorem Span.fits_utf8_iff {span : Span} {source : String} :
    span.fits (utf8 source) = true ↔ ∃ before chosen after, source = before ++ (chosen ++ after) ∧
      span = ⟨(utf8 before).length, (utf8 before).length + (utf8 chosen).length⟩ := by
  obtain ⟨start, stop⟩ := span
  simp only [Span.fits, Bool.and_eq_true, decide_eq_true_eq]
  constructor
  · rintro ⟨⟨hle, hstart⟩, hstop⟩
    obtain ⟨before, rest, rfl, rfl⟩ := isBoundary_utf8_iff.mp hstart
    obtain ⟨width, rfl⟩ := Nat.exists_eq_add_of_le hle
    rw [utf8_append] at hstop
    obtain ⟨chosen, after, rfl, rfl⟩ := isBoundary_utf8_iff.mp (isBoundary_of_append hstop)
    exact ⟨before, chosen, after, rfl, rfl⟩
  · rintro ⟨before, chosen, after, rfl, hspan⟩
    obtain ⟨rfl, rfl⟩ := Span.mk.inj hspan
    refine ⟨⟨Nat.le_add_right _ _, isBoundary_utf8_iff.mpr ⟨before, _, rfl, rfl⟩⟩,
      isBoundary_utf8_iff.mpr ⟨before ++ chosen, after, (String.append_assoc ..).symm, ?_⟩⟩
    rw [utf8_append, List.length_append]

/-! The functions with their cuts and subtractions checked. -/

namespace Extractor

def planRewire? (extractor : Extractor) (names : ComponentNames) (edit : TextEdit)
    (buffer : Bytes) : Option (Option RewirePlan) :=
  if extractor.options.rewireEnclosing then do
    let updated ← edit.applied? buffer
    let outcome ←
      rewire? updated names.symbolicName names.modulePath extractor.options.blockScan
    return some
      { outcome, keepImportWithoutBlock := extractor.options.keepImportWithoutBlock }
  else some none

def plan? (extractor : Extractor) (request : ExtractRequest) :
    Option (Except ExtractError ExtractionPlan) :=
  match Selection.validate request.buffer request.selection with
  | .error err => some (.error err)
  | .ok selection =>
      match Identifier.parse (request.identifier.getD "") with
      | .error err => some (.error err)
      | .ok identifier =>
          let names := extractor.options.naming.derive identifier
          match extractor.synthesizeFile names selection.text request.enclosingPath with
          | .error err => some (.error err)
          | .ok file => do
              let selectionEdit : TextEdit := ⟨selection.span, utf8 names.referenceTag⟩
              let rewire ← extractor.planRewire? names selectionEdit request.buffer
              return .ok { names, modulePath := names.modulePath, file, selectionEdit, rewire }

end Extractor

/-! What they give for the encoding of a string. -/

theorem TextEdit.applied?_eq {edit : TextEdit} {text : Bytes}
    (hfits : edit.span.fits text = true) : edit.applied? text = some (edit.apply text) := by
  simp only [Span.fits, Bool.and_eq_true, decide_eq_true_eq] at hfits
  obtain ⟨⟨hle, hstart⟩, hstop⟩ := hfits
  have hlength := le_length_of_isBoundary hstop
  have hwidth : edit.span.stop - edit.span.start ≤ text.length := by omega
  have hbefore := slice?_eq (Nat.zero_le _) (isBoundary_zero text) hstart
  have hafter := slice?_eq hlength hstop (isBoundary_length text)
  simp [applied?, checkedSub?, hle, hwidth, hbefore, hafter, slice_zero, slice_length, apply,
    splice]

theorem TextEdit.unbroken_apply {span : Span} {source : String}
    (hfits : span.fits (utf8 source) = true) (replacement : String) :
    Unbroken ((TextEdit.mk span (utf8 replacement)).apply (utf8 source)) := by
  obtain ⟨before, chosen, after, rfl, rfl⟩ := Span.fits_utf8_iff.mp hfits
  have hnew : (TextEdit.mk ⟨(utf8 before).length, (utf8 before).length + (utf8 chosen).length⟩
      (utf8 replacement)).apply (utf8 (before ++ (chosen ++ after))) =
        utf8 (before ++ (replacement ++ after)) := by
    simp [apply, splice]
  rw [hnew]
  exact unbroken_utf8 _

namespace Extractor

variable (extractor : Extractor) {span : Span} {source : String}

theorem planRewire?_eq (names : ComponentNames) (hfits : span.fits (utf8 source) = true) :
    extractor.planRewire? names ⟨span, utf8 names.referenceTag⟩ (utf8 source) =
      some (extractor.planRewire names
        ((TextEdit.mk span (utf8 names.referenceTag)).apply (utf8 source))) := by
  have hunbroken := TextEdit.unbroken_apply hfits names.referenceTag
  have hupdated := @TextEdit.applied?_eq ⟨span, utf8 names.referenceTag⟩ (utf8 source) hfits
  rw [planRewire?, planRewire]
  split
  · simp [hupdated, rewire?_eq hunbroken]
  · rfl

/-- Planning on the encoding of a string cuts and subtracts nothing that it cannot. -/
theorem plan?_eq {request : ExtractRequest} (hbuffer : request.buffer = utf8 source) :
    extractor.plan? request = some (extractor.plan request) := by
  unfold plan? plan
  cases hselection : Selection.validate request.buffer request.selection with
  | error err => rfl
  | ok selection =>
      have hslice := (Selection.of_validate_ok hselection).2
      rw [hbuffer] at hslice
      have hfits := (slice?_eq_some_iff.mp hslice).1
      cases Identifier.parse (request.identifier.getD "") with
      | error err => rfl
      | ok identifier =>
          cases hfile : extractor.synthesizeFile (extractor.options.naming.derive identifier)
              selection.text request.enclosingPath with
          | error err => simp only [hfile]
          | ok file =>
              have hrewire :=
                extractor.planRewire?_eq (extractor.options.naming.derive identifier) hfits
              simp only [hfile, hbuffer, hrewire]
              rfl

end Extractor

end Extraction
