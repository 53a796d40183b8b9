import Extraction.Source.Rewire
/-!
Reading a source text piece by piece. What a piece shows depends on the mode it is entered in and,
at its very end, on the byte that follows it: a slash opens a comment only before a slash or a
star.
-/

namespace Extraction

open Byte

def Byte.isPlain (b : UInt8) : Bool :=
  !isQuote b && b != slash

theorem not_isIdent_of_not_isPlain {b : UInt8} (h : isPlain b = false) : isIdent b = false := by
  simp only [isPlain, isQuote, Bool.and_eq_false_iff, Bool.not_eq_false', Bool.or_eq_true,
    beq_iff_eq, bne_eq_false_iff_eq] at h
  rcases h with ((rfl | rfl) | rfl) | rfl <;> decide

theorem isPlain_of_isIdent {text : Bytes} (hident : text.all isIdent = true) :
    text.all isPlain = true := by
  rw [List.all_eq_true] at hident ⊢
  intro b hb
  cases hplain : isPlain b with
  | true => rfl
  | false => simpa [not_isIdent_of_not_isPlain hplain] using hident b hb

namespace Mode

theorem step_code_of_isPlain {b : UInt8} {next : Option UInt8} (hplain : isPlain b = true) :
    code.step b next = .code := by
  simp_all [isPlain, step]

def after : Mode → Bytes → Option UInt8 → Mode
  | mode, [], _ => mode
  | mode, b :: rest, next => (mode.step b (rest.head?.or next)).after rest next

def shown (mode : Mode) (b : UInt8) (next : Option UInt8) : Option UInt8 :=
  if mode.readsCode b next then some b else none

/-- The view of a text, given the byte that follows it. -/
def viewBefore : Mode → Bytes → Option UInt8 → CodeView
  | _, [], _ => []
  | mode, b :: rest, next =>
      mode.shown b (rest.head?.or next) ::
        (mode.step b (rest.head?.or next)).viewBefore rest next

@[simp] theorem after_nil (mode : Mode) (next : Option UInt8) :
    mode.after [] next = mode := rfl

@[simp] theorem viewBefore_nil (mode : Mode) (next : Option UInt8) :
    mode.viewBefore [] next = [] := rfl

@[simp] theorem length_viewBefore (mode : Mode) (text : Bytes) (next : Option UInt8) :
    (mode.viewBefore text next).length = text.length := by
  induction text generalizing mode with
  | nil => rfl
  | cons b rest ih => simp [viewBefore, ih]

theorem view_eq_viewBefore (mode : Mode) (text : Bytes) :
    mode.view text = mode.viewBefore text none := by
  induction text generalizing mode with
  | nil => rfl
  | cons b rest ih => simp [view, viewBefore, shown, ih]

theorem after_append (mode : Mode) (left right : Bytes) (next : Option UInt8) :
    mode.after (left ++ right) next =
      (mode.after left (right.head?.or next)).after right next := by
  induction left generalizing mode with
  | nil => rfl
  | cons b rest ih => simp [after, ih, Option.or_assoc]

theorem viewBefore_append (mode : Mode) (left right : Bytes) (next : Option UInt8) :
    mode.viewBefore (left ++ right) next =
      mode.viewBefore left (right.head?.or next) ++
        (mode.after left (right.head?.or next)).viewBefore right next := by
  induction left generalizing mode with
  | nil => rfl
  | cons b rest ih => simp [after, viewBefore, ih, Option.or_assoc]

theorem view_append (mode : Mode) (left right : Bytes) :
    mode.view (left ++ right) =
      mode.viewBefore left right.head? ++ (mode.after left right.head?).view right := by
  simp [view_eq_viewBefore, viewBefore_append]

/-! A following byte that cannot complete the opening of a comment. -/

def Calm (next : Option UInt8) : Prop :=
  next ≠ some slash ∧ next ≠ some star

instance (next : Option UInt8) : Decidable (Calm next) :=
  inferInstanceAs (Decidable (_ ∧ _))

theorem Calm.none : Calm none := by decide

theorem step_congr (mode : Mode) (b : UInt8) {first second : Option UInt8}
    (hfirst : Calm first) (hsecond : Calm second) :
    mode.step b first = mode.step b second := by
  obtain ⟨hfirstSlash, hfirstStar⟩ := hfirst
  obtain ⟨hsecondSlash, hsecondStar⟩ := hsecond
  cases mode <;> simp [step, hfirstSlash, hfirstStar, hsecondSlash, hsecondStar]

theorem readsCode_congr (mode : Mode) (b : UInt8) {first second : Option UInt8}
    (hfirst : Calm first) (hsecond : Calm second) :
    mode.readsCode b first = mode.readsCode b second := by
  cases mode <;> simp only [readsCode, step_congr _ b hfirst hsecond]

theorem shown_congr (mode : Mode) (b : UInt8) {first second : Option UInt8}
    (hfirst : Calm first) (hsecond : Calm second) :
    mode.shown b first = mode.shown b second := by
  rw [shown, shown, readsCode_congr mode b hfirst hsecond]

theorem after_congr (mode : Mode) (text : Bytes) {first second : Option UInt8}
    (hfirst : Calm first) (hsecond : Calm second) :
    mode.after text first = mode.after text second := by
  induction text generalizing mode with
  | nil => rfl
  | cons b rest ih =>
      cases rest with
      | nil => simp [after, step_congr mode b hfirst hsecond]
      | cons c rest => simpa [after] using ih (mode.step b (some c))

theorem viewBefore_congr (mode : Mode) (text : Bytes) {first second : Option UInt8}
    (hfirst : Calm first) (hsecond : Calm second) :
    mode.viewBefore text first = mode.viewBefore text second := by
  induction text generalizing mode with
  | nil => rfl
  | cons b rest ih =>
      cases rest with
      | nil => simp [viewBefore, shown_congr mode b hfirst hsecond]
      | cons c rest => exact congrArg (mode.shown b (some c) :: ·) (ih (mode.step b (some c)))

theorem step_eq_code_congr {mode : Mode} {b : UInt8} {first second : Option UInt8}
    (hcode : mode.step b first = .code) (hsecond : Calm second) :
    mode.step b second = .code ∧ mode.shown b second = mode.shown b first := by
  have hstep : mode.step b second = .code := by
    obtain ⟨hslash, hstar⟩ := hsecond
    cases mode <;> simp only [step] at hcode ⊢ <;> grind
  have hreads : mode.readsCode b second = mode.readsCode b first := by
    cases mode <;> simp only [readsCode, hstep, hcode]
  exact ⟨hstep, by rw [shown, shown, hreads]⟩

theorem after_eq_code_congr {mode : Mode} {text : Bytes} {first second : Option UInt8}
    (hcode : mode.after text first = .code) (hsecond : Calm second) :
    mode.after text second = .code ∧
      mode.viewBefore text second = mode.viewBefore text first := by
  induction text generalizing mode with
  | nil => exact ⟨hcode, rfl⟩
  | cons b rest ih =>
      cases rest with
      | nil =>
          obtain ⟨hstep, hshown⟩ :=
            step_eq_code_congr (by simpa [after] using hcode) hsecond
          exact ⟨by simpa [after] using hstep, by simp [viewBefore, hshown]⟩
      | cons c rest =>
          obtain ⟨hafter, hview⟩ :=
            @ih (mode.step b (some c)) (by simpa [after] using hcode)
          exact ⟨by simpa [after] using hafter,
            congrArg (mode.shown b (some c) :: ·) hview⟩

/-! Views and the texts they are views of. -/

theorem eq_of_shown_eq_some {mode : Mode} {b c : UInt8} {next : Option UInt8}
    (h : mode.shown b next = some c) : c = b := by
  rw [shown] at h
  split at h
  · exact (Option.some.inj h).symm
  · contradiction

theorem shown_eq_some {mode : Mode} {b c : UInt8} {next : Option UInt8}
    (h : mode.shown b next = some c) :
    mode = .code ∨ mode = .lineComment ∧ b = lineFeed := by
  rw [shown] at h
  split at h
  · next hreads =>
      cases mode <;> simp_all [readsCode, step]
  · contradiction

theorem view_eq_some_cons {mode : Mode} {text : Bytes} {b : UInt8} {rest : CodeView}
    (h : mode.view text = some b :: rest) :
    (∃ tail, text = b :: tail) ∧ (mode = .code ∨ mode = .lineComment ∧ b = lineFeed) := by
  cases text with
  | nil => cases h
  | cons c tail =>
      have hshown : mode.shown c tail.head? = some b := (List.cons.inj h).1
      obtain rfl := eq_of_shown_eq_some hshown
      exact ⟨⟨tail, rfl⟩, shown_eq_some hshown⟩

theorem mem_of_mem_view {mode : Mode} {text : Bytes} {b : UInt8} (h : some b ∈ mode.view text) :
    b ∈ text := by
  induction text generalizing mode with
  | nil => cases h
  | cons c text ih =>
      rcases List.mem_cons.mp h with hshown | hmem
      · have hhead : mode.shown c text.head? = some b := hshown.symm
        rw [eq_of_shown_eq_some hhead]
        exact List.mem_cons_self
      · exact List.mem_cons_of_mem _ (ih hmem)

theorem view_eq_append {mode : Mode} {text : Bytes} {left right : CodeView}
    (h : mode.view text = left ++ right) :
    ∃ first second, text = first ++ second ∧
      mode.viewBefore first second.head? = left ∧
      (mode.after first second.head?).view second = right := by
  refine ⟨text.take left.length, text.drop left.length,
    (List.take_append_drop _ _).symm, ?_⟩
  rw [← List.take_append_drop left.length text, view_append] at h
  have hlength : left.length ≤ text.length := by
    have := congrArg List.length h
    simp at this
    omega
  exact List.append_inj h (by simp [hlength])

theorem eq_of_viewBefore_eq_map {mode : Mode} {text piece : Bytes} {next : Option UInt8}
    (h : mode.viewBefore text next = piece.map some) : text = piece := by
  induction text generalizing mode piece with
  | nil =>
      cases piece with
      | nil => rfl
      | cons c piece => cases h
  | cons b rest ih =>
      cases piece with
      | nil => cases h
      | cons c piece =>
          obtain ⟨hhead, htail⟩ := List.cons.inj h
          rw [eq_of_shown_eq_some hhead, ih htail]

/-! Text without quotes and slashes is code wherever code is read. -/

theorem after_code_of_plain {text : Bytes} {next : Option UInt8}
    (hplain : text.all isPlain = true) : code.after text next = .code := by
  induction text with
  | nil => rfl
  | cons b rest ih =>
      simp only [List.all_cons, Bool.and_eq_true] at hplain
      rw [after, step_code_of_isPlain hplain.1, ih hplain.2]

theorem viewBefore_code_of_plain {text : Bytes} {next : Option UInt8}
    (hplain : text.all isPlain = true) : code.viewBefore text next = text.map some := by
  induction text with
  | nil => rfl
  | cons b rest ih =>
      simp only [List.all_cons, Bool.and_eq_true] at hplain
      rw [viewBefore, step_code_of_isPlain hplain.1, ih hplain.2, shown, readsCode,
        step_code_of_isPlain hplain.1]
      rfl

theorem map_prefix_view_iff {piece text : Bytes} (hplain : piece.all isPlain = true) :
    piece.map some <+: code.view text ↔ piece <+: text := by
  constructor
  · rintro ⟨rest, hview⟩
    obtain ⟨first, second, rfl, hfirst, -⟩ := view_eq_append hview.symm
    rw [eq_of_viewBefore_eq_map hfirst]
    exact List.prefix_append _ _
  · rintro ⟨rest, rfl⟩
    rw [view_append, viewBefore_code_of_plain hplain]
    exact List.prefix_append _ _

/-- Literals are opened by quotes only. -/
def WellQuoted : Mode → Prop
  | .literal quote => isQuote quote = true
  | .escape quote => isQuote quote = true
  | _ => True

theorem WellQuoted.step {mode : Mode} (hquoted : mode.WellQuoted) (b : UInt8)
    (next : Option UInt8) : (mode.step b next).WellQuoted := by
  cases mode <;> simp only [Mode.step] <;> grind [WellQuoted]

theorem WellQuoted.after {mode : Mode} (hquoted : mode.WellQuoted) (text : Bytes)
    (next : Option UInt8) : (mode.after text next).WellQuoted := by
  induction text generalizing mode with
  | nil => exact hquoted
  | cons b rest ih => exact ih (hquoted.step b _)

/-- A literal or a block comment is open. -/
def Holds : Mode → Prop
  | .code => False
  | .lineComment => False
  | _ => True

theorem WellQuoted.holds_after {mode : Mode} (hquoted : mode.WellQuoted) (hholds : mode.Holds)
    {text : Bytes} (hplain : text.all isPlain = true) (next : Option UInt8) :
    (mode.after text next).Holds := by
  induction text generalizing mode with
  | nil => exact hholds
  | cons b rest ih =>
      rw [List.all_cons, Bool.and_eq_true] at hplain
      refine ih (hquoted.step b _) ?_ hplain.2
      have hb := hplain.1
      rw [isPlain] at hb
      cases mode <;> simp only [Mode.step] <;> grind [WellQuoted, Holds, isPlain]

theorem WellQuoted.shown_of_step_eq_code {mode : Mode} (hquoted : mode.WellQuoted)
    {b : UInt8} {next : Option UInt8} (hcode : mode.step b next = .code) :
    mode.shown b next = some b ∨ isPlain b = false := by
  cases mode with
  | code => left; simp [shown, readsCode, hcode]
  | lineComment => left; simp [shown, readsCode, hcode]
  | literal quote =>
      right
      simp only [Mode.step] at hcode
      have hclosing : b = quote := by grind
      simpa [isPlain, hclosing] using fun hnot => absurd hquoted (by simp [WellQuoted, hnot])
  | blockStar =>
      right
      simp only [Mode.step] at hcode
      have hclosing : b = slash := by grind
      simp [isPlain, hclosing]
  | escape quote => cases hcode
  | blockOpen => cases hcode
  | blockComment =>
      simp only [Mode.step] at hcode
      grind

end Mode

end Extraction
