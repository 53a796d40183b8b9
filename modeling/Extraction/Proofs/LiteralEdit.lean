import Extraction.Proofs.RepeatedRuns
import Extraction.Proofs.Rewritten
/-!
An edit inside a literal does not move the block. The view of the text hides more bytes or fewer
at one place between the braces, so the scan finds the same block and list, with the offsets
behind that place moved along.
-/

namespace Extraction

open Byte CodeView Extraction.Balanced

/-! Declarations that are alike but for their offsets. -/

section Related

variable (R : Nat → Nat → Prop)

structure Block.Related (block other : Block) : Prop where
  start : R block.start other.start
  stop : R block.stop other.stop
  openBrace : R block.openBrace other.openBrace
  closeBrace : R block.closeBrace other.closeBrace

structure ListProperty.Related (list other : ListProperty) : Prop where
  start : R list.start other.start
  stop : R list.stop other.stop
  contents_start : R list.contents.start other.contents.start
  contents_stop : R list.contents.stop other.contents.stop

inductive Declaration.Related : Declaration → Declaration → Prop
  | bare {block other : Block} (hblock : block.Related R other) :
      Related ⟨block, none⟩ ⟨other, none⟩
  | listed {block other : Block} {list otherList : ListProperty} (hblock : block.Related R other)
      (hlist : list.Related R otherList) : Related ⟨block, some list⟩ ⟨other, some otherList⟩

end Related

variable {R S : Nat → Nat → Prop}

theorem Block.Related.imp {block other : Block} (h : block.Related R other)
    (himp : ∀ offset moved, R offset moved → S offset moved) : block.Related S other :=
  ⟨himp _ _ h.start, himp _ _ h.stop, himp _ _ h.openBrace, himp _ _ h.closeBrace⟩

theorem Declaration.Related.imp {declaration other : Declaration}
    (h : declaration.Related R other) (himp : ∀ offset moved, R offset moved → S offset moved) :
    declaration.Related S other := by
  cases h with
  | bare hblock => exact .bare (hblock.imp himp)
  | listed hblock hlist =>
      exact .listed (hblock.imp himp) ⟨himp _ _ hlist.start, himp _ _ hlist.stop,
        himp _ _ hlist.contents_start, himp _ _ hlist.contents_stop⟩

/-- An offset outside a span, and where it is once the text of the span has another length. -/
def Span.Moves (span : Span) (length offset moved : Nat) : Prop :=
  offset < span.start ∧ moved = offset ∨
    span.stop < offset ∧ moved + (span.stop - span.start) = offset + length

namespace Balanced

abbrev hidden (width : Nat) : CodeView :=
  List.replicate (width + 1) none

/-- An offset that is not between hidden bytes, and where it is once their number is another. -/
def Passes (start width width' offset moved : Nat) : Prop :=
  offset ≤ start ∧ moved = offset ∨ start + width < offset ∧ moved + width = offset + width'

variable {width width' : Nat}

/-- Code that is shown stands before hidden bytes or behind them. -/
theorem hidden_behind_or_before {left rest before after : CodeView} {shown : Bytes}
    (hshown : shown ≠ [])
    (h : left ++ (shown.map some ++ rest) = before ++ (hidden width ++ after)) :
    (∃ more, left = before ++ (hidden width ++ more) ∧ after = more ++ (shown.map some ++ rest)) ∨
      ∃ more, before = left ++ (shown.map some ++ more) ∧
        rest = more ++ (hidden width ++ after) := by
  obtain ⟨b, tail, rfl⟩ := List.exists_cons_of_ne_nil hshown
  -- Where the two stretches would overlap is a byte that is both hidden and shown.
  have hnone : ∀ {front back : CodeView}, hidden width = front ++ back → some b ∉ back := by
    intro front back hsplit hmem
    cases List.eq_of_mem_replicate (hsplit ▸ List.mem_append_right front hmem)
  have hsome : ∀ {front back : CodeView}, (b :: tail).map some = front ++ back → none ∉ back := by
    intro front back hsplit hmem
    obtain ⟨c, -, hc⟩ := List.mem_map.mp (hsplit ▸ List.mem_append_right front hmem)
    cases hc
  rcases List.append_eq_append_iff.mp h with ⟨more, rfl, hmore⟩ | ⟨more, rfl, hmore⟩
  · rcases List.append_eq_append_iff.mp hmore with ⟨back, rfl, rfl⟩ | ⟨back, hsplit, hback⟩
    · exact .inr ⟨back, rfl, rfl⟩
    · cases back with
      | nil => exact .inr ⟨[], by rw [hsplit]; simp, hback.symm⟩
      | cons code back =>
          obtain ⟨rfl, -⟩ := List.cons.inj hback
          exact absurd List.mem_cons_self (hsome hsplit)
  · rcases List.append_eq_append_iff.mp hmore with ⟨back, rfl, rfl⟩ | ⟨back, hsplit, hback⟩
    · exact .inl ⟨back, rfl, rfl⟩
    · cases back with
      | nil => exact .inl ⟨[], by rw [hsplit]; simp, hback.symm⟩
      | cons code back =>
          obtain ⟨rfl, -⟩ := List.cons.inj hback
          exact absurd List.mem_cons_self (hnone hsplit)

theorem exists_hidden_body {lead body rest left right : CodeView} {blank : Bytes}
    (hview : left ++ (hidden width ++ right) = blockView lead blank body rest)
    (hopen : (blockAt lead blank body rest).openBrace < left.length)
    (hclose : left.length + (width + 1) ≤ (blockAt lead blank body rest).closeBrace) :
    ∃ before after, body = before ++ (hidden width ++ after) ∧
      left.length = lead.length + marker.length + blank.length + 1 + before.length ∧
      ∀ width', left ++ (hidden width' ++ right) =
        blockView lead blank (before ++ (hidden width' ++ after)) rest := by
  have hframe : ∀ body, blockView lead blank body rest =
      (lead ++ (openingText blank).map some) ++ (body ++ some closeBrace :: rest) := by
    simp [blockView]
  rw [hframe] at hview
  obtain ⟨before, after, rfl, rfl, rfl⟩ := exists_middle hview.symm
    (by simp [blockAt] at hopen ⊢; omega) (by simp [blockAt] at hclose ⊢; omega)
  refine ⟨before, after, rfl, by simp; omega, ?_⟩
  intro width'
  rw [hframe]
  simp

theorem related_blockAt (lead before after rest : CodeView) (blank : Bytes) :
    (blockAt lead blank (before ++ (hidden width ++ after)) rest).Related
      (Passes (lead.length + marker.length + blank.length + 1 + before.length) width width')
      (blockAt lead blank (before ++ (hidden width' ++ after)) rest) := by
  constructor <;> simp [blockAt, Passes] <;> omega

/-- A body with a list has hidden bytes before the list, in its contents or behind it. With more of
them, or fewer, it has the list still. -/
theorem exists_listedView {left contents right first last : CodeView} {before after : Bytes}
    {previous : Option UInt8} (width' : Nat)
    (hbody : ListedBody 0 previous left before after contents right)
    (hview : listedView left before after contents right = first ++ (hidden width ++ last)) :
    ∃ left' contents' right',
      ListedBody 0 previous left' before after contents' right' ∧
      first ++ (hidden width' ++ last) = listedView left' before after contents' right' ∧
      ∀ offset, (listedAt offset left before after contents).Related
        (Passes (offset + first.length) width width')
        (listedAt offset left' before after contents') := by
  have hveils : ∀ first last : CodeView,
      Veils (first ++ (hidden width ++ last)) (first ++ (hidden width' ++ last)) :=
    fun first last => ⟨first, last, width, width', rfl, rfl⟩
  rcases hidden_behind_or_before (by simp [keyText]) hview with
    ⟨more, rfl, rfl⟩ | ⟨more, rfl, hmore⟩
  · refine ⟨_, _, _, (hveils first more).listedBody_left hbody, by simp [listedView], ?_⟩
    intro offset
    constructor <;> simp [listedAt, Passes] <;> omega
  · have hclosing : contents ++ ([closeBracket].map some ++ right) =
        more ++ (hidden width ++ last) := hmore
    rcases hidden_behind_or_before (List.cons_ne_nil _ _) hclosing with
      ⟨rest, rfl, rfl⟩ | ⟨rest, rfl, rfl⟩
    · refine ⟨_, _, _, (hveils more rest).listedBody_contents hbody, by simp [listedView], ?_⟩
      intro offset
      constructor <;> simp [listedAt, Passes] <;> omega
    · refine ⟨_, _, _, (hveils rest last).listedBody_right hbody, by simp [listedView], ?_⟩
      intro offset
      constructor <;> simp [listedAt, Passes] <;> omega

theorem exists_scanView_hidden {left right : CodeView} {declaration : Declaration} (width' : Nat)
    (hscan : scanView (left ++ (hidden width ++ right)) = some declaration)
    (hopen : declaration.block.openBrace < left.length)
    (hclose : left.length + (width + 1) ≤ declaration.block.closeBrace) :
    ∃ moved, scanView (left ++ (hidden width' ++ right)) = some moved ∧
      declaration.Related (Passes left.length width width') moved := by
  have hlayout := layout_of_scanView hscan
  generalize hview : left ++ (hidden width ++ right) = view at hlayout
  cases hlayout with
  | bare hlead hblank hbody =>
      obtain ⟨before, after, rfl, hlength, hother⟩ := exists_hidden_body hview hopen hclose
      have hveils : Veils (before ++ (hidden width ++ after))
          (before ++ (hidden width' ++ after)) := ⟨before, after, width, width', rfl, rfl⟩
      rw [hother, hlength]
      exact ⟨_, scanView_bare hlead hblank (hveils.bareBody hbody),
        .bare (related_blockAt _ before after _ _)⟩
  | listed hlead hblank hbody =>
      obtain ⟨before, after, hlisted, hlength, hother⟩ := exists_hidden_body hview hopen hclose
      obtain ⟨left', contents', right', hbody', hlisted', hlist⟩ :=
        exists_listedView width' hbody hlisted
      rw [hother, hlisted', scanView_listed hlead hblank hbody', hlength]
      refine ⟨_, rfl, .listed ?_ (hlist _)⟩
      rw [hlisted, ← hlisted']
      exact related_blockAt _ before after _ _

end Balanced

namespace LiteralPart

variable {text : Bytes} {declaration : Declaration} {replacement : Bytes}

/-- Another text in place of a part of a literal moves the declaration along with it. -/
theorem exists_scan_splice (hscan : Balanced.scan text = some declaration)
    (part : LiteralPart text declaration.block) (hquoted : Quoted part.quote replacement) :
    ∃ moved, Balanced.scan (text.splice part.span replacement) = some moved ∧
      declaration.Related (part.span.Moves replacement.length) moved := by
  have hcontent := part.before_quoted.append (part.selected_quoted.append part.after_quoted)
  have hcontent' := part.before_quoted.append (hquoted.append part.after_quoted)
  have hview : codeView text = codeView part.first ++ (hidden
      ((part.before ++ (part.selected ++ part.after)).length + 1) ++ codeView part.last) :=
    (congrArg codeView part.text_eq).trans (codeView_literal part.ends part.quotes hcontent)
  have hclose := part.le_closeBrace
  rw [Balanced.scan, hview] at hscan
  obtain ⟨moved, hmoved, hrelated⟩ := exists_scanView_hidden
    ((part.before ++ (replacement ++ part.after)).length + 1) hscan
    (by rw [length_codeView]; exact part.openBrace_lt)
    (by rw [length_codeView]; simp [literalText] at hclose ⊢; omega)
  refine ⟨moved, ?_, hrelated.imp ?_⟩
  · rw [part.splice_eq, Balanced.scan, codeView_literal part.ends part.quotes hcontent']
    exact hmoved
  · rintro offset moved (⟨hle, rfl⟩ | ⟨hlt, hmoved⟩)
    · refine .inl ⟨?_, rfl⟩
      simp [span] at hle ⊢
      omega
    · refine .inr ⟨?_, ?_⟩ <;> simp [span] at hlt hmoved ⊢ <;> omega

end LiteralPart

/-- A plan that was made for a selection of a span, with rewiring by the scan by depth. -/
structure ExtractionPlan.Rewires (plan : ExtractionPlan) (extractor : Extractor) (buffer : Bytes)
    (span : Span) : Prop where
  rewires : extractor.options.rewireEnclosing = true
  scans : extractor.options.blockScan = .balanced
  planned : ∃ request selection, extractor.plan request = .ok plan ∧ request.buffer = buffer ∧
    request.selection = some selection ∧ selection.span = span

/-- A text without the quote and without backslashes in place of a part of a literal in the block:
the scan by depth finds the declaration where it was, with the offsets behind the part moved along.
So a selection in a literal is planned to rewire that very block. -/
theorem scan_splice_literal {text : Bytes} {declaration : Declaration} {replacement : Bytes}
    (hscan : Balanced.scan text = some declaration) (part : LiteralPart text declaration.block)
    (hquote : part.quote ∉ replacement) (hbackslash : backslash ∉ replacement) :
    ∃ moved, Balanced.scan (text.splice part.span replacement) = some moved ∧
      declaration.Related (part.span.Moves replacement.length) moved ∧
      ∀ (extractor : Extractor) (plan : ExtractionPlan),
        plan.Rewires extractor text part.span → utf8 plan.names.referenceTag = replacement →
        ∃ source edit, plan.rewire = some
          ⟨.rewired source moved.block edit, extractor.options.keepImportWithoutBlock⟩ := by
  obtain ⟨moved, hmoved, hrelated⟩ :=
    part.exists_scan_splice hscan (.of_not_mem hquote hbackslash)
  refine ⟨moved, hmoved, hrelated, ?_⟩
  rintro extractor plan ⟨hrewires, hscans, request, selection, hplan, rfl, hselection, hspan⟩ htag
  obtain ⟨valid, identifier, hvalid, -, -, -, hedit, hrewire⟩ := Extractor.of_plan_ok hplan
  obtain ⟨hsame, -⟩ := Selection.of_validate_ok hvalid
  obtain rfl := Option.some.inj (hselection.symm.trans hsame)
  have hupdated : BlockScan.balanced.scan (plan.selectionEdit.apply request.buffer) =
      some moved := by
    rw [hedit, hspan, htag]
    exact hmoved
  obtain ⟨source, edit, hrewired⟩ :=
    exists_rewire_of_scan hupdated plan.names.symbolicName plan.names.modulePath
  refine ⟨source, edit, ?_⟩
  rw [hrewire, Extractor.planRewire, if_pos hrewires, hscans, hrewired]

theorem scan_splice_literal_listed :
    let text := utf8 "@Component(\x7b imports: ['xyz', A] \x7d)"
    let declaration : Declaration := ⟨⟨0, 35, 11, 33⟩, some ⟨13, 32, ⟨23, 31⟩⟩⟩
    let extractor : Extractor :=
      { options :=
          { synthesis := { importSource := "", template := "t" }, blockScan := .balanced }
        templateFile := fun _ => .readable (utf8 "<b>") }
    let request : ExtractRequest := ⟨"a.ts", text, some ⟨utf8 "y", ⟨25, 26⟩⟩, some "b"⟩
    ∃ plan moved, extractor.plan request = .ok plan ∧
      Balanced.scan (text.splice ⟨25, 26⟩ (utf8 plan.names.referenceTag)) = some moved ∧
      declaration.Related (Span.Moves ⟨25, 26⟩ (utf8 plan.names.referenceTag).length) moved ∧
      ∃ source edit, plan.rewire = some ⟨.rewired source moved.block edit, true⟩ := by
  intro text declaration extractor request
  have hscan : Balanced.scan text = some declaration := by decide +kernel
  have hmade : ((extractor.plan request).toOption.map fun plan =>
      (utf8 plan.names.referenceTag).all fun b => b != apostrophe && b != backslash) =
        some true := by decide +kernel
  let part : LiteralPart text declaration.block :=
    ⟨utf8 "@Component(\x7b imports: [", apostrophe, utf8 "x", utf8 "y", utf8 "z",
      utf8 ", A] \x7d)", rfl, rfl, by decide +kernel, .of_not_mem (by decide) (by decide),
      .of_not_mem (by decide) (by decide), .of_not_mem (by decide) (by decide),
      by decide, by decide⟩
  cases hplan : extractor.plan request with
  | error err =>
      rw [hplan] at hmade
      cases hmade
  | ok plan =>
      rw [hplan] at hmade
      have hplain := List.all_eq_true.mp (Option.some.inj hmade)
      have hquote : apostrophe ∉ utf8 plan.names.referenceTag := fun hmem => by
        simpa using hplain _ hmem
      have hbackslash : backslash ∉ utf8 plan.names.referenceTag := fun hmem => by
        simpa using hplain _ hmem
      obtain ⟨moved, hmoved, hrelated, hrewire⟩ :=
        scan_splice_literal hscan part hquote hbackslash
      have hplanned : plan.Rewires extractor text part.span :=
        ⟨rfl, rfl, request, _, hplan, rfl, rfl, rfl⟩
      exact ⟨plan, moved, rfl, hmoved, hrelated, hrewire extractor plan hplanned rfl⟩

end Extraction
