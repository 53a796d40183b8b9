import Extraction.Proofs.MemoryRun
import Extraction.Proofs.Repeat
import Extraction.Proofs.SlugNames
/-!
Whole extractions from one buffer, one after the other. Each takes a part of a literal out of the
block, which leaves the block and its list where they are, and imports the new component.
-/

namespace Extraction

open Byte CodeView Bytes Extraction.Balanced

theorem Bytes.splice_middle (before middle after replacement : Bytes) {span : Span}
    (hstart : span.start = before.length) (hstop : span.stop = before.length + middle.length) :
    (before ++ (middle ++ after)).splice span replacement =
      before ++ (replacement ++ after) := by
  rw [splice, hstart, hstop, ← List.drop_drop, List.take_left, List.drop_left, List.drop_left,
    List.append_assoc]

/-- A part of a literal between the braces of a block. No escape reaches over its ends. -/
structure LiteralPart (text : Bytes) (block : Block) where
  first : Bytes
  quote : UInt8
  before : Bytes
  selected : Bytes
  after : Bytes
  last : Bytes
  text_eq : text = first ++ (literalText quote (before ++ (selected ++ after)) ++ last)
  quotes : isQuote quote = true
  ends : EndsInCode first
  before_quoted : Quoted quote before
  selected_quoted : Quoted quote selected
  after_quoted : Quoted quote after
  openBrace_lt : block.openBrace < first.length
  le_closeBrace :
    first.length + (literalText quote (before ++ (selected ++ after))).length ≤ block.closeBrace

namespace LiteralPart

variable {text : Bytes} {block : Block} (part : LiteralPart text block)

def span : Span where
  start := part.first.length + 1 + part.before.length
  stop := part.first.length + 1 + part.before.length + part.selected.length

theorem splice_eq (replacement : Bytes) :
    text.splice part.span replacement = part.first ++
      (literalText part.quote (part.before ++ (replacement ++ part.after)) ++ part.last) := by
  have htext : text = (part.first ++ part.quote :: part.before) ++
      (part.selected ++ (part.after ++ part.quote :: part.last)) :=
    part.text_eq.trans (by simp [literalText])
  have hstart : part.span.start = (part.first ++ part.quote :: part.before).length := by
    simp [span]
    omega
  calc text.splice part.span replacement
      = ((part.first ++ part.quote :: part.before) ++
          (part.selected ++ (part.after ++ part.quote :: part.last))).splice part.span
            replacement := congrArg (·.splice part.span replacement) htext
    _ = (part.first ++ part.quote :: part.before) ++
          (replacement ++ (part.after ++ part.quote :: part.last)) :=
        splice_middle _ _ _ _ hstart (congrArg (· + part.selected.length) hstart)
    _ = _ := by simp [literalText]

end LiteralPart

namespace Balanced

/-- A text that starts with import lines and has a block that lists names. -/
inductive Imported (lines : Bytes) : List Bytes → Bytes → Prop
  | bare (source : BareSource) (hlead : lines <+: source.lead) : Imported lines [] source.text
  | listed (source : ListedSource) {names : List Bytes} (hlead : lines <+: source.lead)
      (hlists : source.Lists names) : Imported lines names source.text

theorem Literal.of_part {frame : Frame} {body : Bytes}
    (part : LiteralPart (frame.text body) (frame.block body)) :
    Literal frame body part.first part.quote (part.before ++ (part.selected ++ part.after))
      part.last := by
  have hopen : (frame.block body).openBrace + 1 = frame.bodyStart := frame.block_openBrace body
  have hclose := frame.block_closeBrace body
  refine ⟨part.quotes, part.before_quoted.append (part.selected_quoted.append part.after_quoted),
    part.ends, part.text_eq, ?_, ?_⟩
  · rw [← hopen]
    exact part.openBrace_lt
  · rw [← hclose]
    exact part.le_closeBrace

namespace Imported

variable {lines text : Bytes} {names : List Bytes} (himported : Imported lines names text)
include himported

theorem exists_scan :
    ∃ declaration, scan text = some declaration ∧
      (declaration.list.map fun list => list.entries text).getD [] = names := by
  cases himported with
  | bare source hlead => exact ⟨_, source.scan_text, rfl⟩
  | listed source hlead hlists =>
      exact ⟨_, source.scan_text, source.list_entries.trans hlists.entries⟩

theorem lines_prefix : lines <+: text := by
  cases himported with
  | bare source hlead => exact hlead.trans ⟨_, rfl⟩
  | listed source hlead hlists => exact hlead.trans ⟨_, rfl⟩

theorem splice {declaration : Declaration} (hscan : scan text = some declaration)
    (part : LiteralPart text declaration.block) {replacement : Bytes}
    (hquoted : Quoted part.quote replacement) :
    Imported lines names (text.splice part.span replacement) := by
  have hcontent := part.before_quoted.append (hquoted.append part.after_quoted)
  rw [part.splice_eq]
  cases himported with
  | bare source hlead =>
      obtain rfl := Option.some.inj (source.scan_text.symm.trans hscan)
      obtain ⟨target, htext, htarget⟩ := source.exists_replace (.of_part part) hcontent
      rw [← htext]
      exact .bare target (htarget ▸ hlead)
  | listed source hlead hlists =>
      obtain rfl := Option.some.inj (source.scan_text.symm.trans hscan)
      obtain ⟨target, htext, htarget, hcontents⟩ :=
        source.exists_replace hlists.bytes.isPlain (.of_part part) hcontent
      rw [← htext]
      exact .listed target (htarget ▸ hlead)
        ⟨hcontents ▸ hlists.entries, hcontents ▸ hlists.bytes⟩

theorem rewire (import_ : QuotedImport) :
    ∃ target block edit,
      rewire text import_.name import_.path .balanced = .rewired target block edit ∧
      Imported (import_.line text ++ lines) (utf8 import_.name :: names) target := by
  cases himported with
  | bare source hlead =>
      obtain ⟨target, hrewire, htarget, hcontents⟩ := source.exists_insert import_
      refine ⟨_, _, _, hrewire, .listed target ?_ ?_⟩
      · rw [htarget]
        exact List.prefix_append_right_inj _ |>.mpr hlead
      · exact ListedSource.lists_of_contents hcontents
  | listed source hlead hlists =>
      refine ⟨_, _, _, source.rewire_eq_prepend import_ hlists.endsInCode_trim,
        .listed _ ?_ (hlists.prepend import_)⟩
      exact List.prefix_append_right_inj _ |>.mpr hlead

end Imported

end Balanced

/-- A request about the buffer that the host has: a slug, and a part of a literal in the block. -/
structure ExtractRequest.IsFor (request : ExtractRequest) (host : MemoryHost) : Prop where
  buffer_eq : request.buffer = host.buffer
  slug : IsSlug (trimmed (request.identifier.getD "")).toList
  selects : ∃ declaration selection, scan host.buffer = some declaration ∧
    request.selection = some selection ∧
      ∃ part : LiteralPart host.buffer declaration.block, selection.span = part.span

/-- Extractions that succeed one after the other, the newest first. -/
inductive Runs (extractor : Extractor) (start : MemoryHost) :
    List ExtractRequest → List ExtractionReport → MemoryHost → Prop
  | nil : Runs extractor start [] [] start
  | cons {requests : List ExtractRequest} {reports : List ExtractionReport}
      {host next : MemoryHost} {request : ExtractRequest} {report : ExtractionReport}
      (hruns : Runs extractor start requests reports host) (hrequest : request.IsFor host)
      (hrun : (extractor.run request : MemoryRun ExtractionReport) host = (.ok report, next)) :
      Runs extractor start (request :: requests) (report :: reports) next

def ExtractionPlan.importLine (plan : ExtractionPlan) (request : ExtractRequest) : Bytes :=
  utf8 ("import \x7b " ++ plan.names.symbolicName ++ " \x7d from '" ++ plan.modulePath ++ "';") ++
    lineEnding (plan.selectionEdit.apply request.buffer)

variable {extractor : Extractor} {host next : MemoryHost} {request : ExtractRequest}
  {report : ExtractionReport}

/-- The plan of one more extraction, and the buffer that it leaves. -/
theorem Balanced.Imported.run {lines : Bytes} {names : List Bytes}
    (himported : Imported lines names host.buffer)
    (hoptions : extractor.options = { blockScan := .balanced }) (hrequest : request.IsFor host)
    (hrun : (extractor.run request : MemoryRun ExtractionReport) host = (.ok report, next)) :
    ∃ plan, extractor.plan request = .ok plan ∧
      report = ⟨plan.names, plan.file.path, .rewired⟩ ∧
      Imported (plan.importLine request ++ lines) (utf8 plan.names.symbolicName :: names)
        next.buffer ∧
      FileMap.get? host.files plan.file.path = none ∧
      next.files = FileMap.insert plan.file.path plan.file.content host.files := by
  obtain ⟨plan, hplan, happly⟩ := Extractor.of_run_ok hrun
  obtain ⟨hreport, hbuffer, hfree, hfiles⟩ := ExtractionPlan.of_apply_ok happly
  obtain ⟨selection, identifier, hselection, hidentifier, hnames, hpath, hedit, hrewire⟩ :=
    Extractor.of_plan_ok hplan
  have hslug : IsSlug identifier.text.toList := by
    rw [Identifier.of_parse_ok hidentifier]
    exact hrequest.slug
  obtain ⟨declaration, given, hscan, hgiven, part, hspan⟩ := hrequest.selects
  obtain ⟨hsame, -⟩ := Selection.of_validate_ok hselection
  obtain rfl := Option.some.inj (hgiven.symm.trans hsame)
  rw [hoptions] at hnames
  have hquoted : Quoted part.quote (utf8 plan.names.referenceTag) := by
    rw [hnames]
    exact identifier.quoted_referenceTag hslug part.quotes
  have hupdated : Imported lines names (plan.selectionEdit.apply request.buffer) := by
    rw [hedit, TextEdit.apply, hrequest.buffer_eq, hspan]
    exact himported.splice hscan part hquoted
  obtain ⟨target, block, edit, htarget, hnext⟩ :=
    hupdated.rewire (identifier.slugImport hslug)
  have hplanned : plan.rewire = some ⟨.rewired target block edit, true⟩ := by
    rw [hrewire, Extractor.planRewire, hoptions, hnames]
    exact congrArg (fun outcome => some (RewirePlan.mk outcome true)) htarget
  refine ⟨plan, hplan, ?_, ?_, hfree, hfiles⟩
  · rw [hreport, ExtractionPlan.finalReport, hplanned]
    rfl
  · rw [hbuffer, ExtractionPlan.finalBuffer, hplanned, ExtractionPlan.importLine, hpath, hnames]
    exact hnext

def importLines (requests : List ExtractRequest) (plans : List ExtractionPlan) : Bytes :=
  (List.zipWith (fun request plan => plan.importLine request) requests plans).flatten

/-- Any number of extractions that succeed, from a buffer whose block has no list. Each reports
that the buffer was rewired; the names are listed, the import lines stand in front, and the files
were created. -/
theorem runs_imported {start : MemoryHost} {block : Block} {requests : List ExtractRequest}
    {reports : List ExtractionReport}
    (hoptions : extractor.options = { blockScan := .balanced })
    (hscan : scan start.buffer = some ⟨block, none⟩)
    (hruns : Runs extractor start requests reports host) :
    ∃ plans : List ExtractionPlan,
      requests.map extractor.plan = plans.map .ok ∧
      reports = plans.map (fun plan => ⟨plan.names, plan.file.path, .rewired⟩) ∧
      (∃ declaration, scan host.buffer = some declaration ∧
        (declaration.list.map fun list => list.entries host.buffer).getD [] =
          plans.map fun plan => utf8 plan.names.symbolicName) ∧
      importLines requests plans <+: host.buffer ∧
      FileMap.Gained start.files (plans.map (·.file)) host.files := by
  have hall : ∃ plans : List ExtractionPlan,
      requests.map extractor.plan = plans.map .ok ∧
      reports = plans.map (fun plan => ⟨plan.names, plan.file.path, .rewired⟩) ∧
      Imported (importLines requests plans) (plans.map fun plan => utf8 plan.names.symbolicName)
        host.buffer ∧
      FileMap.Gained start.files (plans.map (·.file)) host.files := by
    -- A run replaces a part of a literal, which keeps the list, and then adds its import.
    induction hruns with
    | nil =>
        obtain ⟨source, hsource, -⟩ := exists_bareSource hscan
        refine ⟨[], rfl, rfl, ?_, .refl _⟩
        rw [← hsource]
        exact .bare source (List.nil_prefix)
    | cons hruns hrequest hrun ih =>
        obtain ⟨plans, hplans, hreports, himported, hgained⟩ := ih
        obtain ⟨plan, hplan, hreport, hnext, hfree, hfiles⟩ :=
          himported.run hoptions hrequest hrun
        refine ⟨plan :: plans, ?_, ?_, hnext, ?_⟩
        · rw [List.map_cons, List.map_cons, hplan, hplans]
        · rw [List.map_cons, hreport, hreports]
        · rw [hfiles]
          exact hgained.insert plan.file hfree
  obtain ⟨plans, hplans, hreports, himported, hgained⟩ := hall
  exact ⟨plans, hplans, hreports, himported.exists_scan, himported.lines_prefix, hgained⟩

/-- The second run finds the list that the first one made, behind the import line. -/
theorem runs_imported_twice :
    let extractor : Extractor := { options := { blockScan := .balanced } }
    let start : MemoryHost := { buffer := utf8 "@Component(\x7b a: 'xyz' \x7d)" }
    let middle := utf8 ("import \x7b BComponent \x7d from './b.component';\n" ++
      "@Component(\x7b a: 'x<app-b></app-b>z',\n  imports: [BComponent] \x7d)")
    let first : ExtractRequest := ⟨"a.ts", start.buffer, some ⟨utf8 "y", ⟨18, 19⟩⟩, some "b"⟩
    let second : ExtractRequest := ⟨"a.ts", middle, some ⟨utf8 "z", ⟨77, 78⟩⟩, some "c-d"⟩
    ∃ reports host, Runs extractor start [second, first] reports host ∧
      host.buffer = utf8 ("import \x7b CDComponent \x7d from './c-d.component';\n" ++
        "import \x7b BComponent \x7d from './b.component';\n" ++
        "@Component(\x7b a: 'x<app-b></app-b><app-c-d></app-c-d>',\n" ++
        "  imports: [CDComponent,BComponent] \x7d)") ∧
      ∃ plans : List ExtractionPlan,
        [second, first].map extractor.plan = plans.map .ok ∧
        reports = plans.map (fun plan => ⟨plan.names, plan.file.path, .rewired⟩) ∧
        (∃ declaration, scan host.buffer = some declaration ∧
          (declaration.list.map fun list => list.entries host.buffer).getD [] =
            plans.map fun plan => utf8 plan.names.symbolicName) ∧
        importLines [second, first] plans <+: host.buffer ∧
        FileMap.Gained start.files (plans.map (·.file)) host.files := by
  intro extractor start middle first second
  let last := utf8 ("import \x7b CDComponent \x7d from './c-d.component';\n" ++
    "import \x7b BComponent \x7d from './b.component';\n" ++
    "@Component(\x7b a: 'x<app-b></app-b><app-c-d></app-c-d>',\n" ++
    "  imports: [CDComponent,BComponent] \x7d)")
  have hscan : scan start.buffer = some ⟨⟨0, 24, 11, 22⟩, none⟩ := by decide +kernel
  have hmiddleScan :
      scan middle = some ⟨⟨44, 107, 55, 105⟩, some ⟨83, 104, ⟨93, 103⟩⟩⟩ := by
    decide +kernel
  have hfirst : first.IsFor start := by
    refine ⟨rfl, .segment (by decide) (by decide), _, _, hscan, rfl, ?_⟩
    exact ⟨⟨utf8 "@Component(\x7b a: ", apostrophe, utf8 "x", utf8 "y", utf8 "z", utf8 " \x7d)",
      rfl, rfl, by decide +kernel, .of_not_mem (by decide) (by decide),
      .of_not_mem (by decide) (by decide), .of_not_mem (by decide) (by decide),
      by decide, by decide⟩, rfl⟩
  have hslug : IsSlug (trimmed (second.identifier.getD "")).toList := by
    have hname : (trimmed (second.identifier.getD "")).toList = ['c'] ++ '-' :: ['d'] := by
      decide +kernel
    rw [hname]
    exact .hyphen (by decide) (by decide) (.segment (by decide) (by decide))
  let part : LiteralPart middle ⟨44, 107, 55, 105⟩ :=
    ⟨utf8 ("import \x7b BComponent \x7d from './b.component';\n" ++ "@Component(\x7b a: "),
      apostrophe, utf8 "x<app-b></app-b>", utf8 "z", [], utf8 ",\n  imports: [BComponent] \x7d)",
      by decide +kernel, rfl, by decide +kernel, .of_not_mem (by decide) (by decide),
      .of_not_mem (by decide) (by decide), .nil, by decide +kernel, by decide +kernel⟩
  have hmiddle : (extractor.plan first).toOption.map
      (fun plan => (plan.file.path, plan.finalBuffer start.buffer)) =
      some ("b.component.ts", middle) := by
    decide +kernel
  have hlast : (extractor.plan second).toOption.map
      (fun plan => (plan.file.path, plan.finalBuffer middle)) =
      some ("c-d.component.ts", last) := by
    decide +kernel
  obtain ⟨plan, hplan, hmade⟩ := exists_of_toOption hmiddle
  obtain ⟨hpath, hbuffer⟩ := Prod.mk.inj hmade
  obtain ⟨other, hother, hmade⟩ := exists_of_toOption hlast
  obtain ⟨hotherPath, hotherBuffer⟩ := Prod.mk.inj hmade
  obtain ⟨host, hrun, hhost, hfiles, hwrites, hreplaceAll⟩ : ∃ host,
      (extractor.run first : MemoryRun ExtractionReport) start = (.ok plan.finalReport, host) ∧
        host.buffer = middle ∧
        host.files = FileMap.insert plan.file.path plan.file.content [] ∧
        host.failWrites = none ∧ host.failReplaceAll = none :=
    ⟨_, MemoryHost.run_planned hplan rfl rfl rfl rfl, hbuffer, rfl, rfl, rfl⟩
  have hfree : FileMap.get? host.files other.file.path = none := by
    rw [hfiles, FileMap.get?_insert _ _ rfl, hpath, hotherPath, if_neg (by decide +kernel)]
    rfl
  have hsecond : second.IsFor host := by
    refine ⟨hhost.symm, hslug, _, _, hhost ▸ hmiddleScan, rfl, ?_⟩
    rw [hhost]
    exact ⟨part, by decide +kernel⟩
  obtain ⟨final, hfinal, hleft⟩ : ∃ final,
      (extractor.run second : MemoryRun ExtractionReport) host = (.ok other.finalReport, final) ∧
        final.buffer = last :=
    ⟨_, MemoryHost.run_planned hother hhost hwrites hreplaceAll hfree, hotherBuffer⟩
  have hruns : Runs extractor start [second, first] [other.finalReport, plan.finalReport] final :=
    .cons (.cons .nil hfirst hrun) hsecond hfinal
  exact ⟨_, _, hruns, hleft, runs_imported rfl hscan hruns⟩

end Extraction
