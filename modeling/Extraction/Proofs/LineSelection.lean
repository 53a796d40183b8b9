import Mathlib.Data.List.Induction
import Extraction.CommandLine.Run
import Extraction.Proofs.CheckedPlan
/-!
The bytes of a range of lines. There are as many lines as the text has by splitting it at its line
feeds. The range starts behind the line feed of the line above it and ends in front of the carriage
returns and the line feed that end its last line, so it can be selected.
-/

namespace Extraction

open Byte Bytes

/-! The lines of a text. -/

namespace Bytes

def withoutReturn (line : Bytes) : Bytes :=
  if line.getLast? = some carriageReturn then line.dropLast else line

/-- The lines of a text without their ends: a line feed ends a line, or a carriage return and a
line feed, and what stands behind the last line feed is a line if it is not empty. -/
def lines (text : Bytes) : List Bytes :=
  let pieces := List.splitOn lineFeed text
  pieces.dropLast.map withoutReturn ++ pieces.getLast?.toList.filter (· ≠ [])

/-- Lines that each end with their one line feed; the last may do without. -/
inductive EndedLines : List Bytes → Prop
  | nil : EndedLines []
  | last {line : Bytes} (hne : line ≠ []) (hfeed : lineFeed ∉ line) : EndedLines [line]
  | cons {line : Bytes} {more : List Bytes} (hfeed : lineFeed ∉ line) (hmore : EndedLines more) :
      EndedLines ((line ++ [lineFeed]) :: more)

theorem endedLines_linesWithEnds (text : Bytes) : EndedLines (linesWithEnds text) := by
  induction text with
  | nil => exact .nil
  | cons b rest ih =>
      rw [linesWithEnds]
      split
      · next hb =>
          obtain rfl := eq_of_beq hb
          exact .cons List.not_mem_nil ih
      · next hb =>
          have hother : lineFeed ≠ b := fun heq => hb (beq_iff_eq.mpr heq.symm)
          split
          · exact .last (List.cons_ne_nil _ _) fun hmem => hother (List.mem_singleton.mp hmem)
          · next line more hlines =>
              rw [hlines] at ih
              cases ih with
              | last hne hfeed => exact .last (List.cons_ne_nil _ _) (by simp [hother, hfeed])
              | @cons line more hfeed hmore =>
                  exact @EndedLines.cons (b :: line) more (by simp [hother, hfeed]) hmore

theorem flatten_linesWithEnds (text : Bytes) : (linesWithEnds text).flatten = text := by
  induction text with
  | nil => rfl
  | cons b rest ih =>
      rw [linesWithEnds]
      split
      · rw [List.flatten_cons, ih]
        rfl
      · split
        · next hnone =>
            rw [hnone] at ih
            rw [← ih]
            rfl
        · next line more hlines =>
            rw [hlines] at ih
            rw [← ih]
            rfl

theorem lines_append_feed {line : Bytes} (hfeed : lineFeed ∉ line) (rest : Bytes) :
    lines (line ++ lineFeed :: rest) = withoutReturn line :: lines rest := by
  have hne : List.splitOn lineFeed rest ≠ [] := List.splitOn_ne_nil _ _
  simp only [lines, List.splitOn_append_cons_self_of_not_mem hfeed,
    List.dropLast_cons_of_ne_nil hne, List.map_cons, List.cons_append,
    List.getLast?_cons_of_ne_nil hne]

/-- Both ways to take a text apart give the same number of lines. -/
theorem EndedLines.length_lines {ended : List Bytes} (h : EndedLines ended) :
    (lines ended.flatten).length = ended.length := by
  induction h with
  | nil => rfl
  | last hne hfeed =>
      simp [lines, List.splitOn_eq_singleton hfeed, hne]
  | cons hfeed _ ih =>
      rw [List.flatten_cons, List.append_assoc, List.singleton_append, lines_append_feed hfeed,
        List.length_cons, List.length_cons, ih]

theorem length_lines (text : Bytes) : (lines text).length = lineCount text := by
  have h := (endedLines_linesWithEnds text).length_lines
  rwa [flatten_linesWithEnds] at h

def lineOffset (ended : List Bytes) (above : Nat) : Nat :=
  (ended.take above).flatten.length

theorem lineOffset_zero (ended : List Bytes) : lineOffset ended 0 = 0 := by
  simp [lineOffset]

theorem lineOffset_succ (line : Bytes) (more : List Bytes) (above : Nat) :
    lineOffset (line :: more) (above + 1) = line.length + lineOffset more above := by
  simp [lineOffset]

end Bytes

/-! The search for the ends of a range. -/

theorem lineSpanFrom_eq {range : LineRange} {number : Nat} (hle : range.first ≤ range.last)
    (hnumber : number ≤ range.last) (offset : Nat) (start : Option Nat) (ended : List Bytes) :
    lineSpanFrom range number offset start ended =
      ended[range.last - number]?.bind fun line =>
        (if number ≤ range.first then some (offset + lineOffset ended (range.first - number))
          else start).map fun start =>
            ⟨start, offset + lineOffset ended (range.last - number) + line.contentLength⟩ := by
  induction ended generalizing number offset start with
  | nil => simp [lineSpanFrom]
  | cons line more ih =>
      rw [lineSpanFrom]
      split
      · next hlast =>
          have hrest : range.last - number = 0 := by omega
          rw [hrest, List.getElem?_cons_zero, Option.bind_some, lineOffset_zero, Nat.add_zero]
          congr 1
          split
          · next hfirst =>
              rw [if_pos (Nat.le_of_eq hfirst), hfirst, Nat.sub_self, lineOffset_zero, Nat.add_zero]
          · next hfirst => rw [if_neg (by omega)]
      · next hlast =>
          have hmore : ∀ {bound : Nat}, number < bound →
              bound - number = bound - (number + 1) + 1 := by
            omega
          have hstart : (if number + 1 ≤ range.first then
                some (offset + line.length + lineOffset more (range.first - (number + 1)))
              else if number = range.first then some offset else start) =
              if number ≤ range.first then
                some (offset + lineOffset (line :: more) (range.first - number))
              else start := by
            rcases Nat.lt_trichotomy number range.first with hbelow | hfirst | habove
            · rw [if_pos (Nat.succ_le_of_lt hbelow), if_pos (Nat.le_of_lt hbelow), hmore hbelow,
                lineOffset_succ, Nat.add_assoc]
            · rw [if_neg (by omega), if_pos hfirst, if_pos (Nat.le_of_eq hfirst), hfirst,
                Nat.sub_self, lineOffset_zero, Nat.add_zero]
            · rw [if_neg (by omega), if_neg (by omega), if_neg (by omega)]
          rw [ih (by omega), hstart, hmore (show number < range.last by omega),
            List.getElem?_cons_succ, lineOffset_succ, Nat.add_assoc offset]

theorem lineSpan_eq {range : LineRange} (hfirst : 1 ≤ range.first)
    (hle : range.first ≤ range.last) (buffer : Bytes) :
    lineSpan buffer range =
      (linesWithEnds buffer)[range.last - 1]?.map fun line =>
        ⟨lineOffset (linesWithEnds buffer) (range.first - 1),
          lineOffset (linesWithEnds buffer) (range.last - 1) + line.contentLength⟩ := by
  rw [lineSpan, lineSpanFrom_eq hle (Nat.le_trans hfirst hle)]
  simp only [if_pos hfirst, Nat.zero_add, Option.map_eq_bind]
  rfl

/-! What stands around the ends of a range. -/

namespace Bytes

structure WholeLines (text : Bytes) (count : Nat) : Prop where
  count_eq : text.count lineFeed = count
  ends : text = [] ∨ text.getLast? = some lineFeed

theorem EndedLines.wholeLines {ended : List Bytes} (h : EndedLines ended) {k : Nat}
    (hk : k < ended.length) : WholeLines (ended.take k).flatten k := by
  induction h generalizing k with
  | nil => exact absurd hk (Nat.not_lt_zero k)
  | last =>
      obtain rfl : k = 0 := Nat.lt_one_iff.mp hk
      exact ⟨rfl, .inl rfl⟩
  | @cons line more hfeed _ ih =>
      cases k with
      | zero => exact ⟨rfl, .inl rfl⟩
      | succ k =>
          obtain ⟨hcount, hends⟩ := ih (Nat.lt_of_succ_lt_succ hk)
          rw [List.take_succ_cons, List.flatten_cons]
          constructor
          · rw [List.count_append, List.count_append, List.count_eq_zero_of_not_mem hfeed, hcount,
              List.count_singleton_self]
            omega
          · right
            rcases hends with hnil | hlast
            · simp [hnil]
            · rw [List.getLast?_append, hlast]
              rfl

theorem exists_returns (text : Bytes) :
    ∃ kept count, text = kept ++ List.replicate count carriageReturn ∧
      kept.getLast? ≠ some carriageReturn := by
  induction text using List.reverseRecOn with
  | nil => exact ⟨[], 0, rfl, by simp⟩
  | append_singleton text b ih =>
      by_cases hb : b = carriageReturn
      · obtain ⟨kept, count, rfl, hkept⟩ := ih
        refine ⟨kept, count + 1, ?_, hkept⟩
        rw [hb, List.append_assoc, List.replicate_succ']
      · exact ⟨text ++ [b], 0, by simp, by simpa using hb⟩

theorem contentLength_eq {kept ending : Bytes} (count : Nat) (hfeed : lineFeed ∉ kept)
    (hreturn : kept.getLast? ≠ some carriageReturn)
    (hending : ending = [] ∨ ending = [lineFeed]) :
    contentLength (kept ++ (List.replicate count carriageReturn ++ ending)) = kept.length := by
  have hkept : kept.reverse.dropWhile (fun b => b == lineFeed || b == carriageReturn) =
      kept.reverse := by
    rcases List.eq_nil_or_concat kept with rfl | ⟨initial, b, rfl⟩
    · rfl
    · have hother : lineFeed ≠ b := fun heq => hfeed (by simp [heq])
      have hno : b ≠ carriageReturn := by simpa using hreturn
      rw [List.concat_eq_append, List.reverse_append, List.reverse_singleton,
        List.singleton_append, List.dropWhile_cons_of_neg]
      simp [hother.symm, hno]
  have hdropped : ∀ b ∈ ending.reverse ++ List.replicate count carriageReturn,
      (b == lineFeed || b == carriageReturn) = true := by
    intro b hb
    rw [List.mem_append, List.mem_reverse, List.mem_replicate] at hb
    rcases hb with hb | ⟨-, rfl⟩
    · rcases hending with rfl | rfl
      · cases hb
      · obtain rfl := List.mem_singleton.mp hb
        rfl
    · rfl
  rw [contentLength, List.reverse_append, List.reverse_append, List.reverse_replicate,
    List.dropWhile_append_of_pos hdropped, hkept, List.length_reverse]

/-- The parts of a line: its content, the carriage returns at its end, and its line feed, which it
does without at the end of the text. -/
structure LineParts (line kept ending : Bytes) (count : Nat) : Prop where
  line_eq : line = kept ++ (List.replicate count carriageReturn ++ ending)
  contentLength_eq : line.contentLength = kept.length
  lineFeed_not_mem : lineFeed ∉ kept
  getLast?_ne : kept.getLast? ≠ some carriageReturn

theorem exists_lineParts {body ending : Bytes} (hfeed : lineFeed ∉ body)
    (hending : ending = [] ∨ ending = [lineFeed]) :
    ∃ kept count, LineParts (body ++ ending) kept ending count := by
  obtain ⟨kept, count, rfl, hreturn⟩ := exists_returns body
  have hkept : lineFeed ∉ kept := fun hmem => hfeed (List.mem_append_left _ hmem)
  rw [List.append_assoc]
  exact ⟨kept, count, rfl, contentLength_eq count hkept hreturn hending, hkept, hreturn⟩

theorem EndedLines.exists_parts {ended : List Bytes} (h : EndedLines ended) {k : Nat}
    {line : Bytes} (hline : ended[k]? = some line) :
    ∃ kept ending count, LineParts line kept ending count ∧
      (ending = [lineFeed] ∨ ending = [] ∧ ended.drop (k + 1) = []) := by
  induction h generalizing k with
  | nil => simp at hline
  | @last only hne hfeed =>
      cases k with
      | zero =>
          obtain rfl := Option.some.inj hline
          obtain ⟨kept, count, hparts⟩ := exists_lineParts hfeed (.inl rfl)
          rw [List.append_nil] at hparts
          exact ⟨kept, [], count, hparts, .inr ⟨rfl, rfl⟩⟩
      | succ k => simp at hline
  | @cons first more hfeed _ ih =>
      cases k with
      | zero =>
          obtain rfl := Option.some.inj hline
          obtain ⟨kept, count, hparts⟩ := exists_lineParts hfeed (.inr rfl)
          exact ⟨kept, [lineFeed], count, hparts, .inl rfl⟩
      | succ k =>
          rw [List.getElem?_cons_succ] at hline
          exact ih hline

end Bytes

theorem exists_pieces_of_lineSpan {range : LineRange} {buffer : Bytes} {span : Span}
    (hfirst : 1 ≤ range.first) (hle : range.first ≤ range.last)
    (h : lineSpan buffer range = some span) :
    ∃ above within kept ending below count,
      buffer = above ++ ((within ++ kept) ++
        (List.replicate count carriageReturn ++ (ending ++ below))) ∧
      span = ⟨above.length, above.length + (within ++ kept).length⟩ ∧
      WholeLines above (range.first - 1) ∧ WholeLines (above ++ within) (range.last - 1) ∧
      lineFeed ∉ kept ∧ kept.getLast? ≠ some carriageReturn ∧
      (ending = [lineFeed] ∨ ending = [] ∧ below = []) := by
  rw [lineSpan_eq hfirst hle] at h
  obtain ⟨line, hline, rfl⟩ := Option.map_eq_some_iff.mp h
  have hended := endedLines_linesWithEnds buffer
  have htext := flatten_linesWithEnds buffer
  generalize linesWithEnds buffer = ended at hline hended htext
  obtain ⟨hlt, hget⟩ := List.getElem?_eq_some_iff.mp hline
  obtain ⟨kept, ending, count, hparts, hending⟩ := hended.exists_parts hline
  obtain ⟨width, hwidth⟩ := Nat.exists_eq_add_of_le (Nat.sub_le_sub_right hle 1)
  have hsplit : ended.take (range.last - 1) =
      ended.take (range.first - 1) ++ (ended.drop (range.first - 1)).take width := by
    rw [hwidth, List.take_add]
  have habove := hended.wholeLines (Nat.lt_of_le_of_lt (Nat.sub_le_sub_right hle 1) hlt)
  have hwithin := hended.wholeLines hlt
  rw [hsplit, List.flatten_append] at hwithin
  refine ⟨(ended.take (range.first - 1)).flatten,
    ((ended.drop (range.first - 1)).take width).flatten, kept, ending,
    (ended.drop (range.last - 1 + 1)).flatten, count, ?_, ?_, habove, hwithin,
    hparts.lineFeed_not_mem, hparts.getLast?_ne, ?_⟩
  · rw [← htext]
    calc
      ended.flatten = (ended.take (range.last - 1) ++ ended.drop (range.last - 1)).flatten := by
        rw [List.take_append_drop]
      _ = _ := by
        rw [List.drop_eq_getElem_cons hlt, hget, hsplit, hparts.line_eq]
        simp
  · rw [hparts.contentLength_eq, lineOffset, lineOffset, hsplit]
    simp [Nat.add_assoc]
  · exact hending.imp_right fun ⟨hnil, hbelow⟩ => ⟨hnil, by rw [hbelow]; rfl⟩

/-- The bytes of a range of lines: from behind the line feed above them up to the line break that
ends them, with the carriage returns in front of it. -/
structure CoversLines (source : String) (range : LineRange) (span : Span) : Prop where
  start_le_stop : span.start ≤ span.stop
  stop_le_length : span.stop ≤ (utf8 source).length
  start_between : IsCharOffset source span.start
  stop_between : IsCharOffset source span.stop
  feeds_above : ((utf8 source).take span.start).count lineFeed = range.first - 1
  starts_line : (utf8 source).take span.start = [] ∨
    ((utf8 source).take span.start).getLast? = some lineFeed
  feeds_within : ((utf8 source).slice span).count lineFeed = range.last - range.first
  ends_line : ∃ count rest, (utf8 source).drop span.stop =
    List.replicate count carriageReturn ++ rest ∧ (rest = [] ∨ rest.head? = some lineFeed)
  first_return : ((utf8 source).take span.stop).getLast? ≠ some carriageReturn

theorem Bytes.WholeLines.isBoundary_length {text above behind : Bytes} {count : Nat}
    (habove : WholeLines above count) (hunbroken : Unbroken text) (htext : text = above ++ behind) :
    isBoundary text above.length = true := by
  rcases habove.ends with rfl | hlast
  · exact isBoundary_zero text
  · obtain ⟨initial, rfl⟩ := List.getLast?_eq_some_iff.mp hlast
    rw [List.append_assoc] at htext
    rw [List.length_append, List.length_singleton]
    exact hunbroken.isBoundary_succ (getElem?_of_eq_append htext rfl) (by decide)

theorem isBoundary_before_break {text front ending below : Bytes} {count : Nat}
    (htext : text = front ++ (List.replicate count carriageReturn ++ (ending ++ below)))
    (hending : ending = [lineFeed] ∨ ending = [] ∧ below = []) :
    isBoundary text front.length = true := by
  cases count with
  | zero =>
      rcases hending with rfl | ⟨rfl, rfl⟩
      · exact isBoundary_of_getElem? (getElem?_of_eq_append htext rfl) (by decide)
      · rw [show front.length = text.length by simp [htext]]
        exact isBoundary_length text
  | succ count =>
      exact isBoundary_of_getElem? (getElem?_of_eq_append htext rfl) (by decide)

theorem coversLines_of_lineSpan {source : String} {range : LineRange} {span : Span}
    (hfirst : 1 ≤ range.first) (hle : range.first ≤ range.last)
    (h : lineSpan (utf8 source) range = some span) : CoversLines source range span := by
  obtain ⟨above, within, kept, ending, below, count, htext, rfl, habove, hwithin, hfeed, hreturn,
    hending⟩ := exists_pieces_of_lineSpan hfirst hle h
  have hfront := htext
  rw [← List.append_assoc] at hfront
  have hstop : above.length + (within ++ kept).length = (above ++ (within ++ kept)).length :=
    List.length_append.symm
  have hcount : above.count lineFeed + within.count lineFeed = range.last - 1 := by
    rw [← List.count_append]
    exact hwithin.count_eq
  constructor
  case start_le_stop => exact Nat.le_add_right _ _
  case stop_le_length =>
    have hlength : (above ++ (within ++ kept)).length ≤ (utf8 source).length := by
      rw [hfront]
      exact (List.prefix_append _ _).length_le
    rwa [← hstop] at hlength
  case start_between =>
    exact isBoundary_utf8_iff.mp (habove.isBoundary_length (unbroken_utf8 source) htext)
  case stop_between =>
    rw [hstop]
    exact isBoundary_utf8_iff.mp (isBoundary_before_break hfront hending)
  case feeds_above =>
    rw [htext, List.take_left]
    exact habove.count_eq
  case starts_line =>
    rw [htext, List.take_left]
    exact habove.ends
  case feeds_within =>
    rw [slice_of_eq_append htext rfl rfl, List.count_append, List.count_eq_zero_of_not_mem hfeed]
    have := habove.count_eq
    omega
  case ends_line =>
    refine ⟨count, ending ++ below, ?_, ?_⟩
    · rw [hstop, hfront, List.drop_left]
    · rcases hending with rfl | ⟨rfl, rfl⟩
      · exact .inr rfl
      · exact .inl rfl
  case first_return =>
    rw [hstop, hfront, List.take_left, ← List.append_assoc, List.getLast?_append]
    cases hkept : kept.getLast? with
    | some b =>
        rw [hkept] at hreturn
        rwa [Option.some_or]
    | none =>
        rw [Option.none_or]
        rcases hwithin.ends with hnil | hlast
        · simp [hnil]
        · rw [hlast]
          decide

theorem isSome_lineSpan {range : LineRange} (hfirst : 1 ≤ range.first)
    (hle : range.first ≤ range.last) (buffer : Bytes) :
    (lineSpan buffer range).isSome = true ↔ range.last ≤ (lines buffer).length := by
  rw [lineSpan_eq hfirst hle, Option.isSome_map, isSome_getElem?, length_lines, lineCount]
  omega

theorem exists_ofBuffer {source : String} {range : LineRange} {span : Span}
    (hcovers : CoversLines source range span) :
    ∃ selection, Selection.ofBuffer (utf8 source) span = .ok selection := by
  have hfits : span.fits (utf8 source) = true := by
    rw [Span.fits, Bool.and_eq_true, Bool.and_eq_true, decide_eq_true_eq, isBoundary_utf8_iff,
      isBoundary_utf8_iff]
    exact ⟨⟨hcovers.start_le_stop, hcovers.start_between⟩, hcovers.stop_between⟩
  rw [Selection.ofBuffer, slice?, if_pos hfits]
  exact ⟨_, rfl⟩

/-- A range of lines is found exactly if the text has its last line, it covers those lines and no
more, and selecting lines on a command line fails exactly if the range is not found. -/
theorem lineSpan_covers (source : String) (range : LineRange) (hfirst : 1 ≤ range.first)
    (hle : range.first ≤ range.last) :
    ((lineSpan (utf8 source) range).isSome = true ↔
        range.last ≤ (lines (utf8 source)).length) ∧
      (∀ span, lineSpan (utf8 source) range = some span →
        CoversLines source range span ∧
          ∃ selection, Selection.ofBuffer (utf8 source) span = .ok selection) ∧
      ∀ arguments : ExtractArguments, arguments.bytes = none → arguments.lines = some range →
        ((∃ err, arguments.selection (utf8 source) = .error err) ↔
          (lines (utf8 source)).length < range.last) := by
  have hfound := isSome_lineSpan hfirst hle (utf8 source)
  have hcovers := fun span => @coversLines_of_lineSpan source range span hfirst hle
  refine ⟨hfound, fun span h => ⟨hcovers span h, exists_ofBuffer (hcovers span h)⟩, ?_⟩
  intro arguments hbytes hlines
  cases hspan : lineSpan (utf8 source) range with
  | none =>
      rw [hspan] at hfound
      have hrefused : arguments.selection (utf8 source) =
          .error (.linesOutside range arguments.file (lineCount (utf8 source))) := by
        simp only [ExtractArguments.selection, hbytes, hlines, hspan]
      exact iff_of_true ⟨_, hrefused⟩ (Nat.lt_of_not_le fun hlast => by cases hfound.mpr hlast)
  | some span =>
      rw [hspan] at hfound
      obtain ⟨selection, hok⟩ := exists_ofBuffer (hcovers span hspan)
      have hselected : arguments.selection (utf8 source) = .ok (some selection) := by
        simp only [ExtractArguments.selection, hbytes, hlines, hspan, ExtractArguments.selectSpan,
          hok]
      refine iff_of_false ?_ (Nat.not_lt.mpr (hfound.mp rfl))
      rintro ⟨err, herr⟩
      cases hselected.symm.trans herr

theorem lineSpan_covers_returns :
    (1 ≤ 2 ∧ 2 ≤ 3) ∧
      CoversLines "é\r\n\nb\r\r\nc" ⟨2, 3⟩ ⟨4, 6⟩ ∧
      ¬ ∃ err, ({ file := "a.ts", lines := some ⟨2, 3⟩ } : ExtractArguments).selection
        (utf8 "é\r\n\nb\r\r\nc") = .error err := by
  have ⟨hfound, hcovers, hfails⟩ :=
    lineSpan_covers "é\r\n\nb\r\r\nc" ⟨2, 3⟩ (by decide) (by decide)
  have hspan : lineSpan (utf8 "é\r\n\nb\r\r\nc") ⟨2, 3⟩ = some ⟨4, 6⟩ := by decide
  refine ⟨⟨by decide, by decide⟩, (hcovers _ hspan).1, fun herr => ?_⟩
  exact Nat.not_lt.mpr (hfound.mp (by rw [hspan]; rfl)) ((hfails _ rfl rfl).mp herr)

end Extraction
