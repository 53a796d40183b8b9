import Extraction.Proofs.Entries
import Extraction.Proofs.ImportLine
import Extraction.Proofs.Slices
/-!
A name put in front of a list. The scan finds the new list again, with the name before the old
entries, exactly if the trimmed contents do not end inside a line comment: the bracket behind
them would be part of the comment.
-/

namespace Extraction

open Byte CodeView Bytes

def IsNames (text : Bytes) : Prop :=
  ∀ b ∈ text, isIdent b = true ∨ b = comma

theorem IsNames.isPlain {text : Bytes} (hnames : IsNames text) : text.all isPlain = true := by
  rw [List.all_eq_true]
  intro b hb
  rcases hnames b hb with hident | rfl
  · cases hplain : Byte.isPlain b with
    | true => rfl
    | false => simp [not_isIdent_of_not_isPlain hplain] at hident
  · decide

theorem IsNames.listDepth?_eq {text : Bytes} (hnames : IsNames text) (depth : Nat) :
    listDepth? depth (text.map some) = some depth := by
  apply depth?_of_forall
  intro b hb
  rcases hnames b (by simpa using hb) with hident | rfl
  · rw [beq_eq_false_iff_ne, beq_eq_false_iff_ne]
    constructor <;> rintro rfl <;> cases hident
  · decide

theorem isNames_of_isIdent {name : Bytes} (hname : name.all isIdent = true) : IsNames name :=
  fun b hb => .inl (List.all_eq_true.mp hname b hb)

theorem IsNames.not_mem {text : Bytes} (hnames : IsNames text) {b : UInt8}
    (hident : isIdent b = false) (hcomma : b ≠ comma) : b ∉ text := by
  intro hb
  rcases hnames b hb with hname | rfl
  · rw [hident] at hname
    cases hname
  · exact hcomma rfl

theorem Import.isNames_name (import_ : Import) : IsNames (utf8 import_.name) :=
  isNames_of_isIdent import_.name_isIdent

theorem exists_prependedContents {name : Bytes} (hname : IsNames name) (existing : Bytes) :
    ∃ front, prependedContents name existing = front ++ existing ∧ IsNames front := by
  unfold prependedContents
  split
  · next hempty =>
      refine ⟨name, ?_, hname⟩
      rw [List.isEmpty_iff.mp hempty, List.append_nil]
  · refine ⟨name ++ [comma], by simp, ?_⟩
    intro b hb
    rcases List.mem_append.mp hb with hb | hb
    · exact hname b hb
    · exact .inr (List.mem_singleton.mp hb)

/-! The end of the trimmed contents. -/

/-- A line comment is open behind a text that starts in code. -/
def EndsInLineComment (text : Bytes) : Prop :=
  Mode.code.after text none = .lineComment

instance (text : Bytes) : Decidable (EndsInLineComment text) :=
  inferInstanceAs (Decidable (_ = _))

theorem Bytes.IsWhite.calm_head? {text : Bytes} (hwhite : IsWhite text) :
    Mode.Calm text.head? := by
  cases text with
  | nil => exact .none
  | cons b rest =>
      have hcalm := hwhite.all (p := fun c => decide (Mode.Calm (some c))) (by decide)
      exact of_decide_eq_true (List.all_eq_true.mp hcalm b List.mem_cons_self)

theorem Bytes.IsWhite.listDepth?_eq {text : Bytes} (hwhite : IsWhite text) (mode : Mode)
    (depth : Nat) : listDepth? depth (mode.view text) = some depth := by
  apply depth?_of_forall
  intro b hb
  have hmem := Mode.mem_of_mem_view hb
  rw [beq_eq_false_iff_ne, beq_eq_false_iff_ne]
  constructor
  · rintro rfl
    exact hwhite.not_mem (by decide) hmem
  · rintro rfl
    exact hwhite.not_mem (by decide) hmem

theorem endsInCode_trim_or {text : Bytes} (hends : EndsInCode text) :
    EndsInCode (trim text) ∨ EndsInLineComment (trim text) := by
  obtain ⟨lead, trail, hlead, htrail, htext⟩ := exists_white_trim text
  rw [htext] at hends
  have hrest := hends.of_plain_append hlead.isPlain
  rw [EndsInCode, Mode.after_append, Option.or_none,
    Mode.after_congr _ _ htrail.calm_head? .none] at hrest
  have hquoted : (Mode.code.after (trim text) none).WellQuoted :=
    Mode.WellQuoted.after (by trivial) _ _
  unfold EndsInCode EndsInLineComment
  generalize Mode.code.after (trim text) none = mode at hrest hquoted
  cases mode with
  | code => exact .inl rfl
  | lineComment => exact .inr rfl
  | _ =>
      have hholds := hquoted.holds_after (by trivial) htrail.isPlain none
      rw [hrest] at hholds
      cases hholds

theorem listDepth?_trim {text : Bytes} (hclosed : listDepth? 0 (codeView text) = some 0) :
    listDepth? 0 (codeView (trim text)) = some 0 := by
  obtain ⟨lead, trail, hlead, htrail, htext⟩ := exists_white_trim text
  generalize trim text = middle at htext
  subst htext
  rw [codeView_plain_append hlead.isPlain, ← codeView_of_plain hlead.isPlain] at hclosed
  have hmiddle := (depth?_append_of_eq (hlead.listDepth?_eq .code 0)).symm.trans hclosed
  rw [codeView, Mode.view_append, Mode.viewBefore_congr _ _ htrail.calm_head? .none,
    ← codeView_eq_viewBefore] at hmiddle
  obtain ⟨depth, hdepth, htrailDepth⟩ := exists_depth?_of_append hmiddle
  have hdepth : listDepth? 0 (codeView middle) = some depth := hdepth
  rw [hdepth, ← htrailDepth]
  exact (htrail.listDepth?_eq _ depth).symm

namespace Balanced

theorem listProperty_eq (name : String) (existing : Bytes) :
    listProperty name existing =
      keyText [] [space] ++ (prependedContents (utf8 name) existing ++ [closeBracket]) := by
  unfold listProperty prependedContents
  have hopen : utf8 "imports: [" = keyText [] [space] := rfl
  have hclose : utf8 "]" = [closeBracket] := rfl
  have hcomma : utf8 "," = [comma] := rfl
  split <;> simp [hopen, hclose, hcomma]

def Frame.opened (frame : Frame) (left before after tail : Bytes) : Bytes :=
  frame.lead ++ (openingText frame.blank ++ (left ++ (keyText before after ++ tail)))

namespace ListedSource

variable (source : ListedSource)

theorem take_list_start : source.text.take source.list.start =
    source.lead ++ (openingText source.blank ++ source.left) := by
  have hstart : source.list.start = source.bodyStart + source.left.length := by
    simp [list, listedAt]
  rw [hstart]
  exact source.take_text source.left _

theorem drop_list_stop : source.text.drop source.list.stop =
    source.right ++ closeBrace :: source.rest := by
  have hbody : source.body = (source.left ++ (keyText source.before source.after ++
      (source.contents ++ [closeBracket]))) ++ source.right := by
    simp [body]
  have hstop : source.list.stop = source.bodyStart + (source.left ++
      (keyText source.before source.after ++ (source.contents ++ [closeBracket]))).length := by
    simp [list, listedAt]
    omega
  rw [hstop, text, hbody]
  exact source.drop_text _ source.right

theorem slice_contents : source.text.slice source.list.contents = source.contents := by
  have hbody : source.body = (source.left ++ keyText source.before source.after) ++
      (source.contents ++ closeBracket :: source.right) := by
    simp [body]
  have hstart : source.list.contents.start = source.bodyStart +
      (source.left ++ keyText source.before source.after).length := by
    simp [list, listedAt]
    omega
  have hwidth : source.list.contents.stop - source.list.contents.start =
      source.contents.length := by
    simp [list, listedAt]
  rw [slice, hwidth, hstart, text, hbody, source.drop_text, List.append_assoc, List.take_left]

theorem list_entries : source.list.entries source.text = listEntries source.contents := by
  rw [ListProperty.entries, slice_contents]

theorem block_start_le : source.block.start ≤ source.list.start := by
  simp [block, list, listedAt, Frame.bodyStart]
  omega

theorem list_stop_le : source.list.stop ≤ source.block.stop := by
  have hstop := source.block_stop source.body
  rw [source.block_closeBrace] at hstop
  refine Nat.le_trans ?_ hstop
  simp [list, listedAt, body]
  omega

def newContents (import_ : QuotedImport) : Bytes :=
  prependedContents (utf8 import_.name) (trim source.contents)

def newFrame (import_ : QuotedImport) : Frame :=
  source.withImport import_ source.text

theorem rewire_eq (import_ : QuotedImport) :
    rewire source.text import_.name import_.path .balanced =
      .rewired
        ((source.newFrame import_).opened source.left [] [space]
          (source.newContents import_ ++ closeBracket ::
            (source.right ++ closeBrace :: source.rest)))
        source.block (.prepended (listEntries source.contents).length) := by
  have hsource := source.text.take_slice_drop
    (listProperty import_.name (trim source.contents)) source.block_start_le source.list_stop_le
  rw [take_list_start, drop_list_stop, listProperty_eq] at hsource
  rw [rewire]
  simp only [BlockScan.scan, source.scan_text, Block.prependEntry, slice_contents,
    Import.importStatement_eq_line, List.append_assoc, listProperty_eq] at hsource ⊢
  simpa [list_entries, newFrame, newContents, Frame.opened, Frame.withImport] using hsource

theorem listEntries_newContents (import_ : QuotedImport) :
    listEntries (source.newContents import_) =
      utf8 import_.name :: listEntries source.contents := by
  rw [newContents, listEntries_prependedContents import_.name_isIdent import_.utf8_name_ne,
    listEntries_trim]

theorem newContents_eq (import_ : QuotedImport) :
    ∃ front : Bytes, source.newContents import_ = front ++ trim source.contents ∧
      IsNames front :=
  exists_prependedContents import_.isNames_name (trim source.contents)

theorem listDepth?_newContents (import_ : QuotedImport) :
    listDepth? 0 (codeView (source.newContents import_)) = some 0 := by
  obtain ⟨front, hcontents, hfront⟩ := source.newContents_eq import_
  rw [hcontents, codeView_plain_append hfront.isPlain]
  exact (depth?_append_of_eq (hfront.listDepth?_eq 0)).trans
    (listDepth?_trim source.listed.contents_closed)

theorem after_newContents (import_ : QuotedImport) (next : Option UInt8) :
    Mode.code.after (source.newContents import_) next =
      Mode.code.after (trim source.contents) next := by
  obtain ⟨front, hcontents, hfront⟩ := source.newContents_eq import_
  rw [hcontents, Mode.after_append, Mode.after_code_of_plain hfront.isPlain]

/-- The text with the name in front of its list, if the trimmed contents end in code. -/
def prepend (import_ : QuotedImport) (hends : EndsInCode (trim source.contents)) :
    ListedSource where
  toFrame := source.newFrame import_
  left := source.left
  before := []
  after := [space]
  contents := source.newContents import_
  right := source.right
  left_ends := source.left_ends
  contents_ends := (source.after_newContents import_ none).trans hends
  right_ends := source.right_ends
  listed := { source.listed with
    before_blank := by decide
    after_blank := by decide
    contents_closed := source.listDepth?_newContents import_ }

theorem rewire_eq_prepend (import_ : QuotedImport) (hends : EndsInCode (trim source.contents)) :
    rewire source.text import_.name import_.path .balanced =
      .rewired (source.prepend import_ hends).text source.block
        (.prepended (listEntries source.contents).length) := by
  rw [source.rewire_eq import_]
  simp [prepend, text, body, Frame.text, Frame.opened]
  rfl

theorem prepend_found (import_ : QuotedImport) (hends : EndsInCode (trim source.contents)) :
    (source.prepend import_ hends).block.start =
        (import_.line source.text).length + source.block.start ∧
      (source.prepend import_ hends).list.entries (source.prepend import_ hends).text =
        utf8 import_.name :: source.list.entries source.text := by
  constructor
  · simp [block, prepend, newFrame, Frame.withImport]
  · rw [list_entries, list_entries]
    exact source.listEntries_newContents import_

theorem exists_of_scan_opened {frame : Frame} {left before after tail : Bytes} {found : Block}
    {list : ListProperty} (hends : EndsInCode left)
    (hclosed : blockDepth? 0 (codeView left) = some 0)
    (hfree : KeyFree 0 (some openBrace) (codeView left))
    (hprevious : ((codeView left).getLast?.getD (some openBrace)).any isIdent = false)
    (hbefore : IsBlank before) (hafter : IsBlank after)
    (hscan : scan (frame.opened left before after tail) = some ⟨found, some list⟩) :
    ∃ contents rest, codeView tail = contents ++ some closeBracket :: rest ∧
      listDepth? 0 contents = some 0 ∧
      (frame.opened left before after tail).slice list.contents = tail.take contents.length := by
  rw [scan, Frame.opened, codeView_append frame.lead_ends (calm_openingText _ _),
    codeView_plain_append (isPlain_openingText frame.blank_isBlank),
    codeView_append hends (calm_keyText _ _ _),
    codeView_plain_append (isPlain_keyText hbefore hafter)] at hscan
  obtain ⟨stop, hclose⟩ := exists_close?_of_scanView frame.lead_free frame.blank_isBlank hscan
  rw [close?_block_left hclosed hfree hprevious hbefore hafter] at hclose
  obtain ⟨contents, rest, htail, hdepth, hrest⟩ := exists_of_close?_list hclose
  obtain ⟨-, -, -, -, -, hlist⟩ := exists_of_close?_block_some hrest
  refine ⟨contents, rest, htail, hdepth, ?_⟩
  have hstart : (codeView frame.lead).length + marker.length + frame.blank.length + 1 +
      (codeView left).length + (keyText before after).length =
        (frame.lead ++ openingText frame.blank ++ left ++ keyText before after).length := by
    simp
    omega
  have htext : frame.opened left before after tail =
      (frame.lead ++ openingText frame.blank ++ left ++ keyText before after) ++ tail := by
    simp [Frame.opened]
  rw [Option.some.inj hlist, htext, slice]
  simp only [hstart]
  rw [Nat.sub_add_cancel (by simp; omega), Nat.add_sub_cancel_left, List.drop_left]

theorem length_lt_of_hidden {closed tail contents rest : CodeView}
    (hview : closed ++ none :: tail = contents ++ some closeBracket :: rest)
    (hclosed : listDepth? 0 closed = some 0) (hcontents : listDepth? 0 contents = some 0) :
    closed.length < contents.length := by
  rcases List.append_eq_append_iff.mp hview with ⟨more, rfl, hmore⟩ | ⟨more, rfl, hmore⟩
  · cases more with
    | nil => cases hmore
    | cons code more => simp
  · cases more with
    | nil => cases hmore
    | cons code more =>
        obtain ⟨rfl, -⟩ := List.cons.inj hmore
        have hnone := (depth?_append_of_eq hcontents).symm.trans hclosed
        simp [depth?, closeBracket, openBracket] at hnone

/-- A list that the rewired text has instead reaches over the hidden bracket. -/
theorem not_found_of_endsInLineComment (import_ : QuotedImport)
    (hcomment : EndsInLineComment (trim source.contents)) {found : Block} {list : ListProperty}
    {tail : Bytes}
    (hscan : scan ((source.newFrame import_).opened source.left [] [space]
      (source.newContents import_ ++ closeBracket :: tail)) = some ⟨found, some list⟩) :
    list.entries ((source.newFrame import_).opened source.left [] [space]
        (source.newContents import_ ++ closeBracket :: tail)) ≠
      utf8 import_.name :: listEntries source.contents := by
  obtain ⟨contents, rest, hview, hdepth, hslice⟩ :=
    exists_of_scan_opened source.left_ends source.listed.left_closed source.listed.left_free
      source.listed.key_previous (by decide) (by decide) hscan
  have hhidden : codeView (source.newContents import_ ++ closeBracket :: tail) =
      codeView (source.newContents import_) ++ none :: Mode.lineComment.view tail := by
    rw [codeView, Mode.view_append, source.after_newContents,
      Mode.after_congr _ _ (calm_cons (by decide)) .none, hcomment,
      Mode.viewBefore_congr _ _ (calm_cons (by decide)) .none, ← codeView_eq_viewBefore]
    rfl
  have hlonger : (source.newContents import_).length < contents.length := by
    rw [← length_codeView]
    rw [hhidden] at hview
    exact length_lt_of_hidden hview (source.listDepth?_newContents import_) hdepth
  intro hentries
  rw [ListProperty.entries, hslice, ← source.listEntries_newContents import_] at hentries
  have hcount := congrArg (fun entries => entries.flatten.count closeBracket) hentries
  simp only [count_flatten_listEntries (show closeBracket ≠ comma by decide)
    (show ∀ word ∈ whiteSpaceWords, closeBracket ∉ word by decide)] at hcount
  obtain ⟨more, hmore⟩ := Nat.exists_eq_add_of_lt hlonger
  rw [hmore, Nat.add_assoc, List.take_length_add_append, List.take_succ_cons,
    List.count_append, List.count_cons_self] at hcount
  omega

end ListedSource

/-- The list that a name was put in front of is found again, with the name before its entries,
unless the last of its contents is a line comment. -/
theorem rewire_listed {text : Bytes} {block : Block} {list : ListProperty}
    (hscan : scan text = some ⟨block, some list⟩) (import_ : QuotedImport) :
    ∃ out, rewire text import_.name import_.path .balanced =
        .rewired out block (.prepended (list.entries text).length) ∧
      ((∃ found list', scan out = some ⟨found, some list'⟩ ∧
          found.start = (utf8 ("import \x7b " ++ import_.name ++ " \x7d from '" ++ import_.path ++
            "';") ++ lineEnding text).length + block.start ∧
          list'.entries out = utf8 import_.name :: list.entries text) ↔
        ¬ EndsInLineComment (trim (text.slice list.contents))) := by
  obtain ⟨source, rfl, rfl, rfl⟩ := exists_listedSource hscan
  rw [source.list_entries, source.slice_contents]
  refine ⟨_, source.rewire_eq import_, ?_, ?_⟩
  · rintro ⟨found, list', hfound, -, hentries⟩ hcomment
    exact source.not_found_of_endsInLineComment import_ hcomment hfound hentries
  · intro hcomment
    have hends := (endsInCode_trim_or source.contents_ends).resolve_right hcomment
    have houtcome := (source.rewire_eq import_).symm.trans
      (source.rewire_eq_prepend import_ hends)
    obtain ⟨hsource, -, -⟩ := RewireOutcome.rewired.inj houtcome
    obtain ⟨hstart, hentries⟩ := source.prepend_found import_ hends
    rw [source.list_entries] at hentries
    rw [hsource]
    exact ⟨_, _, (source.prepend import_ hends).scan_text, hstart, hentries⟩

/-- The bracket of the new list is part of the comment, and no list is found. -/
theorem rewire_listed_comment :
    let text := utf8 "@Component(\x7b imports: [A // a\n] \x7d)"
    ∃ out, rewire text "N" "./n" .balanced = .rewired out ⟨0, 34, 11, 32⟩ (.prepended 1) ∧
      ¬ ∃ found list', scan out = some ⟨found, some list'⟩ ∧ found.start = 25 ∧
        list'.entries out = [utf8 "N", utf8 "A // a"] := by
  intro text
  have hscan : scan text = some ⟨⟨0, 34, 11, 32⟩, some ⟨13, 31, ⟨23, 30⟩⟩⟩ := by decide +kernel
  have hentries : (ListProperty.mk 13 31 ⟨23, 30⟩).entries text = [utf8 "A // a"] := by
    decide +kernel
  have hcomment : EndsInLineComment (trim (text.slice ⟨23, 30⟩)) := by decide +kernel
  have hline : (utf8 ("import \x7b " ++ "N" ++ " \x7d from '" ++ "./n" ++ "';") ++
      lineEnding text).length = 25 := by
    decide +kernel
  obtain ⟨out, hout, hfound⟩ := rewire_listed hscan
    ⟨⟨"N", "./n", by decide, by decide⟩, by decide, by decide⟩
  rw [hentries] at hout hfound
  rw [hline] at hfound
  exact ⟨out, hout, fun hlist => hfound.mp hlist hcomment⟩

end Balanced

end Extraction
