import Extraction.Proofs.InsertTokens
import Extraction.Proofs.Rewritten
/-!
Line breaks of a rewired text. Rewiring cuts a text and puts pieces between the cuts; no cut parts
a carriage return from its line feed, so what holds of a text line break by line break holds of
its pieces and of what is made of them.
-/

namespace Extraction

open Byte Bytes
open Extraction.Balanced (separator)

/-- Every line feed stands directly behind a carriage return. -/
def PairsLineFeeds (text : Bytes) : Prop :=
  ∀ left right, text = left ++ lineFeed :: right → left.getLast? = some carriageReturn

def IsLine (text : Bytes) : Prop :=
  lineFeed ∉ text ∧ carriageReturn ∉ text

instance (text : Bytes) : Decidable (IsLine text) :=
  inferInstanceAs (Decidable (_ ∧ _))

def RewireOutcome.text : RewireOutcome → Bytes
  | .rewired source _ _ => source
  | .blockNotFound sourceWithImport => sourceWithImport

theorem pairsLineFeeds_iff {text : Bytes} :
    PairsLineFeeds text ↔ ∀ offset < text.length, text[offset]? = some lineFeed →
      (text.take offset).getLast? = some carriageReturn := by
  constructor
  · intro hpairs offset _ hat
    obtain ⟨hlt, hget⟩ := List.getElem?_eq_some_iff.mp hat
    refine hpairs (text.take offset) (text.drop (offset + 1)) ?_
    rw [← hget, ← List.drop_eq_getElem_cons hlt, List.take_append_drop]
  · rintro hall left right rfl
    have hleft := hall left.length (by simp) (by simp)
    rwa [List.take_left] at hleft

instance (text : Bytes) : Decidable (PairsLineFeeds text) :=
  decidable_of_iff _ pairsLineFeeds_iff.symm

/-- A property of texts that line breaks decide: it holds of what is put together, and of the
pieces of a text that is cut outside of its line breaks. -/
structure LineStyle (P : Bytes → Prop) : Prop where
  line : ∀ {text}, IsLine text → P text
  append : ∀ {left right}, P left → P right → P (left ++ right)
  left : ∀ {left right}, P (left ++ right) → P left
  right : ∀ {left right}, P (left ++ right) → ¬ SplitsPair left right → P right

theorem lineStyle_pairsLineFeeds : LineStyle PairsLineFeeds where
  line := by
    rintro _ ⟨hfeed, -⟩ left right rfl
    simp at hfeed
  append := by
    intro left right hleft hright first second h
    rcases List.append_eq_append_iff.mp h with ⟨middle, rfl, rfl⟩ | ⟨middle, rfl, hmiddle⟩
    · have hlast := hright middle second rfl
      have hne : middle ≠ [] := by
        rintro rfl
        cases hlast
      rwa [List.getLast?_append_of_ne_nil _ hne]
    · cases middle with
      | nil => cases hright [] second hmiddle.symm
      | cons b middle =>
          obtain ⟨rfl, rfl⟩ := List.cons.inj hmiddle
          exact hleft first middle rfl
  left := by
    rintro _ right h first second rfl
    exact h first (second ++ right) (by simp)
  right := by
    rintro left _ h hwhole first second rfl
    have hlast := h (left ++ first) second (by simp)
    cases first with
    | nil => exact absurd ⟨by simpa using hlast, rfl⟩ hwhole
    | cons b first => rwa [List.getLast?_append_of_ne_nil _ (List.cons_ne_nil b first)] at hlast

theorem lineStyle_noReturn : LineStyle (carriageReturn ∉ ·) where
  line h := h.2
  append := by simp +contextual
  left := by simp +contextual
  right := by simp +contextual

theorem SplitsPair.of_embedded {lead left right tail : Bytes}
    (h : SplitsPair (lead ++ left) (right ++ tail)) (hleft : left ≠ [])
    (htail : tail.head? ≠ some lineFeed) : SplitsPair left right := by
  obtain ⟨hlast, hhead⟩ := h
  rw [List.getLast?_append_of_ne_nil _ hleft] at hlast
  cases right with
  | nil => exact absurd hhead htail
  | cons b right => exact ⟨hlast, hhead⟩

theorem not_splitsPair_of_last {text : Bytes} {offset : Nat} {b : UInt8}
    (hlast : text[offset]? = some b) (hb : b ≠ carriageReturn) (right : Bytes) :
    ¬ SplitsPair (text.take (offset + 1)) right := by
  rintro ⟨hreturn, -⟩
  rw [List.take_add_one, hlast, Option.toList_some, List.getLast?_concat] at hreturn
  exact hb (Option.some.inj hreturn)

theorem isLine_indent (block : Block) (text : Bytes) (offset : Nat) :
    IsLine (block.indent text offset) := by
  unfold Block.indent
  simp only
  split
  · decide
  · constructor
    all_goals
      intro hmem
      cases List.all_eq_true.mp List.all_takeWhile _ hmem

theorem isLine_separator (byte : UInt8) : IsLine (separator byte) := by
  unfold separator
  split <;> decide

namespace LineStyle

variable {P : Bytes → Prop} (hstyle : LineStyle P) {text : Bytes}
include hstyle

theorem take (htext : P text) (offset : Nat) : P (text.take offset) :=
  hstyle.left (by rwa [text.take_append_drop offset])

theorem drop (htext : P text) {offset : Nat}
    (hwhole : ¬ SplitsPair (text.take offset) (text.drop offset)) : P (text.drop offset) :=
  hstyle.right (by rwa [text.take_append_drop offset]) hwhole

theorem trim (htext : P text) : P (Bytes.trim text) := by
  obtain ⟨lead, -, hlead⟩ := exists_white_trimStart text
  obtain ⟨trail, -, htrail⟩ := exists_white_trimEnd (trimStart text)
  have hstart : P (trimStart text) := by
    rw [hlead] at htext
    refine hstyle.right htext ?_
    rintro ⟨-, hhead⟩
    obtain ⟨rest, hrest⟩ := List.head?_eq_some_iff.mp hhead
    exact not_prefix_trimStart (show [lineFeed] ∈ whiteSpaceWords by decide) text
      ⟨rest, hrest.symm⟩
  rw [htrail] at hstart
  exact hstyle.left hstart

theorem importStatement {symbolicName modulePath : String} {lineBreak : Bytes}
    (hname : IsLine (utf8 symbolicName)) (hpath : IsLine (utf8 modulePath))
    (hbreak : P lineBreak) : P (Extraction.importStatement symbolicName modulePath lineBreak) := by
  have hwords := hstyle.line (show IsLine (utf8 "import \x7b ") by decide)
  have hfrom := hstyle.line (show IsLine (utf8 " \x7d from '") by decide)
  have hend := hstyle.line (show IsLine (utf8 "';") by decide)
  exact hstyle.append (hstyle.append (hstyle.append (hstyle.append (hstyle.append hwords
    (hstyle.line hname)) hfrom) (hstyle.line hpath)) hend) hbreak

theorem listProperty {symbolicName : String} {existing : Bytes}
    (hname : IsLine (utf8 symbolicName)) (hexisting : P existing) :
    P (Extraction.listProperty symbolicName existing) := by
  have hopen := hstyle.line (show IsLine (utf8 "imports: [") by decide)
  have hcomma := hstyle.line (show IsLine (utf8 ",") by decide)
  have hclose := hstyle.line (show IsLine (utf8 "]") by decide)
  have hnamed := hstyle.append hopen (hstyle.line hname)
  unfold Extraction.listProperty
  split
  · exact hstyle.append hnamed hclose
  · exact hstyle.append (hstyle.append (hstyle.append hnamed hcomma) hexisting) hclose

section Scanned

variable {block : Block} {symbolicName modulePath : String} (htext : P text)
  (hname : IsLine (utf8 symbolicName)) (hbreak : P (lineBreak text))
  (hpath : IsLine (utf8 modulePath))
include htext hname

theorem prependEntry {list : ListProperty} (hlist : list.StandsIn block text) :
    P (text.take list.start ++ (Extraction.listProperty symbolicName
      (Bytes.trim (text.slice list.contents)) ++ text.drop list.stop)) := by
  have hkey := hlist.key_lt
  have hopen : ¬ SplitsPair (text.take list.contents.start) (text.drop list.contents.start) := by
    have hwhole := not_splitsPair_of_last hlist.openBracket_at (by decide)
      (text.drop list.contents.start)
    rwa [Nat.sub_add_cancel (by omega)] at hwhole
  have hclose : ¬ SplitsPair (text.take list.stop) (text.drop list.stop) := by
    rw [hlist.stop_eq]
    exact not_splitsPair_of_last hlist.closeBracket_at (by decide) _
  have hcontents : P (text.slice list.contents) := hstyle.take (hstyle.drop htext hopen) _
  exact hstyle.append (hstyle.take htext _) (hstyle.append
    (hstyle.listProperty hname (hstyle.trim hcontents)) (hstyle.drop htext hclose))

include hbreak

theorem insertList (hblock : block.StandsIn text) :
    P (text.take block.start ++ (block.insertList text symbolicName (lineBreak text) ++
      text.drop block.stop)) := by
  have hbrace : (text.drop block.closeBrace).head? = some closeBrace := by
    rw [List.head?_drop]
    exact hblock.closeBrace_at
  have hbehind : (text.drop block.closeBrace).head? ≠ some lineFeed := by
    rw [hbrace]
    decide
  have hlist : P (Extraction.listProperty symbolicName []) :=
    hstyle.listProperty hname (hstyle.line (by decide))
  cases hfound : propertyAnchor text block.body with
  | none =>
      rw [insertList_of_none hblock hfound]
      exact hstyle.append (hstyle.take htext _)
        (hstyle.append hlist (hstyle.drop htext fun hsplits => hbehind hsplits.2))
  | some anchor =>
      obtain ⟨code, line, right, hslice, hcuts⟩ := exists_of_propertyAnchor hfound
      rw [insertList_of_cuts hblock hfound hslice hcuts]
      have hpieces := hblock.pieces.1
      rw [hslice] at hpieces
      have hcode : text = (text.take (block.openBrace + 1) ++ code) ++
          (line ++ (right ++ text.drop block.closeBrace)) := hpieces.trans (by simp)
      have hline : text = (text.take (block.openBrace + 1) ++ (code ++ line)) ++
          (right ++ text.drop block.closeBrace) := hpieces.trans (by simp)
      have hafterCode : P (line ++ (right ++ text.drop block.closeBrace)) := by
        refine hstyle.right (hcode ▸ htext) fun hsplits => ?_
        rw [← List.append_assoc] at hsplits
        exact hcuts.code_whole (hsplits.of_embedded hcuts.code_ne hbehind)
      have hafterLine : P (right ++ text.drop block.closeBrace) := by
        refine hstyle.right (hline ▸ htext) fun hsplits => ?_
        exact hcuts.line_whole (hsplits.of_embedded (by simp [hcuts.code_ne]) hbehind)
      have hnewLine : P (lineBreak text ++ (block.indent text anchor.afterCode ++
          (Extraction.listProperty symbolicName [] ++ (right ++ text.drop block.closeBrace)))) :=
        hstyle.append hbreak (hstyle.append (hstyle.line (isLine_indent ..))
          (hstyle.append hlist hafterLine))
      have hwhole := hstyle.append (hstyle.left (hcode ▸ htext))
        (hstyle.append (hstyle.line (isLine_separator anchor.lastCodeByte))
          (hstyle.append (hstyle.left hafterCode) hnewLine))
      simpa using hwhole

include hpath

theorem rewire (strategy : BlockScan) :
    P (Extraction.rewire text symbolicName modulePath strategy).text := by
  have himport := hstyle.importStatement hname hpath hbreak
  cases hscan : strategy.scan text with
  | none =>
      have hnone : Extraction.rewire text symbolicName modulePath strategy = .blockNotFound
          (Extraction.importStatement symbolicName modulePath (lineBreak text) ++ text) := by
        simp only [Extraction.rewire, hscan]
      rw [hnone]
      exact hstyle.append himport htext
  | some declaration =>
      obtain ⟨block, list⟩ := declaration
      have hstands := strategy.standsIn hscan
      cases list with
      | none =>
          rw [rewire_of_bare hscan]
          exact hstyle.append himport (hstyle.insertList htext hname hbreak hstands.block)
      | some list =>
          rw [rewire_of_listed hscan]
          exact hstyle.append himport (hstyle.prependEntry htext hname (hstands.list list rfl))

end Scanned

end LineStyle

theorem isLine_utf8 {s : String} (hfeed : '\n' ∉ s.toList) (hreturn : '\r' ∉ s.toList) :
    IsLine (utf8 s) :=
  ⟨not_mem_utf8 (by decide) (by decide) hfeed, not_mem_utf8 (by decide) (by decide) hreturn⟩

/-- Rewiring keeps the style of line breaks: where every one is a pair of carriage return and line
feed, every one is afterwards, and a text without carriage returns gets none. -/
theorem rewire_keeps_lineBreaks (text : Bytes) {symbolicName modulePath : String}
    (hname : '\n' ∉ symbolicName.toList ∧ '\r' ∉ symbolicName.toList)
    (hpath : '\n' ∉ modulePath.toList ∧ '\r' ∉ modulePath.toList) (strategy : BlockScan) :
    ([carriageReturn, lineFeed] <:+: text → PairsLineFeeds text →
        PairsLineFeeds (rewire text symbolicName modulePath strategy).text) ∧
      (carriageReturn ∉ text →
        carriageReturn ∉ (rewire text symbolicName modulePath strategy).text) := by
  have hnameLine := isLine_utf8 hname.1 hname.2
  have hpathLine := isLine_utf8 hpath.1 hpath.2
  constructor
  · intro hpair hpairs
    have hbreak : PairsLineFeeds (lineBreak text) := by
      rw [lineBreak_of_pair hpair]
      decide
    exact lineStyle_pairsLineFeeds.rewire hpairs hnameLine hbreak hpathLine strategy
  · intro hreturn
    have hbreak : carriageReturn ∉ lineBreak text := by
      rw [lineBreak, if_neg]
      · decide
      · rw [Bytes.contains_iff]
        exact fun hpair => hreturn (hpair.subset List.mem_cons_self)
    exact lineStyle_noReturn.rewire hreturn hnameLine hbreak hpathLine strategy

/-- The new line starts between a comment and the line break that ends it. -/
theorem rewire_keeps_lineBreaks_comment :
    let paired := utf8 "@Component(\x7b\r\n  selector: 'x' // x\r\n\x7d)\r\n"
    let plain := utf8 "@Component(\x7b\n  selector: 'x' // x\n\x7d)\n"
    PairsLineFeeds (rewire paired "C" "./c" .firstClose).text ∧
      PairsLineFeeds (rewire paired "C" "./c" .balanced).text ∧
      carriageReturn ∉ (rewire plain "C" "./c" .balanced).text := by
  intro paired plain
  have hpair : [carriageReturn, lineFeed] <:+: paired := contains_iff.mp (by decide +kernel)
  have hpairs : PairsLineFeeds paired := by decide +kernel
  have hname : '\n' ∉ "C".toList ∧ '\r' ∉ "C".toList := by decide
  have hpath : '\n' ∉ "./c".toList ∧ '\r' ∉ "./c".toList := by decide
  exact ⟨(rewire_keeps_lineBreaks paired hname hpath .firstClose).1 hpair hpairs,
    (rewire_keeps_lineBreaks paired hname hpath .balanced).1 hpair hpairs,
    (rewire_keeps_lineBreaks plain hname hpath .balanced).2 (by decide +kernel)⟩

end Extraction
