import Extraction.Proofs.Insert
/-!
Imports into one text, one after the other. The first gives the block a list, each later one is
put in front of the names before it, and the import lines gather in front of the text, the newest
first.
-/

namespace Extraction

open Byte CodeView Bytes

/-- What a sequence of imports made of a text: the text at the end, what became of the list at
each step, and all the import lines in front of the text. -/
structure Rewiring where
  text : Bytes
  edits : List ListEdit
  lines : Bytes
deriving DecidableEq, Repr

/-- Imports into a text one after the other, each into the text that the one before it left;
`none` if one of them finds no block. -/
def rewireAll (strategy : BlockScan) (text : Bytes) : List Import → Option Rewiring
  | [] => some ⟨text, [], []⟩
  | import_ :: imports =>
      match rewire text import_.name import_.path strategy with
      | .rewired source _ edit =>
          (rewireAll strategy source imports).map fun rewiring =>
            { rewiring with
              edits := edit :: rewiring.edits
              lines := rewiring.lines ++ import_.line text }
      | .blockNotFound _ => none

section Run

variable {strategy : BlockScan}

theorem rewireAll_cons {text source : Bytes} {block : Block} {edit : ListEdit} {import_ : Import}
    {imports : List Import} {rewiring : Rewiring}
    (hfirst : rewire text import_.name import_.path strategy = .rewired source block edit)
    (hrest : rewireAll strategy source imports = some rewiring) :
    rewireAll strategy text (import_ :: imports) =
      some ⟨rewiring.text, edit :: rewiring.edits, rewiring.lines ++ import_.line text⟩ := by
  rw [rewireAll, hfirst]
  simp only [hrest, Option.map_some]

/-- Imports that are put in front of a list, one after the other. A text with a lead and with
listed names gives such a text again, whose lead starts with the import line. -/
theorem rewireAll_of_step {imports : List Import} {Listed : Bytes → List Bytes → Bytes → Prop}
    (hstep : ∀ import_ ∈ imports, ∀ {lead : Bytes} {names : List Bytes} {text : Bytes},
      Listed lead names text → ∃ source block,
        rewire text import_.name import_.path strategy =
            .rewired source block (.prepended names.length) ∧
          Listed (import_.line text ++ lead) (utf8 import_.name :: names) source)
    {lead : Bytes} {names : List Bytes} {text : Bytes} (hlisted : Listed lead names text) :
    ∃ final lines,
      rewireAll strategy text imports = some ⟨final,
        (List.range imports.length).map fun index => .prepended (names.length + index), lines⟩ ∧
      Listed (lines ++ lead) ((imports.map fun import_ => utf8 import_.name).reverse ++ names)
        final := by
  induction imports generalizing lead names text with
  | nil => exact ⟨text, [], rfl, hlisted⟩
  | cons import_ imports ih =>
      obtain ⟨source, block, hfirst, hsource⟩ := hstep import_ List.mem_cons_self hlisted
      obtain ⟨final, lines, hrest, hfinal⟩ :=
        ih (fun other hmem => hstep other (List.mem_cons_of_mem _ hmem)) hsource
      refine ⟨final, lines ++ import_.line text, (rewireAll_cons hfirst hrest).trans ?_, ?_⟩
      · simp [List.range_succ_eq_map, Function.comp_def, Nat.add_assoc, Nat.add_comm 1]
      · simpa using hfinal

end Run

namespace Balanced

namespace ListedSource

/-- The list is made of names: they are its entries, and beside them it has commas only. -/
structure Lists (source : ListedSource) (names : List Bytes) : Prop where
  entries : listEntries source.contents = names
  bytes : IsNames source.contents

theorem Lists.endsInCode_trim {source : ListedSource} {names : List Bytes}
    (hlists : source.Lists names) : EndsInCode (trim source.contents) := by
  have htrim : IsNames (trim source.contents) := fun b hb => hlists.bytes b (mem_of_mem_trim hb)
  exact .of_plain htrim.isPlain

theorem lists_of_contents {source : ListedSource} {import_ : QuotedImport}
    (hcontents : source.contents = utf8 import_.name) : source.Lists [utf8 import_.name] := by
  constructor
  · rw [hcontents]
    exact listEntries_prependedContents import_.name_isIdent import_.utf8_name_ne []
  · rw [hcontents]
    exact import_.isNames_name

theorem Lists.prepend {source : ListedSource} {names : List Bytes}
    (hlists : source.Lists names) (import_ : QuotedImport) :
    (source.prepend import_ hlists.endsInCode_trim).Lists (utf8 import_.name :: names) := by
  constructor
  · exact (source.listEntries_newContents import_).trans (by rw [hlists.entries])
  · obtain ⟨front, hcontents, hfront⟩ := source.newContents_eq import_
    intro b hb
    have hmem : b ∈ front ++ trim source.contents := hcontents ▸ hb
    rcases List.mem_append.mp hmem with hmem | hmem
    · exact hfront b hmem
    · exact hlists.bytes b (mem_of_mem_trim hmem)

def IsListed (lead : Bytes) (names : List Bytes) (text : Bytes) : Prop :=
  ∃ source : ListedSource, source.text = text ∧ source.lead = lead ∧ source.Lists names

theorem rewireAll_listed {lead : Bytes} {names : List Bytes} {text : Bytes}
    (hlisted : IsListed lead names text) (imports : List QuotedImport) :
    ∃ final lines,
      rewireAll .balanced text (imports.map QuotedImport.toImport) = some ⟨final,
        (List.range imports.length).map fun index => .prepended (names.length + index), lines⟩ ∧
      IsListed (lines ++ lead) ((imports.map fun import_ => utf8 import_.name).reverse ++ names)
        final := by
  have hrun := @rewireAll_of_step .balanced (imports.map QuotedImport.toImport) IsListed ?_
    lead names text hlisted
  · simpa [Function.comp_def] using hrun
  intro import_ hmem lead names text
  obtain ⟨import_, -, rfl⟩ := List.mem_map.mp hmem
  rintro ⟨source, rfl, rfl, hlists⟩
  refine ⟨_, source.block, ?_, source.prepend import_ hlists.endsInCode_trim, rfl, rfl,
    hlists.prepend import_⟩
  rw [source.rewire_eq_prepend import_ hlists.endsInCode_trim, hlists.entries]

end ListedSource

/-- Any number of imports into a text whose block has no list: every one is carried out, the
names are listed newest first, and the block is found behind the import lines. -/
theorem rewireAll_bare {text : Bytes} {block : Block} (hscan : scan text = some ⟨block, none⟩)
    (import_ : QuotedImport) (imports : List QuotedImport) :
    ∃ final lines,
      rewireAll .balanced text ((import_ :: imports).map QuotedImport.toImport) = some ⟨final,
        .inserted :: (List.range imports.length).map fun index => .prepended (index + 1), lines⟩ ∧
      ∃ found list, scan final = some ⟨found, some list⟩ ∧
        found.start = lines.length + block.start ∧
        list.entries final =
          ((import_ :: imports).map fun import_ => utf8 import_.name).reverse := by
  -- The first import makes a list, on which the others build.
  obtain ⟨source, rfl, rfl⟩ := exists_bareSource hscan
  obtain ⟨first, hfirst, hlead, hcontents⟩ := source.exists_insert import_
  have hlists := ListedSource.lists_of_contents hcontents
  obtain ⟨_, lines, hrest, target, rfl, htargetLead, htarget⟩ :=
    ListedSource.rewireAll_listed ⟨first, rfl, rfl, hlists⟩ imports
  refine ⟨target.text, lines ++ import_.line source.text,
    (rewireAll_cons hfirst hrest).trans ?_, _, _, target.scan_text, ?_, ?_⟩
  · simp [Nat.add_comm 1]
  · simp [ListedSource.block, BareSource.block, htargetLead, hlead, Nat.add_assoc]
  · rw [target.list_entries, htarget.entries]
    simp

theorem rewireAll_bare_twice :
    let text := utf8 "@Component(\x7b /* imports: [] */ a: '\x7d' // a\n\x7d)"
    ∃ final lines, rewireAll .balanced text
        [⟨"A", "./a", by decide, by decide⟩, ⟨"B", "./b", by decide, by decide⟩] =
        some ⟨final, [.inserted, .prepended 1], lines⟩ ∧
      ∃ found list, scan final = some ⟨found, some list⟩ ∧ found.start = lines.length + 0 ∧
        list.entries final = [utf8 "B", utf8 "A"] := by
  intro text
  have hscan : scan text = some ⟨⟨0, 45, 11, 43⟩, none⟩ := by decide +kernel
  exact rewireAll_bare hscan
    ⟨⟨"A", "./a", by decide, by decide⟩, by decide, by decide⟩
    [⟨⟨"B", "./b", by decide, by decide⟩, by decide, by decide⟩]

end Balanced

end Extraction
