import Mathlib.Data.List.TakeWhile
import Extraction.Proofs.BuiltinTemplate
import Extraction.Proofs.Paths
import Extraction.Proofs.Planning
import Extraction.Proofs.Prepend
import Extraction.Proofs.Rewritten
/-!
The artifacts of a plan name each other: the import line and the list in the rewired buffer name
the class of the new file, the tag is that of its selector, and the import leads to its path.
-/

namespace Extraction

open Byte Bytes
open Extraction.Balanced (keyText listProperty_eq)

/-! The list in the rewired buffer. -/

/-- The contents of a list that starts with a name as an entry of its own. -/
def IsFirstEntry (name contents : Bytes) : Prop :=
  contents = name ∨ ∃ others, contents = name ++ comma :: others

theorem isFirstEntry_prependedContents (name existing : Bytes) :
    IsFirstEntry name (prependedContents name existing) := by
  unfold prependedContents
  split
  · exact .inl rfl
  · exact .inr ⟨existing, rfl⟩

def IsEntry (name : Bytes) : Prop :=
  comma ∉ name ∧ entry name = [name]

theorem IsFirstEntry.head?_listEntries {name contents : Bytes}
    (hfirst : IsFirstEntry name contents) (hentry : IsEntry name) :
    (listEntries contents).head? = some name := by
  rcases hfirst with rfl | ⟨others, rfl⟩
  · rw [listEntries_of_not_mem hentry.1, hentry.2]
    rfl
  · rw [listEntries_append_cons hentry.1, hentry.2]
    rfl

/-- A body with a name in front of the list that was in it, or in a list of its own. -/
inductive NamedFirst (symbolicName : String) (lineBreak : Bytes) : Bytes → Bytes → Prop
  | prepended (left gap contents right : Bytes) :
      NamedFirst symbolicName lineBreak
        (left ++ (listKey ++ (gap ++ openBracket :: (contents ++ closeBracket :: right))))
        (left ++ (listProperty symbolicName (trim contents) ++ right))
  | inserted {body placed : Bytes} (hplaced : Placed symbolicName lineBreak body placed) :
      NamedFirst symbolicName lineBreak body placed

theorem Placed.exists_list {symbolicName : String} {lineBreak body placed : Bytes}
    (hplaced : Placed symbolicName lineBreak body placed) :
    ∃ left right, placed = left ++ (listProperty symbolicName [] ++ right) := by
  cases hplaced with
  | alone => exact ⟨body, [], by simp⟩
  | @behind byte code line right indent hbody hcomma hindent =>
      exact ⟨code ++ (Balanced.separator byte ++ (line ++ (lineBreak ++ indent))), right, by simp⟩

theorem NamedFirst.exists_list {symbolicName : String} {lineBreak body named : Bytes}
    (hnamed : NamedFirst symbolicName lineBreak body named) :
    ∃ left contents right, IsFirstEntry (utf8 symbolicName) contents ∧
      named = left ++ (utf8 "imports: [" ++ (contents ++ (utf8 "]" ++ right))) := by
  obtain ⟨left, existing, right, rfl⟩ :
      ∃ left existing right, named = left ++ (listProperty symbolicName existing ++ right) := by
    cases hnamed with
    | prepended left gap contents right => exact ⟨left, trim contents, right, rfl⟩
    | inserted hplaced =>
        obtain ⟨left, right, hlist⟩ := hplaced.exists_list
        exact ⟨left, [], right, hlist⟩
  refine ⟨left, _, right, isFirstEntry_prependedContents (utf8 symbolicName) existing, ?_⟩
  have hopen : utf8 "imports: [" = keyText [] [space] := rfl
  have hclose : utf8 "]" = [closeBracket] := rfl
  rw [listProperty_eq, hopen, hclose]
  simp

section Rewired

variable {strategy : BlockScan} {text : Bytes} {block : Block}

theorem exists_namedFirst_of_list {list : ListProperty} (hlist : list.StandsIn block text)
    (symbolicName : String) (lineBreak : Bytes) :
    ∃ named, NamedFirst symbolicName lineBreak (text.slice block.body) named ∧
      text.take list.start ++ (listProperty symbolicName (trim (text.slice list.contents)) ++
          text.drop list.stop) =
        text.take (block.openBrace + 1) ++ (named ++ text.drop block.closeBrace) := by
  have hopen := hlist.openBrace_lt
  have hkey := hlist.key_lt
  have hcontents := hlist.contents_le
  have hstop := hlist.stop_eq
  have hclose := hlist.stop_le
  obtain ⟨gap, hold⟩ := hlist.exists_slice
  have hbody : text.slice block.body = text.slice ⟨block.openBrace + 1, list.start⟩ ++
      (listKey ++ (gap ++ openBracket :: (text.slice list.contents ++
        closeBracket :: text.slice ⟨list.stop, block.closeBrace⟩))) := by
    rw [Block.body, ← text.slice_append_slice (show block.openBrace + 1 ≤ list.start by omega)
        (show list.start ≤ block.closeBrace by omega),
      ← text.slice_append_slice (show list.start ≤ list.stop by omega) hclose, hold]
    simp
  have hnamed := @NamedFirst.prepended symbolicName lineBreak
    (text.slice ⟨block.openBrace + 1, list.start⟩) gap (text.slice list.contents)
    (text.slice ⟨list.stop, block.closeBrace⟩)
  rw [← hbody] at hnamed
  refine ⟨_, hnamed, ?_⟩
  rw [← text.take_append_slice (show block.openBrace + 1 ≤ list.start by omega),
    ← text.slice_append_drop hclose]
  simp

theorem exists_of_rewired {symbolicName modulePath : String} {source : Bytes} {edit : ListEdit}
    (hrewired : rewire text symbolicName modulePath strategy = .rewired source block edit) :
    ∃ before body named after, text = before ++ (body ++ after) ∧
      before.length = block.openBrace + 1 ∧ (before ++ body).length = block.closeBrace ∧
      NamedFirst symbolicName (lineBreak text) body named ∧
      source = importStatement symbolicName modulePath (lineBreak text) ++
        (before ++ (named ++ after)) := by
  cases hscan : strategy.scan text with
  | none =>
      rw [rewire, hscan] at hrewired
      cases hrewired
  | some declaration =>
      have hfound := strategy.standsIn hscan
      obtain ⟨found, _ | list⟩ := declaration
      · obtain ⟨named, hplaced, hrewire⟩ := exists_rewire_bare hscan symbolicName modulePath
        cases hrewire.symm.trans hrewired
        obtain ⟨htext, hopen, hclose⟩ := hfound.block.pieces
        exact ⟨_, _, named, _, htext, hopen, hclose, .inserted hplaced, rfl⟩
      · have hrewire := rewire_of_listed hscan symbolicName modulePath
        cases hrewire.symm.trans hrewired
        obtain ⟨htext, hopen, hclose⟩ := hfound.block.pieces
        obtain ⟨named, hnamed, hsource⟩ :=
          exists_namedFirst_of_list (hfound.list list rfl) symbolicName (lineBreak text)
        exact ⟨_, _, named, _, htext, hopen, hclose, hnamed, by rw [hsource]⟩

end Rewired

/-! The path of the new file. -/

def bareExtension (extension : String) : String :=
  String.ofList (extension.toList.dropWhile (· == '.'))

namespace Path

def enter (location : List PathComponent) : PathComponent → List PathComponent
  | .root => [.root]
  | .here => location
  | other => location ++ [other]

/-- Where a path leads from a directory. -/
def resolve (directory path : String) : List PathComponent :=
  (components path).foldl enter (components directory)

theorem components_here {name : String} (hname : IsName name) :
    components ("./" ++ name) = [.here, .name name] := by
  have hsplit : split ("./" ++ name) = (['.'], [[], name.toList]) := by
    have hpath : "./" ++ name = unsplit ['.'] [[], name.toList] := by
      rw [← String.toList_inj]
      simp [unsplit, List.intercalate_cons_cons]
    rw [hpath]
    exact split_unsplit ⟨by simp, by simpa using hname.slash, .inr (.inl ⟨rfl, rfl⟩)⟩
  have hproper : [[], name.toList].filter isProper = [name.toList] := by
    rw [List.filter_cons_of_neg (by decide), List.filter_cons_of_pos hname.proper]
    rfl
  rw [components, hsplit]
  simp [hproper, hname.not_parent]

theorem resolve_here {name : String} (hname : IsName name) (directory : String) :
    resolve directory ("./" ++ name) = components directory ++ [.name name] := by
  rw [resolve, components_here hname]
  rfl

end Path

theorem isName_fileName {base extension : String} (hbase : base ≠ "")
    (hslash : '/' ∉ base.toList) (hextension : '/' ∉ extension.toList)
    (hdot : ∃ c ∈ extension.toList, c ≠ '.') :
    Path.IsName (base ++ "." ++ bareExtension extension) := by
  have hname : (base ++ "." ++ bareExtension extension).toList =
      base.toList ++ '.' :: extension.toList.dropWhile (· == '.') := by
    simp [bareExtension]
  have hbare : extension.toList.dropWhile (· == '.') ≠ [] := by
    obtain ⟨c, hmem, hc⟩ := hdot
    intro hnil
    exact hc (by simpa using List.dropWhile_eq_nil_iff.mp hnil c hmem)
  have hlength : 3 ≤ (base ++ "." ++ bareExtension extension).toList.length := by
    have hfirst := List.length_pos_iff.mpr (String.toList_eq_nil_iff.not.mpr hbase)
    have hlast := List.length_pos_iff.mpr hbare
    rw [hname, List.length_append, List.length_cons]
    omega
  refine ⟨?_, ?_, ?_⟩
  · rw [hname, List.mem_append, List.mem_cons]
    rintro (hmem | hmem | hmem)
    · exact hslash hmem
    · cases hmem
    · exact hextension ((List.dropWhile_suffix _).subset hmem)
  · rw [Path.isProper, Bool.and_eq_true, bne_iff_ne, bne_iff_ne]
    constructor <;> intro heq <;> simp [heq] at hlength
  · intro heq
    simp [heq] at hlength

theorem ComponentNames.fileName_eq (names : ComponentNames) {extension : String}
    (hextension : extension ≠ "") :
    names.fileName extension = names.fileBaseName ++ "." ++ bareExtension extension := by
  rw [fileName, if_neg hextension]
  rfl

theorem ComponentText.exists_text (component : ComponentText) :
    ∃ middle, component.text =
      utf8 "import \x7b Component \x7d from '" ++ component.importSource ++
        utf8 "';\n\n@Component(\x7b\n\tselector: '" ++ component.selector ++ utf8 "',\n" ++
          (middle ++ (utf8 "export class " ++ component.symbolicName ++ utf8 " \x7b\n\x7d\n")) := by
  have htemplate : utf8 "',\n\ttemplate: `\n\t\t" =
      utf8 "',\n" ++ utf8 "\ttemplate: `\n\t\t" := rfl
  have hclass : utf8 "\nexport class " = lineFeed :: utf8 "export class " := rfl
  refine ⟨utf8 "\ttemplate: `\n\t\t" ++ (component.selectedText ++ (utf8 "\n\t`," ++
    (utf8 "\n\t" ++ (utf8 "standalone: true" ++ (utf8 "\n\x7d)" ++ [lineFeed]))))), ?_⟩
  simp [text, textWith, head, declaration, properties, classText, utf8_beforeSelector, htemplate,
    hclass]

theorem Extractor.of_synthesizeFile_builtin {extractor : Extractor} {names : ComponentNames}
    {selectedText : Bytes} {enclosingPath : String} {file : SynthesizedFile}
    (hbuiltin : extractor.options.synthesis.template = builtinName)
    (hfile : extractor.synthesizeFile names selectedText enclosingPath = .ok file) :
    file.path = componentPath enclosingPath names extractor.options.synthesis.fileExtension ∧
      file.content =
        (names.componentText extractor.options.synthesis.importSource selectedText).text := by
  rw [synthesizeFile, synthesize_builtin hbuiltin] at hfile
  cases hfile
  exact ⟨rfl, rfl⟩

/-- A component whose names and extension keep to one directory is a file of that directory, and
the import leads to it. -/
theorem ComponentNames.hosted {names : ComponentNames} {fileSuffix extension : String}
    (hbase : names.fileBaseName = names.identifier.text ++ fileSuffix)
    (hidentifier : '/' ∉ names.identifier.text.toList) (hsuffix : '/' ∉ fileSuffix.toList)
    (hextension : '/' ∉ extension.toList) (hdot : ∃ c ∈ extension.toList, c ≠ '.')
    (enclosingPath : String) :
    let directory := (Path.parent? enclosingPath).getD ""
    ∃ fileName, names.modulePath ++ "." ++ bareExtension extension = "./" ++ fileName ∧
      Path.parent? (componentPath enclosingPath names extension) = some directory ∧
      Path.components (componentPath enclosingPath names extension) =
        Path.components directory ++ [.name fileName] ∧
      Path.resolve directory ("./" ++ fileName) =
        Path.components (componentPath enclosingPath names extension) := by
  intro directory
  have hne : extension ≠ "" := by
    rintro rfl
    obtain ⟨c, hmem, -⟩ := hdot
    cases hmem
  have hnonempty : names.fileBaseName ≠ "" := by
    rw [hbase, Ne, String.append_eq_empty_iff]
    exact fun hempty => names.identifier.ne_empty hempty.1
  have hslash : '/' ∉ names.fileBaseName.toList := by
    rw [hbase, String.toList_append, List.mem_append]
    exact not_or.mpr ⟨hidentifier, hsuffix⟩
  have hname := isName_fileName hnonempty hslash hextension hdot
  obtain ⟨hparent, hcomponents⟩ := Path.hosts_parent enclosingPath _ hname
  rw [componentPath, names.fileName_eq hne]
  refine ⟨_, ?_, hparent, hcomponents, ?_⟩
  · rw [modulePath, String.append_assoc, String.append_assoc, String.append_assoc]
  · rw [Path.resolve_here hname, hcomponents]

/-- The import line of the rewired buffer is that of the new class and leads to the new file, its
list names the class first, and the tag in place of the selection is that of the new selector. -/
theorem artifacts_agree {extractor : Extractor} {request : ExtractRequest} {plan : ExtractionPlan}
    {source : Bytes} {block : Block} {edit : ListEdit} {keep : Bool}
    (hplan : extractor.plan request = .ok plan)
    (hbuiltin : extractor.options.synthesis.template = builtinName)
    (hrewire : plan.rewire = some ⟨.rewired source block edit, keep⟩) :
    let naming := extractor.options.naming
    let synthesis := extractor.options.synthesis
    let names := plan.names
    let edited := plan.selectionEdit.apply request.buffer
    let directory := (Path.parent? request.enclosingPath).getD ""
    (∃ identifier, Identifier.parse (request.identifier.getD "") = .ok identifier ∧
      names = naming.derive identifier ∧ plan.modulePath = "./" ++ names.fileBaseName) ∧
    (∃ before body named after, edited = before ++ (body ++ after) ∧
      before.length = block.openBrace + 1 ∧ (before ++ body).length = block.closeBrace ∧
      NamedFirst names.symbolicName (lineEnding edited) body named ∧
      source = utf8 ("import \x7b " ++ names.symbolicName ++ " \x7d from '" ++
        plan.modulePath ++ "';") ++ (lineEnding edited ++ (before ++ (named ++ after))) ∧
      ∃ left contents right, IsFirstEntry (utf8 names.symbolicName) contents ∧
        named = left ++ (utf8 "imports: [" ++ (contents ++ (utf8 "]" ++ right))) ∧
        (IsEntry (utf8 names.symbolicName) →
          (listEntries contents).head? = some (utf8 names.symbolicName))) ∧
    (∃ middle, plan.file.content =
      utf8 ("import \x7b Component \x7d from '" ++ synthesis.importSource ++
        "';\n\n@Component(\x7b\n\tselector: '" ++ names.selector ++ "',\n") ++
      (middle ++ utf8 ("export class " ++ names.symbolicName ++ " \x7b\n\x7d\n"))) ∧
    plan.selectionEdit.replacement = utf8 (naming.tagStyle.render names.selector) ∧
    ('/' ∉ names.identifier.text.toList → '/' ∉ naming.fileSuffix.toList →
      '/' ∉ synthesis.fileExtension.toList → (∃ c ∈ synthesis.fileExtension.toList, c ≠ '.') →
      ∃ fileName, plan.modulePath ++ "." ++ bareExtension synthesis.fileExtension =
          "./" ++ fileName ∧
        Path.parent? plan.file.path = some directory ∧
        Path.components plan.file.path = Path.components directory ++ [.name fileName] ∧
        Path.resolve directory ("./" ++ fileName) = Path.components plan.file.path) := by
  intro naming synthesis names edited directory
  obtain ⟨selection, identifier, -, hidentifier, hnames, hmodule, hedit, -⟩ :=
    Extractor.of_plan_ok hplan
  obtain ⟨validated, -, hfile⟩ := Extractor.exists_synthesizeFile_of_plan_ok hplan
  obtain ⟨hpath, hcontent⟩ := Extractor.of_synthesizeFile_builtin hbuiltin hfile
  refine ⟨⟨identifier, hidentifier, hnames, hmodule⟩, ?_, ?_, ?_, ?_⟩
  · obtain ⟨before, body, named, after, hedited, hopen, hclose, hnamed, hsource⟩ :=
      exists_of_rewired (Extractor.rewire_of_plan_ok hplan hrewire)
    obtain ⟨left, contents, right, hfirst, hlist⟩ := hnamed.exists_list
    rw [lineBreak_eq] at hnamed
    refine ⟨before, body, named, after, hedited, hopen, hclose, hnamed, ?_,
      left, contents, right, hfirst, hlist, hfirst.head?_listEntries⟩
    rw [hsource, importStatement_eq, List.append_assoc]
  · obtain ⟨middle, htext⟩ :=
      (names.componentText synthesis.importSource validated.text).exists_text
    refine ⟨middle, ?_⟩
    rw [hcontent, htext]
    simp [ComponentNames.componentText]
  · rw [hedit]
    simp only [names, hnames]
    rfl
  · intro hslash hsuffix hextension hdot
    have hbase : names.fileBaseName = names.identifier.text ++ naming.fileSuffix := by
      simp only [names, hnames]
      rfl
    rw [hmodule, hpath]
    exact ComponentNames.hosted hbase hslash hsuffix hextension hdot request.enclosingPath

/-- A selection in a template, with a list below it. -/
theorem artifacts_agree_listed :
    let buffer := utf8 "@Component(\x7b template: `<b>`, imports: [A] \x7d)"
    let request : ExtractRequest :=
      ⟨"src/app/a.ts", buffer, some ⟨utf8 "<b>", ⟨24, 27⟩⟩, some "foo-bar"⟩
    let source := utf8 ("import \x7b FooBarComponent \x7d from './foo-bar.component';\n" ++
      "@Component(\x7b template: `<app-foo-bar></app-foo-bar>`, " ++
      "imports: [FooBarComponent,A] \x7d)")
    let block : Block := ⟨0, 69, 11, 67⟩
    ∃ plan, Extractor.plan {} request = .ok plan ∧
      plan.rewire = some ⟨.rewired source block (.prepended 1), true⟩ ∧
      plan.selectionEdit.replacement = utf8 (TagStyle.paired.render plan.names.selector) ∧
      Path.parent? plan.file.path = some "src/app" ∧
      Path.resolve "src/app" (plan.modulePath ++ "." ++ "ts") = Path.components plan.file.path := by
  intro buffer request source block
  have hmade : ((Extractor.plan {} request).toOption.map fun plan =>
      (plan.names.identifier.text, plan.rewire)) =
        some ("foo-bar", some ⟨.rewired source block (.prepended 1), true⟩) := by decide +kernel
  cases hplan : Extractor.plan {} request with
  | error err =>
      rw [hplan] at hmade
      cases hmade
  | ok plan =>
      rw [hplan] at hmade
      obtain ⟨hidentifier, hrewire⟩ := Prod.mk.inj (Option.some.inj hmade)
      have hslash : '/' ∉ plan.names.identifier.text.toList := by
        rw [hidentifier]
        decide
      have hdirectory : (Path.parent? request.enclosingPath).getD "" = "src/app" := by decide
      have hextension : bareExtension "ts" = "ts" := by decide
      obtain ⟨-, -, -, htag, hpath⟩ := artifacts_agree hplan rfl hrewire
      obtain ⟨fileName, hmodule, hparent, -, hresolve⟩ :=
        hpath hslash (by decide) (by decide) ⟨'t', by decide, by decide⟩
      rw [hdirectory] at hparent hresolve
      rw [hextension] at hmodule
      refine ⟨plan, rfl, hrewire, htag, hparent, ?_⟩
      rw [← hresolve, ← hmodule]

end Extraction
