import Extraction.Source.Anchor
import Extraction.Source.Scan
/-!
Importing a component into the source text of another: an import line in front, and the
component's name as the first entry of the declaration's list. Every byte outside the block
stays, and a name that is listed already is listed again.
-/

namespace Extraction

open Byte

/-- The import of `symbolicName` from `modulePath`, ended by a line break. -/
def importStatement (symbolicName modulePath : String) (lineBreak : Bytes) : Bytes :=
  utf8 "import \x7b " ++ utf8 symbolicName ++ utf8 " \x7d from '" ++ utf8 modulePath ++
    utf8 "';" ++ lineBreak

/-- The line break that a text uses: carriage return and line feed if it has one such pair. -/
def lineBreak (text : Bytes) : Bytes :=
  if text.contains [carriageReturn, lineFeed] then [carriageReturn, lineFeed] else [lineFeed]

inductive ListEdit
  /-- The name was put before this many entries. -/
  | prepended (existingEntries : Nat)
  | inserted
deriving DecidableEq, Repr

inductive RewireOutcome
  | rewired (source : Bytes) (block : Block) (edit : ListEdit)
  /-- No block was found; the text is the source with the import line in front. -/
  | blockNotFound (sourceWithImport : Bytes)
deriving DecidableEq, Repr

/-- The `imports` property that lists a name and, after it, the text of the entries it had. -/
def listProperty (symbolicName : String) (existing : Bytes) : Bytes :=
  if existing.isEmpty then utf8 "imports: [" ++ utf8 symbolicName ++ utf8 "]"
  else utf8 "imports: [" ++ utf8 symbolicName ++ utf8 "," ++ existing ++ utf8 "]"

def Block.prependEntry (block : Block) (list : ListProperty) (text : Bytes)
    (symbolicName : String) : Bytes :=
  text.slice ⟨block.start, list.start⟩ ++
    listProperty symbolicName (Bytes.trim (text.slice list.contents)) ++
    text.slice ⟨list.stop, block.stop⟩

def lineStart (text : Bytes) (offset : Nat) : Nat :=
  offset - ((text.take offset).reverse.takeWhile (· != lineFeed)).length

/-- The spaces and tabs that start the line of an offset. The line of the marker counts as not
indented, and a line that is not indented gives two spaces. -/
def Block.indent (block : Block) (text : Bytes) (offset : Nat) : Bytes :=
  let start := lineStart text offset
  let blanks := (text.slice ⟨start, offset⟩).takeWhile fun b => b == space || b == tab
  if start ≤ block.openBrace || blanks.isEmpty then [space, space] else blanks

/-- The text of a block with a new list: right before the closing brace of a block without code,
else on a line of its own after the last property. -/
def Block.insertList (block : Block) (text : Bytes) (symbolicName : String)
    (lineBreak : Bytes) : Bytes :=
  match propertyAnchor text block.body with
  | none =>
      text.slice ⟨block.start, block.closeBrace⟩ ++ listProperty symbolicName [] ++
        text.slice ⟨block.closeBrace, block.stop⟩
  | some anchor =>
      text.slice ⟨block.start, anchor.afterCode⟩ ++
        (if anchor.lastCodeByte == comma then [] else [comma]) ++
        text.slice ⟨anchor.afterCode, anchor.lineEnd⟩ ++
        lineBreak ++ block.indent text anchor.afterCode ++ listProperty symbolicName [] ++
        text.slice ⟨anchor.lineEnd, block.stop⟩

def rewire (text : Bytes) (symbolicName modulePath : String) (scan : BlockScan) :
    RewireOutcome :=
  let lineBreak := lineBreak text
  let importLine := importStatement symbolicName modulePath lineBreak
  let around (block : Block) (newBlock : Bytes) : Bytes :=
    importLine ++ text.take block.start ++ newBlock ++ text.drop block.stop
  match scan.scan text with
  | none => .blockNotFound (importLine ++ text)
  | some { block, list := some list } =>
      .rewired (around block (block.prependEntry list text symbolicName)) block
        (.prepended (list.entries text).length)
  | some { block, list := none } =>
      .rewired (around block (block.insertList text symbolicName lineBreak)) block .inserted

end Extraction
