import Extraction.Text.Blank
import Extraction.Text.Byte
/-!
What a scan finds in a source text: the configuration block of a component declaration and the
`imports` list in it. All offsets are absolute.
-/

namespace Extraction

def marker : Bytes := utf8 "@Component("

def listKey : Bytes := utf8 "imports"

/-- A declaration from its marker through its closing parenthesis, with the braces of its
configuration object. -/
structure Block where
  start : Nat
  stop : Nat
  openBrace : Nat
  closeBrace : Nat
deriving DecidableEq, Repr

def Block.span (block : Block) : Span :=
  ⟨block.start, block.stop⟩

def Block.body (block : Block) : Span :=
  ⟨block.openBrace + 1, block.closeBrace⟩

/-- An `imports` property, from its key through its closing bracket, with the text between its
brackets. -/
structure ListProperty where
  start : Nat
  stop : Nat
  contents : Span
deriving DecidableEq, Repr

/-- The entries of a list's contents: separated by commas, trimmed, none of them empty. -/
def listEntries (contents : Bytes) : List Bytes :=
  ((contents.splitOn Byte.comma).map Bytes.trim).filter fun entry => !entry.isEmpty

def ListProperty.entries (list : ListProperty) (text : Bytes) : List Bytes :=
  listEntries (text.slice list.contents)

def ListProperty.entries? (list : ListProperty) (text : Bytes) : Option (List Bytes) :=
  (text.slice? list.contents).map listEntries

structure Declaration where
  block : Block
  list : Option ListProperty
deriving DecidableEq, Repr

end Extraction
