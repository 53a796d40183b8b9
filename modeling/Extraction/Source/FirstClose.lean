import Extraction.Source.Block
/-!
The plain text heuristic: a block starts at the first marker followed by a brace and ends at the
first `})` after it, and the list is the first `imports: […]` in between, whatever literals and
comments the text holds.
-/

namespace Extraction.FirstClose

open Byte

def opening? (text : Bytes) : Option Nat :=
  if marker.isPrefixOf text then
    let width := marker.length + Bytes.blankWidth (text.drop marker.length)
    if text[width]? == some openBrace then some (width + 1) else none
  else none

def separator? (byte : UInt8) (text : Bytes) : Option Nat :=
  let width := Bytes.blankWidth text
  if text[width]? == some byte then some (width + 1) else none

def listOpening? (text : Bytes) : Option Nat :=
  if listKey.isPrefixOf text then
    match separator? colon (text.drop listKey.length) with
    | some colonWidth =>
        (separator? openBracket (text.drop (listKey.length + colonWidth))).map
          (listKey.length + colonWidth + ·)
    | none => none
  else none

/-- A list at the start of a text: the range of its contents. -/
def list? (text : Bytes) : Option Span :=
  match listOpening? text with
  | some start =>
      (Bytes.indexOf? [closeBracket] (text.drop start)).map fun width => ⟨start, start + width⟩
  | none => none

/-- The first list of a text that starts at `base`. -/
def findList (base : Nat) (text : Bytes) : Option ListProperty :=
  (firstMatch? list? text).map fun (start, contents) =>
    { start := base + start
      stop := base + start + contents.stop + 1
      contents := ⟨base + start + contents.start, base + start + contents.stop⟩ }

def scan (text : Bytes) : Option Declaration :=
  match firstMatch? opening? text with
  | none => none
  | some (start, width) =>
      match Bytes.indexOf? [closeBrace, closeParen] (text.drop start) with
      | none => none
      | some close =>
          let block : Block :=
            { start
              stop := start + close + 2
              openBrace := start + width - 1
              closeBrace := start + close }
          some { block, list := findList start (text.slice block.span) }

end Extraction.FirstClose
