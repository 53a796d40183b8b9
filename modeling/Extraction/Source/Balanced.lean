import Extraction.Source.Block
import Extraction.Source.Mode
/-!
The scan by bracket depth. It reads the code view of a text only: the block starts at the first
marker followed by a brace and ends at the brace that closes it, and the list is the first
`imports` key directly inside the block. Inside the list only square brackets are counted.
-/

namespace Extraction.Balanced

open Byte

/-- A marker, white space and an opening brace: the offset of the brace. -/
def opening? (view : CodeView) : Option Nat :=
  if (marker.map some).isPrefixOf view then
    let width := marker.length + CodeView.blankWidth (view.drop marker.length)
    if view[width]? == some (some openBrace) then some width else none
  else none

def separator? (byte : UInt8) (view : CodeView) : Option Nat :=
  let width := CodeView.blankWidth view
  if view[width]? == some (some byte) then some (width + 1) else none

/-- A key that no identifier byte touches, a colon and an opening bracket: the offset of the
bracket. `previous` is what stands before the key. -/
def listOpening? (previous : Option UInt8) (view : CodeView) : Option Nat :=
  let after := view.drop listKey.length
  if previous.any isIdent || !(listKey.map some).isPrefixOf view ||
      after.head?.join.any isIdent then none
  else
    match separator? colon after with
    | some colonWidth =>
        (separator? openBracket (after.drop colonWidth)).map
          (listKey.length + colonWidth + · - 1)
    | none => none

/-- Where the walk through a block stands: `depth` brackets inside the block, between a key and
its bracket, or `depth` square brackets inside the list. -/
inductive Walk
  | block (depth : Nat)
  | key (start bracket : Nat)
  | list (start bracket depth : Nat)
deriving DecidableEq, Repr

/-- Walks to the brace that closes the block: its offset, and the list found on the way. -/
def close? (walk : Walk) (list : Option ListProperty) (previous : Option UInt8) (offset : Nat) :
    CodeView → Option (Nat × Option ListProperty)
  | [] => none
  | none :: rest => close? walk list none (offset + 1) rest
  | some b :: rest =>
      let continueAs (walk : Walk) (list : Option ListProperty) :=
        close? walk list (some b) (offset + 1) rest
      match walk with
      | .block depth =>
          if isOpener b then continueAs (.block (depth + 1)) list
          else if isCloser b then
            match depth with
            | 0 => if b == closeBrace then some (offset, list) else none
            | depth + 1 => continueAs (.block depth) list
          else if depth == 0 && list.isNone then
            match listOpening? previous (some b :: rest) with
            | some width => continueAs (.key offset (offset + width)) list
            | none => continueAs walk list
          else continueAs walk list
      | .key start bracket =>
          if offset == bracket then continueAs (.list start bracket 0) list
          else continueAs walk list
      | .list start bracket depth =>
          if b == openBracket then continueAs (.list start bracket (depth + 1)) list
          else if b == closeBracket then
            match depth with
            | 0 => continueAs (.block 0) (some ⟨start, offset + 1, ⟨bracket + 1, offset⟩⟩)
            | depth + 1 => continueAs (.list start bracket depth) list
          else continueAs walk list

def scanView (view : CodeView) : Option Declaration :=
  match firstMatch? opening? view with
  | none => none
  | some (start, width) =>
      let brace := start + width
      match close? (.block 0) none (some openBrace) (brace + 1) (view.drop (brace + 1)) with
      | none => none
      | some (close, list) =>
          let stop := close + 1 + (separator? closeParen (view.drop (close + 1))).getD 0
          some { block := ⟨start, stop, brace, close⟩, list }

def scan (text : Bytes) : Option Declaration :=
  scanView (codeView text)

end Extraction.Balanced
