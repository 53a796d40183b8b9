import Extraction.Error
/-!
A selected range of a buffer, and the edit that replaces a range.
-/

namespace Extraction

structure Selection where
  text : Bytes
  span : Span
deriving DecidableEq, Repr

namespace Selection

def ofBuffer (buffer : Bytes) (span : Span) : Except ExtractError Selection :=
  match buffer.slice? span with
  | some text => .ok ⟨text, span⟩
  | none => .error (.invalidSelection span buffer.length)

/-- Confirms that the selection still describes the buffer. -/
def checkAgainst (selection : Selection) (buffer : Bytes) : Except ExtractError Unit :=
  if buffer.slice? selection.span = some selection.text then .ok ()
  else .error (.invalidSelection selection.span buffer.length)

/-- Demands a selection that is there, has a text and describes the buffer. -/
def validate (buffer : Bytes) : Option Selection → Except ExtractError Selection
  | none => .error .noSelection
  | some selection =>
      if selection.text.isEmpty then .error .noSelection
      else
        match selection.checkAgainst buffer with
        | .ok () => .ok selection
        | .error err => .error err

end Selection

structure TextEdit where
  span : Span
  replacement : Bytes
deriving DecidableEq, Repr

def checkedSub? (a b : Nat) : Option Nat :=
  if b ≤ a then some (a - b) else none

namespace TextEdit

def apply (edit : TextEdit) (text : Bytes) : Bytes :=
  text.splice edit.span edit.replacement

/-- The text after the edit, if that can be done: the width of the new text is reckoned first,
then the text around the range is cut out. -/
def applied? (edit : TextEdit) (text : Bytes) : Option Bytes := do
  let width ← checkedSub? edit.span.stop edit.span.start
  let _ ← checkedSub? text.length width
  let before ← text.slice? ⟨0, edit.span.start⟩
  let after ← text.slice? ⟨edit.span.stop, text.length⟩
  return before ++ edit.replacement ++ after

end TextEdit

end Extraction
