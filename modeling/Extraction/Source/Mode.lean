import Extraction.Text.Byte
import Extraction.Text.Bytes
/-!
What each byte of a source text is: code, or part of a string literal or a comment. A string is
quoted by an apostrophe, a double quote or a backtick, and a backslash in it takes the next byte
along; a line comment ends before its line feed; a literal or a comment that is not closed
reaches to the end of the text. `codeView` keeps the code and hides the rest.
-/

namespace Extraction

open Byte

/-- Where a reader of a source text stands between two bytes. -/
inductive Mode
  | code
  | literal (quote : UInt8)
  | escape (quote : UInt8)
  | lineComment
  | blockOpen
  | blockComment
  | blockStar
deriving DecidableEq, Repr

namespace Mode

def step (mode : Mode) (b : UInt8) (next : Option UInt8) : Mode :=
  match mode with
  | .code =>
      if isQuote b then .literal b
      else if b == slash then
        if next == some slash then .lineComment
        else if next == some star then .blockOpen
        else .code
      else .code
  | .literal quote =>
      if b == backslash then .escape quote
      else if b == quote then .code
      else .literal quote
  | .escape quote => .literal quote
  | .lineComment => if b == lineFeed then .code else .lineComment
  | .blockOpen => .blockComment
  | .blockComment => if b == star then .blockStar else .blockComment
  | .blockStar =>
      if b == slash then .code
      else if b == star then .blockStar
      else .blockComment

/-- Whether a byte is code: neither part of a literal nor of a comment. -/
def readsCode (mode : Mode) (b : UInt8) (next : Option UInt8) : Bool :=
  match mode with
  | .code | .lineComment => mode.step b next == .code
  | _ => false

end Mode

/-- A source text seen as code: `none` stands for a byte of a literal or of a comment. -/
abbrev CodeView := List (Option UInt8)

def Mode.view : Mode → Bytes → CodeView
  | _, [] => []
  | mode, b :: rest =>
      (if mode.readsCode b rest.head? then some b else none) ::
        (mode.step b rest.head?).view rest

def codeView (text : Bytes) : CodeView :=
  Mode.code.view text

@[simp] theorem Mode.length_view (mode : Mode) (text : Bytes) :
    (mode.view text).length = text.length := by
  induction text generalizing mode with
  | nil => rfl
  | cons b rest ih => simp [Mode.view, ih]

@[simp] theorem length_codeView (text : Bytes) : (codeView text).length = text.length :=
  Mode.length_view .code text

namespace CodeView

def blankWidth (view : CodeView) : Nat :=
  (view.takeWhile fun code => code.any isAsciiBlank).length

end CodeView

end Extraction
