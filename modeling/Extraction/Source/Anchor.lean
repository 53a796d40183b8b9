import Extraction.Source.Block
import Extraction.Source.Token
/-!
Where a new property goes in the body of a block: a separating comma right after the last code,
and a new line after the comments that trail that code on its line.
-/

namespace Extraction

open Byte

/-- The byte that a token ends its code with: a literal counts as its quote, and white space and
comments are no code. -/
def Token.codeByte? : Token → Option UInt8
  | .code b => if isAsciiBlank b then none else some b
  | .literal text => text.head?
  | .lineComment _ => none
  | .blockComment _ => none

def lastCode? (offset : Nat) : List Token → Option (Nat × UInt8 × List Token)
  | [] => none
  | token :: rest =>
      match lastCode? (offset + token.width) rest with
      | some found => some found
      | none => token.codeByte?.map fun b => (offset + token.width, b, rest)

/-- The end of the comments that follow on the same line, or `lineEnd` if none does. The carriage
return of a line comment is left to the line break. -/
def trailingComments (offset lineEnd : Nat) : List Token → Nat
  | .code b :: rest =>
      if b == space || b == tab then trailingComments (offset + 1) lineEnd rest else lineEnd
  | .blockComment text :: rest =>
      trailingComments (offset + text.length) (offset + text.length) rest
  | .lineComment text :: _ =>
      if text.getLast? == some carriageReturn then offset + text.length - 1
      else offset + text.length
  | _ => lineEnd

structure Anchor where
  /-- The end of the last code. -/
  afterCode : Nat
  lastCodeByte : UInt8
  /-- The end of the comments that trail it on its line. -/
  lineEnd : Nat
deriving DecidableEq, Repr

def propertyAnchor (text : Bytes) (body : Span) : Option Anchor :=
  (lastCode? body.start (tokens (text.slice body))).map fun (afterCode, byte, rest) =>
    { afterCode
      lastCodeByte := byte
      lineEnd := trailingComments afterCode afterCode rest }

end Extraction
