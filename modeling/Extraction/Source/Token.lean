import Extraction.Source.Mode
/-!
A source text as a sequence of tokens: each byte of code alone, each string literal and each
comment whole. The texts of the tokens make up the source text.
-/

namespace Extraction

inductive Token
  | code (byte : UInt8)
  | literal (text : Bytes)
  | lineComment (text : Bytes)
  | blockComment (text : Bytes)
deriving DecidableEq, Repr

namespace Token

def text : Token → Bytes
  | .code b => [b]
  | .literal text => text
  | .lineComment text => text
  | .blockComment text => text

def width (token : Token) : Nat :=
  token.text.length

end Token

/-- The bytes that complete the token being read, and the tokens after it. -/
def Mode.tokens : Mode → Bytes → Bytes × List Token
  | _, [] => ([], [])
  | mode, b :: rest =>
      let after := mode.step b rest.head?
      let (more, tokens) := after.tokens rest
      match mode, after with
      | .code, .code => ([], .code b :: tokens)
      | .lineComment, .code => ([], .code b :: tokens)
      | .code, .literal _ => ([], .literal (b :: more) :: tokens)
      | .code, .lineComment => ([], .lineComment (b :: more) :: tokens)
      | .code, _ => ([], .blockComment (b :: more) :: tokens)
      | _, _ => (b :: more, tokens)

def tokens (text : Bytes) : List Token :=
  (Mode.code.tokens text).2

end Extraction
