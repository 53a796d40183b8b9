/-!
The ASCII bytes that delimit source texts, and the classes of bytes that a scan tells apart.
-/

namespace Extraction

namespace Byte

def tab : UInt8 := 0x09
def lineFeed : UInt8 := 0x0A
def formFeed : UInt8 := 0x0C
def carriageReturn : UInt8 := 0x0D
def space : UInt8 := 0x20
def doubleQuote : UInt8 := 0x22
def apostrophe : UInt8 := 0x27
def openParen : UInt8 := 0x28
def closeParen : UInt8 := 0x29
def star : UInt8 := 0x2A
def comma : UInt8 := 0x2C
def slash : UInt8 := 0x2F
def colon : UInt8 := 0x3A
def openBracket : UInt8 := 0x5B
def backslash : UInt8 := 0x5C
def closeBracket : UInt8 := 0x5D
def backtick : UInt8 := 0x60
def openBrace : UInt8 := 0x7B
def closeBrace : UInt8 := 0x7D

def isQuote (b : UInt8) : Bool :=
  b == apostrophe || b == doubleQuote || b == backtick

def isOpener (b : UInt8) : Bool :=
  b == openParen || b == openBracket || b == openBrace

def isCloser (b : UInt8) : Bool :=
  b == closeParen || b == closeBracket || b == closeBrace

def isIdent (b : UInt8) : Bool :=
  (0x30 ≤ b && b ≤ 0x39) || (0x41 ≤ b && b ≤ 0x5A) || (0x61 ≤ b && b ≤ 0x7A) ||
    b == 0x5F || b == 0x24

def isAsciiBlank (b : UInt8) : Bool :=
  b == space || b == tab || b == lineFeed || b == formFeed || b == carriageReturn

end Byte

end Extraction
