import Extraction.Text.Bytes
import Extraction.Text.Byte
/-!
JSON values and their text, one member to a line and two spaces deeper inside each bracket.
-/

namespace Extraction

inductive Json
  | null
  | boolean (value : Bool)
  | number (value : Nat)
  | text (value : Bytes)
  | array (elements : List Json)
  | object (fields : List (String × Json))

namespace Json

open Byte

def hexDigit (n : Nat) : UInt8 :=
  UInt8.ofNat (if n < 10 then 0x30 + n else 0x57 + n)

def escapeByte (b : UInt8) : Bytes :=
  if b == doubleQuote then [backslash, doubleQuote]
  else if b == backslash then [backslash, backslash]
  else if b == 0x08 then [backslash, 0x62]
  else if b == formFeed then [backslash, 0x66]
  else if b == lineFeed then [backslash, 0x6E]
  else if b == carriageReturn then [backslash, 0x72]
  else if b == tab then [backslash, 0x74]
  else if b < 0x20 then
    [backslash, 0x75, 0x30, 0x30, hexDigit (b.toNat / 16), hexDigit (b.toNat % 16)]
  else [b]

def quote (text : Bytes) : Bytes :=
  doubleQuote :: text.flatMap escapeByte ++ [doubleQuote]

def newLine (depth : Nat) : Bytes :=
  lineFeed :: List.replicate (2 * depth) space

mutual

/-- The text of a value whose first line is indented `depth` times. -/
def render (depth : Nat) : Json → Bytes
  | .null => utf8 "null"
  | .boolean value => utf8 (if value then "true" else "false")
  | .number value => utf8 (toString value)
  | .text value => quote value
  | .array [] => utf8 "[]"
  | .array (element :: elements) =>
      openBracket :: newLine (depth + 1) ++ element.render (depth + 1) ++
        renderElements (depth + 1) elements ++ newLine depth ++ [closeBracket]
  | .object [] => utf8 "\x7b\x7d"
  | .object ((key, value) :: fields) =>
      openBrace :: newLine (depth + 1) ++ quote (utf8 key) ++ utf8 ": " ++
        value.render (depth + 1) ++ renderFields (depth + 1) fields ++ newLine depth ++
        [closeBrace]

def renderElements (depth : Nat) : List Json → Bytes
  | [] => []
  | element :: elements =>
      comma :: newLine depth ++ element.render depth ++ renderElements depth elements

def renderFields (depth : Nat) : List (String × Json) → Bytes
  | [] => []
  | (key, value) :: fields =>
      comma :: newLine depth ++ quote (utf8 key) ++ utf8 ": " ++ value.render depth ++
        renderFields depth fields

end

end Json

end Extraction
