import Extraction.Text.Blank
import Extraction.Text.Byte
/-!
A template text as pieces: literal text, and the words between the delimiters of an expression or
of a tag. A hyphen at a delimiter takes the white space on its side away, comments vanish, and raw
sections are literal text.
-/

namespace Extraction

open Byte

inductive TemplateWord
  | ident (name : String)
  | literal (text : Bytes)
  | symbol (byte : UInt8)
deriving DecidableEq, Repr

inductive TemplatePiece
  | text (text : Bytes)
  | output (words : List TemplateWord)
  | tag (words : List TemplateWord)
deriving DecidableEq, Repr

namespace TemplateText

def hyphen : UInt8 := 0x2D
def percent : UInt8 := 0x25
def hash : UInt8 := 0x23

def asciiString (word : Bytes) : String :=
  String.ofList (word.map fun b => Char.ofNat b.toNat)

def isNameStart (b : UInt8) : Bool :=
  (0x41 ≤ b && b ≤ 0x5A) || (0x61 ≤ b && b ≤ 0x7A) || b == 0x5F

def isNameByte (b : UInt8) : Bool :=
  isNameStart b || (0x30 ≤ b && b ≤ 0x39)

def quoted? (quote : UInt8) : Bytes → Option (Bytes × Bytes)
  | [] => none
  | b :: rest =>
      if b == quote then some ([], rest)
      else if b == backslash then
        match rest with
        | [] => none
        | c :: rest => (quoted? quote rest).map fun (text, rest) => (b :: c :: text, rest)
      else (quoted? quote rest).map fun (text, rest) => (b :: text, rest)

def hexDigit? (b : UInt8) : Option Nat :=
  if 0x30 ≤ b && b ≤ 0x39 then some (b.toNat - 0x30)
  else if 0x41 ≤ b && b ≤ 0x46 then some (b.toNat - 0x37)
  else if 0x61 ≤ b && b ≤ 0x66 then some (b.toNat - 0x57)
  else none

def hexUnit? (a b c d : UInt8) : Option Nat := do
  return (((← hexDigit? a) * 16 + (← hexDigit? b)) * 16 + (← hexDigit? c)) * 16 + (← hexDigit? d)

def escapedByte? (b : UInt8) : Option UInt8 :=
  if b == doubleQuote || b == backslash || b == slash || b == apostrophe then some b
  else if b == 0x62 then some 0x08
  else if b == 0x66 then some formFeed
  else if b == 0x6E then some lineFeed
  else if b == 0x72 then some carriageReturn
  else if b == 0x74 then some tab
  else none

/-- The text that a literal stands for. A `\u` escape gives a 16-bit unit, and a high unit needs
the low one that completes its character. -/
def unescape? (high : Option Nat) : Bytes → Option Bytes
  | [] => if high.isNone then some [] else none
  | b :: rest =>
      if b != backslash then
        if high.isNone then (unescape? none rest).map (b :: ·) else none
      else
        match rest with
        | 0x75 :: d₁ :: d₂ :: d₃ :: d₄ :: rest =>
            match hexUnit? d₁ d₂ d₃ d₄, high with
            | none, _ => none
            | some unit, none =>
                if 0xD800 ≤ unit && unit < 0xDC00 then unescape? (some unit) rest
                else if 0xDC00 ≤ unit && unit < 0xE000 then none
                else (unescape? none rest).map (String.utf8EncodeChar (Char.ofNat unit) ++ ·)
            | some unit, some high =>
                if 0xDC00 ≤ unit && unit < 0xE000 then
                  let code := 0x10000 + (high - 0xD800) * 0x400 + (unit - 0xDC00)
                  (unescape? none rest).map (String.utf8EncodeChar (Char.ofNat code) ++ ·)
                else none
        | c :: rest =>
            match escapedByte? c, high with
            | some b, none => (unescape? none rest).map (b :: ·)
            | _, _ => none
        | [] => none

/-- The words up to a closing delimiter, whether a hyphen stands before it, and the text after
it. -/
def words? (close : Bytes) : Nat → Bytes → Option (List TemplateWord × Bool × Bytes)
  | 0, _ => none
  | _ + 1, [] => none
  | fuel + 1, b :: rest =>
      if isAsciiBlank b then words? close fuel rest
      else if (hyphen :: close).isPrefixOf (b :: rest) then
        some ([], true, rest.drop close.length)
      else if close.isPrefixOf (b :: rest) then some ([], false, rest.drop (close.length - 1))
      else if b == apostrophe || b == doubleQuote then
        match quoted? b rest with
        | none => none
        | some (raw, rest) =>
            match unescape? none raw, words? close fuel rest with
            | some text, some (words, after) => some (.literal text :: words, after)
            | _, _ => none
      else if isNameStart b then
        (words? close fuel (rest.dropWhile isNameByte)).map fun (words, after) =>
          (.ident (asciiString (b :: rest.takeWhile isNameByte)) :: words, after)
      else
        (words? close fuel rest).map fun (words, after) => (.symbol b :: words, after)

def bareTag? (word : Bytes) (text : Bytes) : Option (Bool × Bytes) :=
  let text := if text.head? == some hyphen then text.drop 1 else text
  let text := text.dropWhile isAsciiBlank
  if word.isPrefixOf text then
    let text := (text.drop word.length).dropWhile isAsciiBlank
    let closesTight := text.head? == some hyphen
    let text := if closesTight then text.drop 1 else text
    if [percent, closeBrace].isPrefixOf text then some (closesTight, text.drop 2) else none
  else none

/-- The end of a raw section: whether white space before and after it goes, and the text after
it. -/
def rawEnd? (text : Bytes) : Option (Bool × Bool × Bytes) :=
  if [openBrace, percent].isPrefixOf text then
    (bareTag? (utf8 "endraw") (text.drop 2)).map fun (trimAfter, rest) =>
      ((text.drop 2).head? == some hyphen, trimAfter, rest)
  else none

def opening? : Bytes → Option Bool
  | a :: b :: rest =>
      if a == openBrace && (b == openBrace || b == percent || b == hash) then
        some (rest.head? == some hyphen)
      else none
  | _ => none

/-- The pieces of a template text; `trim` tells that the white space in front of the next literal
text goes. `none` if a delimiter or a section is not closed. -/
def read? : Nat → Bool → Bytes → Option (List TemplatePiece)
  | _, _, [] => some []
  | 0, _, _ => none
  | fuel + 1, trim, text =>
      let inside := if (text.drop 2).head? == some hyphen then text.drop 3 else text.drop 2
      if [openBrace, openBrace].isPrefixOf text then
        match words? [closeBrace, closeBrace] (inside.length + 1) inside with
        | none => none
        | some (words, tight, rest) => (read? fuel (trim || tight) rest).map (.output words :: ·)
      else if [openBrace, percent].isPrefixOf text then
        match bareTag? (utf8 "raw") (text.drop 2) with
        | some (trimRaw, body) =>
            match firstMatch? rawEnd? body with
            | none => none
            | some (width, trimEnd, trimAfter, rest) =>
                let raw := body.take width
                let raw := if trimRaw then Bytes.trimStart raw else raw
                let raw := if trimEnd then Bytes.trimEnd raw else raw
                (read? fuel trimAfter rest).map (.text raw :: ·)
        | none =>
            match words? [percent, closeBrace] (inside.length + 1) inside with
            | none => none
            | some (words, tight, rest) => (read? fuel (trim || tight) rest).map (.tag words :: ·)
      else if [openBrace, hash].isPrefixOf text then
        match Bytes.indexOf? [hash, closeBrace] text with
        | none => none
        | some close =>
            read? fuel (trim || text[close - 1]? == some hyphen) (text.drop (close + 2))
      else
        let text := if trim then Bytes.trimStart text else text
        match firstMatch? opening? text with
        | none => some (if text.isEmpty then [] else [.text text])
        | some (width, tight) =>
            let lead := if tight then Bytes.trimEnd (text.take width) else text.take width
            (read? fuel false (text.drop width)).map fun pieces =>
              if lead.isEmpty then pieces else .text lead :: pieces

end TemplateText

end Extraction
