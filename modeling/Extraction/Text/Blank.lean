import Extraction.Text.Bytes
/-!
White space in the sense of the Unicode property White_Space, and trimming it off strings and off
texts. A word that names a choice is compared without it and with ASCII letters lowered.
-/

namespace Extraction

def whiteSpace : List Char :=
  ['\u0009', '\u000A', '\u000B', '\u000C', '\u000D', '\u0020', '\u0085', '\u00A0', '\u1680',
    '\u2000', '\u2001', '\u2002', '\u2003', '\u2004', '\u2005', '\u2006', '\u2007', '\u2008',
    '\u2009', '\u200A', '\u2028', '\u2029', '\u202F', '\u205F', '\u3000']

def isWhiteSpace (c : Char) : Bool :=
  whiteSpace.contains c

def trimChars (cs : List Char) : List Char :=
  ((cs.dropWhile isWhiteSpace).reverse.dropWhile isWhiteSpace).reverse

def trimmed (s : String) : String :=
  String.ofList (trimChars s.toList)

def lowerAscii (c : Char) : Char :=
  if 'A' ≤ c ∧ c ≤ 'Z' then Char.ofNat (c.toNat + 32) else c

/-- A word as it is compared with the names of choices. -/
def normalWord (s : String) : String :=
  String.ofList ((trimChars s.toList).map lowerAscii)

namespace Bytes

/-- The encodings of the white space characters: one to three bytes each. -/
def whiteSpaceWords : List Bytes :=
  whiteSpace.map String.utf8EncodeChar

/-- Drops words of up to three bytes from the front of a text while there is one. -/
def dropWords (isWord : Bytes → Bool) : Bytes → Bytes
  | [] => []
  | a :: rest =>
      if isWord [a] then dropWords isWord rest
      else
        match rest with
        | [] => [a]
        | b :: rest =>
            if isWord [a, b] then dropWords isWord rest
            else
              match rest with
              | [] => [a, b]
              | c :: rest =>
                  if isWord [a, b, c] then dropWords isWord rest
                  else a :: b :: c :: rest

def trimStart (text : Bytes) : Bytes :=
  dropWords whiteSpaceWords.contains text

def trimEnd (text : Bytes) : Bytes :=
  (dropWords (fun word => whiteSpaceWords.contains word.reverse) text.reverse).reverse

def trim (text : Bytes) : Bytes :=
  trimEnd (trimStart text)

def blankWidth (text : Bytes) : Nat :=
  text.length - (trimStart text).length

end Bytes

end Extraction
