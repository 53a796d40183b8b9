import Extraction.Selection
import Extraction.Text.Blank
import Extraction.Text.Byte
/-!
The two ways to name a selection on a command line: a range of bytes, or a range of lines counted
from one. The numbers in them are decimal numerals for 64-bit counts: an optional plus sign and
ASCII digits.
-/

namespace Extraction

inductive NumeralError
  | empty
  | invalidDigit
  | tooLarge
deriving DecidableEq, Repr

def NumeralError.message : NumeralError → String
  | .empty => "cannot parse integer from empty string"
  | .invalidDigit => "invalid digit found in string"
  | .tooLarge => "number too large to fit in target type"

/-- The counts are the numbers of at most 64 bits: those below this bound. -/
def countBound : Nat := 18446744073709551616

/-- Reads digits after those that make up `value`. The first fault counts: a character that is no
digit, or a digit that takes the number out of bounds. -/
def readDigits (value : Nat) : List Char → Except NumeralError Nat
  | [] => .ok value
  | c :: rest =>
      if '0' ≤ c ∧ c ≤ '9' then
        let value := value * 10 + (c.toNat - 48)
        if value < countBound then readDigits value rest else .error .tooLarge
      else .error .invalidDigit

def parseCount : List Char → Except NumeralError Nat
  | [] => .error .empty
  | ['+'] => .error .invalidDigit
  | '+' :: digits => readDigits 0 digits
  | digits => readDigits 0 digits

/-- A range of lines; both ends belong to it. -/
structure LineRange where
  first : Nat
  last : Nat
deriving DecidableEq, Repr

/-- Why an argument is no range. The texts are as they were written. -/
inductive RangeError
  | notAPair (value : String)
  | badStart (text : String) (cause : NumeralError)
  | badEnd (text : String) (cause : NumeralError)
  | reversed (start stop : Nat)
  | badLine (text : String) (cause : NumeralError)
  | badLines (first last : Nat)
deriving DecidableEq, Repr

def RangeError.message : RangeError → String
  | .notAPair value => "expected START:END, got '" ++ value ++ "'"
  | .badStart text cause => "invalid start offset '" ++ text ++ "': " ++ cause.message
  | .badEnd text cause => "invalid end offset '" ++ text ++ "': " ++ cause.message
  | .reversed start stop =>
      "end offset " ++ toString stop ++ " is before start offset " ++ toString start
  | .badLine text cause => "invalid line '" ++ text ++ "': " ++ cause.message
  | .badLines first last => "invalid line range " ++ toString first ++ "-" ++ toString last

def splitAtFirst (separator : Char) : List Char → Option (List Char × List Char)
  | [] => none
  | c :: rest =>
      if c == separator then some ([], rest)
      else (splitAtFirst separator rest).map fun (before, after) => (c :: before, after)

def parseTrimmedCount (cs : List Char) (fault : String → NumeralError → RangeError) :
    Except RangeError Nat :=
  match parseCount (trimChars cs) with
  | .ok value => .ok value
  | .error cause => .error (fault (String.ofList cs) cause)

/-- Reads a byte range: two offsets with a colon between them, the second not before the
first. -/
def parseByteRange (value : String) : Except RangeError Span :=
  match splitAtFirst ':' value.toList with
  | none => .error (.notAPair value)
  | some (before, after) =>
      match parseTrimmedCount before .badStart with
      | .error err => .error err
      | .ok start =>
          match parseTrimmedCount after .badEnd with
          | .error err => .error err
          | .ok stop => if stop < start then .error (.reversed start stop) else .ok ⟨start, stop⟩

def parseLineRange (value : String) : Except RangeError LineRange :=
  let (before, after) := (splitAtFirst '-' value.toList).getD (value.toList, value.toList)
  match parseTrimmedCount before .badLine with
  | .error err => .error err
  | .ok first =>
      match parseTrimmedCount after .badLine with
      | .error err => .error err
      | .ok last =>
          if first = 0 ∨ last < first then .error (.badLines first last) else .ok ⟨first, last⟩

namespace Bytes

def linesWithEnds : Bytes → List Bytes
  | [] => []
  | b :: rest =>
      if b == Byte.lineFeed then [b] :: linesWithEnds rest
      else
        match linesWithEnds rest with
        | [] => [[b]]
        | line :: lines => (b :: line) :: lines

def lineCount (text : Bytes) : Nat :=
  (linesWithEnds text).length

def contentLength (line : Bytes) : Nat :=
  (line.reverse.dropWhile fun b => b == Byte.lineFeed || b == Byte.carriageReturn).length

end Bytes

/-- Looks for the end of a line range in the lines from `number` on, which start at `offset`;
`start` is the start of the range once it is reached. -/
def lineSpanFrom (range : LineRange) (number offset : Nat) (start : Option Nat) :
    List Bytes → Option Span
  | [] => none
  | line :: lines =>
      let start := if number = range.first then some offset else start
      if number = range.last then
        start.map fun start => ⟨start, offset + line.contentLength⟩
      else lineSpanFrom range (number + 1) (offset + line.length) start lines

/-- The bytes of a range of lines, without the line break at the end. -/
def lineSpan (buffer : Bytes) (range : LineRange) : Option Span :=
  lineSpanFrom range 1 0 none (Bytes.linesWithEnds buffer)

end Extraction
