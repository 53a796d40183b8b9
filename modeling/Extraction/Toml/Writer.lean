/-!
Writing a TOML string in the plainest form that can hold it.
-/

namespace Extraction.TomlText

def isControl (c : Char) : Bool :=
  (c.toNat < 0x20 && c != '\t' && c != '\n') || c == '\x7F'

def longestRun (c : Char) (cs : List Char) : Nat :=
  (cs.foldl
    (fun (run, longest) d => if d == c then (run + 1, max longest (run + 1)) else (0, longest))
    (0, 0)).2

def hexDigits (n : Nat) : List Char :=
  let digits := (Nat.toDigits 16 n).map Char.toUpper
  List.replicate (4 - digits.length) '0' ++ digits

def escapeChar (c : Char) : List Char :=
  if c == '\x08' then ['\\', 'b']
  else if c == '\t' then ['\\', 't']
  else if c == '\n' then ['\\', 'n']
  else if c == '\x0C' then ['\\', 'f']
  else if c == '\r' then ['\\', 'r']
  else if c == '\\' then ['\\', '\\']
  else if c.toNat < 0x20 || c == '\x7F' then '\\' :: 'u' :: hexDigits c.toNat
  else [c]

/-- Escapes a text for double quotes. A run of more than `quotes` double quotes is broken by
escapes, `run` of them having been written; over several lines a line feed stands for itself. -/
def escapeFrom (lines : Bool) (quotes run : Nat) : List Char → List Char
  | [] => []
  | c :: rest =>
      if c == '"' then
        if run < quotes then '"' :: escapeFrom lines quotes (run + 1) rest
        else '\\' :: '"' :: escapeFrom lines quotes 0 rest
      else if lines && c == '\n' then '\n' :: escapeFrom lines quotes 0 rest
      else escapeChar c ++ escapeFrom lines quotes 0 rest

/-- The written forms of a string. -/
inductive Style
  | basic
  | literal
  | basicLines
  | literalLines
deriving DecidableEq, Repr

def style (cs : List Char) : Style :=
  let control := cs.any isControl
  let escape := cs.contains '\\'
  let newline := cs.contains '\n'
  if !control && !escape && longestRun '"' cs == 0 && !newline then .basic
  else if !control && longestRun '\'' cs == 0 && !newline then .literal
  else if !control && !escape && longestRun '"' cs ≤ 2 then .basicLines
  else if !control && longestRun '\'' cs ≤ 2 then .literalLines
  else if newline then .basicLines
  else .basic

/-- The line break that a text over several lines starts with, which does not count. -/
def leadingBreak (cs : List Char) : List Char :=
  if cs.contains '\n' then ['\n'] else []

def writeIn (style : Style) (cs : List Char) : List Char :=
  match style with
  | .basic => '"' :: escapeFrom false 0 0 cs ++ ['"']
  | .literal => '\'' :: cs ++ ['\'']
  | .basicLines =>
      List.replicate 3 '"' ++ leadingBreak cs ++ escapeFrom true 2 0 cs ++ List.replicate 3 '"'
  | .literalLines =>
      List.replicate 3 '\'' ++ leadingBreak cs ++ cs ++ List.replicate 3 '\''

def write (s : String) : String :=
  String.ofList (writeIn (style s.toList) s.toList)

end Extraction.TomlText
