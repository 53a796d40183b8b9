/-!
The four written forms of a TOML string: quoted by double quotes with escapes or by apostrophes
without, each on one line or over several. Over several lines a line break right after the opening
quotes does not count, and every line break reads as a line feed.
-/

namespace Extraction.TomlText

def isPlain (c : Char) : Bool :=
  c == '\t' || (0x20 ≤ c.toNat && c != '\x7F')

/-- The character that hexadecimal digits write, unless it is a surrogate or out of range. -/
def scalar? (digits : List Char) : Option Char :=
  if digits.all (fun c => c.isDigit || ('a' ≤ c && c ≤ 'f') || ('A' ≤ c && c ≤ 'F')) then
    let code := digits.foldl (fun n c => n * 16 + value c) 0
    if code < 0xD800 ∨ (0xE000 ≤ code ∧ code < 0x110000) then some (Char.ofNat code) else none
  else none
where
  value (c : Char) : Nat :=
    if c.isDigit then c.toNat - 48
    else if 'a' ≤ c then c.toNat - 87
    else c.toNat - 55

def shortEscape? : Char → Option Char
  | 'b' => some '\x08'
  | 't' => some '\t'
  | 'n' => some '\n'
  | 'f' => some '\x0C'
  | 'r' => some '\r'
  | '"' => some '"'
  | '\\' => some '\\'
  | _ => none

def basic? : List Char → Option (List Char × List Char)
  | [] => none
  | '"' :: rest => some ([], rest)
  | '\\' :: 'u' :: a :: b :: c :: d :: rest =>
      match scalar? [a, b, c, d], basic? rest with
      | some c, some (text, rest) => some (c :: text, rest)
      | _, _ => none
  | '\\' :: 'U' :: a :: b :: c :: d :: e :: f :: g :: h :: rest =>
      match scalar? [a, b, c, d, e, f, g, h], basic? rest with
      | some c, some (text, rest) => some (c :: text, rest)
      | _, _ => none
  | '\\' :: e :: rest =>
      match shortEscape? e, basic? rest with
      | some c, some (text, rest) => some (c :: text, rest)
      | _, _ => none
  | c :: rest =>
      if isPlain c && c != '\\' then (basic? rest).map fun (text, rest) => (c :: text, rest)
      else none

def literal? : List Char → Option (List Char × List Char)
  | [] => none
  | '\'' :: rest => some ([], rest)
  | c :: rest =>
      if isPlain c then (literal? rest).map fun (text, rest) => (c :: text, rest) else none

def endsLine (cs : List Char) : Bool :=
  match cs.dropWhile fun c => c == ' ' || c == '\t' with
  | '\n' :: _ => true
  | '\r' :: '\n' :: _ => true
  | _ => false

/-- Reads up to three closing double quotes; up to two more before them belong to the text.
`skipping` is on after a backslash at the end of a line, and ends at the next character that is
neither blank nor a line break. -/
def basicLines? (skipping : Bool) : List Char → Option (List Char × List Char)
  | [] => none
  | '"' :: '"' :: '"' :: '"' :: '"' :: rest => some (['"', '"'], rest)
  | '"' :: '"' :: '"' :: '"' :: rest => some (['"'], rest)
  | '"' :: '"' :: '"' :: rest => some ([], rest)
  | '\r' :: '\n' :: rest =>
      if skipping then basicLines? true rest
      else (basicLines? false rest).map fun (text, rest) => ('\n' :: text, rest)
  | '\\' :: 'u' :: a :: b :: c :: d :: rest =>
      match scalar? [a, b, c, d], basicLines? false rest with
      | some c, some (text, rest) => some (c :: text, rest)
      | _, _ => none
  | '\\' :: 'U' :: a :: b :: c :: d :: e :: f :: g :: h :: rest =>
      match scalar? [a, b, c, d, e, f, g, h], basicLines? false rest with
      | some c, some (text, rest) => some (c :: text, rest)
      | _, _ => none
  | '\\' :: e :: rest =>
      match shortEscape? e with
      | some c => (basicLines? false rest).map fun (text, rest) => (c :: text, rest)
      | none => if endsLine (e :: rest) then basicLines? true (e :: rest) else none
  | c :: rest =>
      if skipping && (c == ' ' || c == '\t' || c == '\n') then basicLines? true rest
      else if (isPlain c || c == '\n') && c != '\\' then
        (basicLines? false rest).map fun (text, rest) => (c :: text, rest)
      else none

/-- Reads up to three closing apostrophes; up to two more before them belong to the text. -/
def literalLines? : List Char → Option (List Char × List Char)
  | [] => none
  | '\'' :: '\'' :: '\'' :: '\'' :: '\'' :: rest => some (['\'', '\''], rest)
  | '\'' :: '\'' :: '\'' :: '\'' :: rest => some (['\''], rest)
  | '\'' :: '\'' :: '\'' :: rest => some ([], rest)
  | '\r' :: '\n' :: rest => (literalLines? rest).map fun (text, rest) => ('\n' :: text, rest)
  | c :: rest =>
      if isPlain c || c == '\n' then
        (literalLines? rest).map fun (text, rest) => (c :: text, rest)
      else none

def dropLineBreak : List Char → List Char
  | '\n' :: rest => rest
  | '\r' :: '\n' :: rest => rest
  | cs => cs

def string? : List Char → Option (List Char × List Char)
  | '"' :: '"' :: '"' :: rest => basicLines? false (dropLineBreak rest)
  | '"' :: rest => basic? rest
  | '\'' :: '\'' :: '\'' :: rest => literalLines? (dropLineBreak rest)
  | '\'' :: rest => literal? rest
  | _ => none

end Extraction.TomlText
