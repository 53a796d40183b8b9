import Extraction.Toml.Value
/-!
The TOML values that are written without quotes or brackets: booleans, numbers, dates and times.
Each is read from the whole run of characters that could belong to it.
-/

namespace Extraction.TomlScalar

def digitValue? (c : Char) : Option Nat :=
  if '0' ≤ c ∧ c ≤ '9' then some (c.toNat - 48)
  else if 'a' ≤ c ∧ c ≤ 'f' then some (c.toNat - 87)
  else if 'A' ≤ c ∧ c ≤ 'F' then some (c.toNat - 55)
  else none

def isDigit (base : Nat) (c : Char) : Bool :=
  (digitValue? c).any (· < base)

def toNumber (base : Nat) (cs : List Char) : Nat :=
  cs.foldl (fun n c => match digitValue? c with | some d => n * base + d | none => n) 0

def isGrouped (base : Nat) : List Char → Bool
  | [] => false
  | [c] => isDigit base c
  | c :: '_' :: rest => isDigit base c && isGrouped base rest
  | c :: rest => isDigit base c && isGrouped base rest

def isPlainDecimal (cs : List Char) : Bool :=
  isGrouped 10 cs && (cs.head? != some '0' || cs.length == 1)

def splitSign : List Char → Bool × List Char
  | '+' :: rest => (false, rest)
  | '-' :: rest => (true, rest)
  | cs => (false, cs)

/-- The signed numbers of at most 64 bits are those from minus this bound up to below it. -/
def integerBound : Nat := 9223372036854775808

def signed? (negative : Bool) (magnitude : Nat) : Option Int :=
  if negative then if magnitude ≤ integerBound then some (-(magnitude : Int)) else none
  else if magnitude < integerBound then some magnitude else none

def integer? (cs : List Char) : Option Int :=
  let based (base : Nat) (digits : List Char) : Option Int :=
    if isGrouped base digits then signed? false (toNumber base digits) else none
  match cs with
  | '0' :: 'x' :: digits => based 16 digits
  | '0' :: 'o' :: digits => based 8 digits
  | '0' :: 'b' :: digits => based 2 digits
  | _ =>
      let (negative, digits) := splitSign cs
      if isPlainDecimal digits then signed? negative (toNumber 10 digits) else none

/-- Whether `mantissa · 10 ^ exponent` is too large for a double: at least halfway from the
largest double to the power of two above it. -/
def overflows (mantissa : Nat) (exponent : Int) : Bool :=
  let threshold := Nat.pow 2 1024 - Nat.pow 2 970
  let magnitude := (Nat.toDigits 10 mantissa).length + exponent
  if mantissa = 0 ∨ magnitude < 300 then false
  else if 310 < magnitude then true
  else if 0 ≤ exponent then threshold ≤ mantissa * Nat.pow 10 exponent.toNat
  else threshold * Nat.pow 10 (-exponent).toNat ≤ mantissa

/-- Whether a run of characters is a float that does not overflow upwards. -/
def isFloat (cs : List Char) : Bool :=
  let (negative, body) := splitSign cs
  if body == ['i', 'n', 'f'] || body == ['n', 'a', 'n'] then true
  else
    let whole := body.takeWhile fun c => c != '.' && c != 'e' && c != 'E'
    let rest := body.drop whole.length
    let fraction :=
      if rest.head? == some '.' then
        (rest.drop 1).takeWhile fun c => c != 'e' && c != 'E'
      else []
    let hasFraction := rest.head? == some '.'
    let rest := if hasFraction then rest.drop (fraction.length + 1) else rest
    let hasExponent := !rest.isEmpty
    let (negativeExponent, exponent) := splitSign (rest.drop 1)
    let digits (cs : List Char) : Nat := (cs.filter (isDigit 10)).length
    let power : Int :=
      (if negativeExponent then -(toNumber 10 exponent : Int) else toNumber 10 exponent) -
        digits fraction
    isPlainDecimal whole && (hasFraction || hasExponent) &&
      (!hasFraction || isGrouped 10 fraction) && (!hasExponent || isGrouped 10 exponent) &&
      (negative || !overflows (toNumber 10 (whole ++ fraction)) power)

def isField (width low high : Nat) (cs : List Char) : Bool :=
  cs.length == width && cs.all (isDigit 10) && low ≤ toNumber 10 cs && toNumber 10 cs ≤ high

def daysInMonth (year month : Nat) : Nat :=
  if month = 2 then
    if year % 4 = 0 ∧ (year % 100 ≠ 0 ∨ year % 400 = 0) then 29 else 28
  else if month ∈ [4, 6, 9, 11] then 30
  else 31

def isDate (cs : List Char) : Bool :=
  let year := cs.take 4
  let month := (cs.drop 5).take 2
  let day := cs.drop 8
  cs[4]? == some '-' && cs[7]? == some '-' && isField 4 0 9999 year && isField 2 1 12 month &&
    isField 2 1 (daysInMonth (toNumber 10 year) (toNumber 10 month)) day

def isTime (cs : List Char) : Bool :=
  cs[2]? == some ':' && cs[5]? == some ':' && isField 2 0 23 (cs.take 2) &&
    isField 2 0 59 ((cs.drop 3).take 2) && isField 2 0 60 ((cs.drop 6).take 2) &&
    match cs.drop 8 with
    | [] => true
    | '.' :: fraction => !fraction.isEmpty && fraction.all (isDigit 10)
    | _ => false

def isOffset : List Char → Bool
  | ['Z'] | ['z'] => true
  | sign :: cs =>
      (sign == '+' || sign == '-') && cs.length == 5 && cs[2]? == some ':' &&
        isField 2 0 23 (cs.take 2) && isField 2 0 59 (cs.drop 3)
  | [] => false

def isZonedTime (cs : List Char) : Bool :=
  let time := cs.takeWhile fun c => c.isDigit || c == ':' || c == '.'
  isTime time && (time.length == cs.length || isOffset (cs.drop time.length))

def isDatetime (cs : List Char) : Bool :=
  isDate cs || isTime cs ||
    isDate (cs.take 10) && (cs[10]?.any fun c => c == 'T' || c == 't' || c == ' ') &&
      isZonedTime (cs.drop 11)

def parse? (cs : List Char) : Option TomlValue :=
  if cs == ['t', 'r', 'u', 'e'] then some (.boolean true)
  else if cs == ['f', 'a', 'l', 's', 'e'] then some (.boolean false)
  else
    match integer? cs with
    | some value => some (.integer value)
    | none =>
        if isFloat cs then some (.float (String.ofList cs))
        else if isDatetime cs then some (.datetime (String.ofList cs))
        else none

def isScalarChar (c : Char) : Bool :=
  c.isAlphanum || c == '+' || c == '-' || c == '_' || c == '.' || c == ':'

/-- The run of characters that a text starts with; a date goes on over one space if a digit
follows it. -/
def run (cs : List Char) : List Char :=
  let first := cs.takeWhile isScalarChar
  match cs.drop first.length with
  | ' ' :: c :: rest =>
      if isDate first && c.isDigit then first ++ ' ' :: (c :: rest).takeWhile isScalarChar
      else first
  | _ => first

end Extraction.TomlScalar
