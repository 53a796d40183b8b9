/-!
Text as the bytes of its UTF-8 encoding. Every offset of this library counts bytes, so text that
is cut or searched is a list of bytes; names, paths and messages stay strings and enter a text
through `utf8`.
-/

namespace Extraction

/-- Text, as the bytes of its UTF-8 encoding. -/
abbrev Bytes := List UInt8

def utf8 (s : String) : Bytes :=
  s.toList.flatMap String.utf8EncodeChar

@[simp] theorem utf8_append (s t : String) : utf8 (s ++ t) = utf8 s ++ utf8 t := by
  simp [utf8]

@[simp] theorem utf8_empty : utf8 "" = [] := rfl

structure Span where
  start : Nat
  stop : Nat
deriving DecidableEq, Repr

namespace Bytes

def decode? (text : Bytes) : Option String :=
  String.fromUTF8? ⟨text.toArray⟩

def isContinuation (b : UInt8) : Bool :=
  0x80 ≤ b && b < 0xC0

/-- An offset at which a character starts, or the end of the text. -/
def isBoundary (text : Bytes) (offset : Nat) : Bool :=
  match text[offset]? with
  | some b => offset == 0 || !isContinuation b
  | none => offset == text.length

theorem isBoundary_zero (text : Bytes) : isBoundary text 0 = true := by
  cases text <;> rfl

theorem isBoundary_length (text : Bytes) : isBoundary text text.length = true := by
  simp [isBoundary]

theorem le_length_of_isBoundary {text : Bytes} {offset : Nat}
    (h : isBoundary text offset = true) : offset ≤ text.length := by
  unfold isBoundary at h
  split at h
  · next heq => exact Nat.le_of_lt (List.getElem?_eq_some_iff.mp heq).1
  · simpa using Nat.le_of_eq (by simpa using h)

def slice (text : Bytes) (span : Span) : Bytes :=
  (text.drop span.start).take (span.stop - span.start)

def splice (text : Bytes) (span : Span) (replacement : Bytes) : Bytes :=
  text.take span.start ++ replacement ++ text.drop span.stop

end Bytes

/-- A range that can be cut out of a text: it is not reversed, lies inside the text and splits
no character. -/
def Span.fits (span : Span) (text : Bytes) : Bool :=
  decide (span.start ≤ span.stop) && text.isBoundary span.start && text.isBoundary span.stop

namespace Bytes

def slice? (text : Bytes) (span : Span) : Option Bytes :=
  if span.fits text then some (text.slice span) else none

def indexOf? (needle : Bytes) : Bytes → Option Nat
  | [] => if needle.isEmpty then some 0 else none
  | b :: rest =>
      if needle.isPrefixOf (b :: rest) then some 0
      else (indexOf? needle rest).map (· + 1)

def contains (text needle : Bytes) : Bool :=
  (indexOf? needle text).isSome

def splitOn (separator : UInt8) : Bytes → List Bytes
  | [] => [[]]
  | b :: rest =>
      if b == separator then [] :: splitOn separator rest
      else
        match splitOn separator rest with
        | [] => [[b]]
        | piece :: pieces => (b :: piece) :: pieces

end Bytes

/-- The least offset at which a pattern matches, with what it matched. -/
def firstMatch? (pattern : List α → Option β) : List α → Option (Nat × β)
  | [] => (pattern []).map ((0, ·))
  | a :: rest =>
      match pattern (a :: rest) with
      | some found => some (0, found)
      | none => (firstMatch? pattern rest).map fun (offset, found) => (offset + 1, found)

end Extraction
