import Extraction.Toml.Scalar
import Extraction.Toml.Text
/-!
Reading a TOML document: lines with a key and a value each, gathered under headers.
-/

namespace Extraction.TomlDocument

def isBlank (c : Char) : Bool :=
  c == ' ' || c == '\t'

def skipBlanks (cs : List Char) : List Char :=
  cs.dropWhile isBlank

def depthLimit : Nat := 80

def isBareKeyChar (c : Char) : Bool :=
  c.isAlphanum || c == '_' || c == '-'

def keyPart? (cs : List Char) : Option (String × List Char) :=
  match cs with
  | '"' :: rest => (TomlText.basic? rest).map fun (text, rest) => (String.ofList text, rest)
  | '\'' :: rest => (TomlText.literal? rest).map fun (text, rest) => (String.ofList text, rest)
  | _ =>
      let bare := cs.takeWhile isBareKeyChar
      if bare.isEmpty then none else some (String.ofList bare, cs.drop bare.length)

/-- The parts of a key with dots between them, and what follows the blanks after it. -/
def keyParts? : Nat → List Char → Option (List String × List Char)
  | 0, _ => none
  | fuel + 1, cs =>
      match keyPart? (skipBlanks cs) with
      | none => none
      | some (part, rest) =>
          match skipBlanks rest with
          | '.' :: rest => (keyParts? fuel rest).map fun (parts, rest) => (part :: parts, rest)
          | rest => some ([part], rest)

def key? (cs : List Char) : Option (List String × String × List Char) :=
  match keyParts? (depthLimit - 1) cs with
  | none => none
  | some (parts, rest) => parts.getLast?.map fun last => (parts.dropLast, last, rest)

def skipFill (inComment : Bool) : List Char → List Char
  | [] => []
  | '\n' :: rest => skipFill false rest
  | '\r' :: '\n' :: rest => skipFill false rest
  | c :: rest =>
      if inComment then if TomlText.isPlain c then skipFill true rest else c :: rest
      else if c == '#' then skipFill true rest
      else if isBlank c then skipFill false rest
      else c :: rest

def endLine? (cs : List Char) : Option (List Char) :=
  let rest :=
    match skipBlanks cs with
    | '#' :: comment => comment.dropWhile TomlText.isPlain
    | rest => rest
  match rest with
  | [] => some []
  | '\n' :: rest => some rest
  | '\r' :: '\n' :: rest => some rest
  | _ => none

mutual

def value? : Nat → Nat → List Char → Option (TomlValue × List Char)
  | 0, _, _ => none
  | fuel + 1, depth, cs =>
      match cs with
      | '[' :: rest =>
          if depth + 1 < depthLimit then
            (elements? fuel (depth + 1) rest).map fun (elements, rest) => (.array elements, rest)
          else none
      | '{' :: rest =>
          if depth + 1 < depthLimit then
            match skipBlanks rest with
            | '}' :: rest => some (.table .inline [], rest)
            | rest =>
                (pairs? fuel (depth + 1) [] rest).map fun (entries, rest) =>
                  (.table .inline entries, rest)
          else none
      | c :: _ =>
          if c == '"' || c == '\'' then
            (TomlText.string? cs).map fun (text, rest) => (.string (String.ofList text), rest)
          else
            let run := TomlScalar.run cs
            (TomlScalar.parse? run).map fun value => (value, cs.drop run.length)
      | [] => none

def elements? : Nat → Nat → List Char → Option (List TomlValue × List Char)
  | 0, _, _ => none
  | fuel + 1, depth, cs =>
      match skipFill false cs with
      | ']' :: rest => some ([], rest)
      | rest =>
          match value? fuel depth rest with
          | none => none
          | some (value, rest) =>
              match skipFill false rest with
              | ']' :: rest => some ([value], rest)
              | ',' :: rest =>
                  (elements? fuel depth rest).map fun (values, rest) => (value :: values, rest)
              | _ => none

def pairs? : Nat → Nat → TomlEntries → List Char → Option (TomlEntries × List Char)
  | 0, _, _, _ => none
  | fuel + 1, depth, entries, cs =>
      match key? cs with
      | some (path, name, '=' :: rest) =>
          match value? fuel depth (skipBlanks rest) with
          | none => none
          | some (value, rest) =>
              match entries.insert name value path true with
              | none => none
              | some entries =>
                  match skipBlanks rest with
                  | '}' :: rest => some (entries, rest)
                  | ',' :: rest => pairs? fuel depth entries rest
                  | _ => none
      | _ => none

end

/-- Where the table of the last header goes. -/
inductive Place
  | root
  | table (path : List String) (name : String)
  | element (path : List String) (name : String)

/-- A document as far as it is read: the finished tables, and the one being read. -/
structure State where
  root : TomlEntries := []
  place : Place := .root
  entries : TomlEntries := []

namespace State

def close (state : State) : Option TomlEntries :=
  match state.place with
  | .root => some state.entries
  | .table path name => state.root.closeTable path name state.entries
  | .element path name => state.root.closeElement path name state.entries

def openTable (state : State) (path : List String) (name : String) : Option State :=
  match state.close with
  | none => none
  | some root =>
      (root.openTable path name).map fun entries => ⟨root, .table path name, entries⟩

def openElement (state : State) (path : List String) (name : String) : Option State :=
  match state.close with
  | none => none
  | some root => (root.closeElement path name []).map fun _ => ⟨root, .element path name, []⟩

end State

/-- Reads the lines of a document. -/
def lines? : Nat → State → List Char → Option TomlEntries
  | 0, _, _ => none
  | fuel + 1, state, cs =>
      match skipBlanks cs with
      | [] => state.close
      | '[' :: '[' :: rest =>
          match key? rest with
          | some (path, name, ']' :: ']' :: rest) =>
              match state.openElement path name, endLine? rest with
              | some state, some rest => lines? fuel state rest
              | _, _ => none
          | _ => none
      | '[' :: rest =>
          match key? rest with
          | some (path, name, ']' :: rest) =>
              match state.openTable path name, endLine? rest with
              | some state, some rest => lines? fuel state rest
              | _, _ => none
          | _ => none
      | c :: rest =>
          if c == '#' || c == '\n' || c == '\r' then
            match endLine? (c :: rest) with
            | some rest => lines? fuel state rest
            | none => none
          else
            match key? (c :: rest) with
            | some (path, name, '=' :: rest) =>
                match value? (2 * rest.length + 2) 0 (skipBlanks rest) with
                | none => none
                | some (value, rest) =>
                    match state.entries.insert name value path true, endLine? rest with
                    | some entries, some rest => lines? fuel { state with entries } rest
                    | _, _ => none
            | _ => none

/-- The top-level entries of a document, which may start with a byte order mark. -/
def read? (cs : List Char) : Option TomlEntries :=
  let cs := if cs.head? == some '\uFEFF' then cs.drop 1 else cs
  lines? (cs.length + 1) {} cs

def parse? (document : String) : Option TomlEntries :=
  read? document.toList

end Extraction.TomlDocument
