/-!
Paths as strings with `/` between their pieces. Empty pieces and `.` pieces carry no meaning,
except for a leading `/` or `.`; `..` is a piece like any other.
-/

namespace Extraction

inductive PathComponent
  | root
  | here
  | parent
  | name (text : String)
deriving DecidableEq, Repr

def PathComponent.lt : PathComponent → PathComponent → Bool
  | .name a, .name b => decide (a < b)
  | a, b => rank a < rank b
where
  rank : PathComponent → Nat
    | .root => 0
    | .here => 1
    | .parent => 2
    | .name _ => 3

namespace Path

def pieces : List Char → List (List Char)
  | [] => [[]]
  | '/' :: rest => [] :: pieces rest
  | c :: rest =>
      match pieces rest with
      | [] => [[c]]
      | piece :: more => (c :: piece) :: more

/-- A leading `/`, or a leading `.` that is a piece of its own, and the pieces after it. -/
def split (path : String) : List Char × List (List Char) :=
  match path.toList with
  | '/' :: rest => (['/'], pieces rest)
  | ['.'] => (['.'], [[]])
  | '.' :: '/' :: rest => (['.'], pieces ('/' :: rest))
  | cs => ([], pieces cs)

def isProper (piece : List Char) : Bool :=
  piece != [] && piece != ['.']

/-- The components of a path. Two paths with the same components are the same key. -/
def components (path : String) : List PathComponent :=
  let (head, body) := split path
  (match head with
    | ['/'] => [.root]
    | ['.'] => [.here]
    | _ => []) ++
  (body.filter isProper).map fun piece =>
    if piece == ['.', '.'] then .parent else .name (String.ofList piece)

def isAbsolute (path : String) : Bool :=
  path.toList.head? == some '/'

def unsplit (head : List Char) (body : List (List Char)) : String :=
  String.ofList (head ++ List.intercalate ['/'] body)

/-- The path without its last component, spelled as it is in the path. The root and the empty
path have none. -/
def parent? (path : String) : Option String :=
  let (head, body) := split path
  match body.reverse.dropWhile (!isProper ·) with
  | _ :: before => some (unsplit head (before.dropWhile (!isProper ·)).reverse)
  | [] => if head == ['.'] then some "" else none

/-- A path below another; an absolute one takes its place. -/
def join (base path : String) : String :=
  if isAbsolute path then path
  else
    match base.toList.getLast? with
    | none => path
    | some '/' => base ++ path
    | some _ => base ++ "/" ++ path

end Path

end Extraction
