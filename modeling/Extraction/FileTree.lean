import Extraction.FileSystem
/-!
A file system as a value: a tree of files and directories, and a sandbox that adds a current
directory and what was printed. A path is walked piece by piece, and every piece but the last must
lead to a directory.
-/

namespace Extraction

inductive FileEntry
  | file (content : Bytes)
  | directory
deriving DecidableEq, Repr

/-- Entries by the names on the way to them. The root is a directory without an entry. -/
abbrev FileTree := List (List String × FileEntry)

namespace FileTree

def entry? (tree : FileTree) (key : List String) : Option FileEntry :=
  if key.isEmpty then some .directory else tree.lookup key

def put (key : List String) (entry : FileEntry) : FileTree → FileTree
  | [] => [(key, entry)]
  | (k, e) :: tree => if k == key then (key, entry) :: tree else (k, e) :: put key entry tree

def maxNameLength : Nat := 255

def maxPathLength : Nat := 4095

def step (tree : FileTree) (current : List String) (piece : String) :
    Except IoError (List String) :=
  match tree.entry? current with
  | none => .error .notFound
  | some (.file _) => .error .notADirectory
  | some .directory =>
      if piece = "." then .ok current
      else if piece = ".." then .ok current.dropLast
      else if maxNameLength < (utf8 piece).length then .error .nameTooLong
      else if (tree.entry? (current ++ [piece])).isSome then .ok (current ++ [piece])
      else .error .notFound

def walk (tree : FileTree) : List String → List String → Except IoError (List String)
  | current, [] => .ok current
  | current, piece :: pieces =>
      match tree.step current piece with
      | .error err => .error err
      | .ok next => tree.walk next pieces

/-- The pieces of a path that are not empty, and whether a slash ends it. -/
def pathPieces (path : String) : List String × Bool :=
  let pieces := Path.pieces path.toList
  ((pieces.filter (· != [])).map String.ofList, pieces.getLast? == some [] && path != "")

/-- Rejects the paths that no walk starts on. -/
def checkPath (path : String) : Except IoError Unit :=
  if path.toList.contains '\x00' then .error .nulInPath
  else if path = "" then .error .notFound
  else if maxPathLength < (utf8 path).length then .error .nameTooLong
  else .ok ()

def origin (directory : List String) (path : String) : List String :=
  if Path.isAbsolute path then [] else directory

def locate (tree : FileTree) (directory : List String) (path : String) :
    Except IoError (List String) :=
  match checkPath path with
  | .error err => .error err
  | .ok () =>
      let (pieces, slashed) := pathPieces path
      tree.walk (origin directory path) (if slashed then pieces ++ ["."] else pieces)

/-- Where a file that is to be written would be. -/
inductive Destination
  /-- A path that ends in `.`, `..` or at the root: a directory. -/
  | directory
  /-- A name with a slash after it. -/
  | slashed
  | name (key : List String)

def destination (tree : FileTree) (directory : List String) (path : String) :
    Except IoError Destination :=
  match checkPath path with
  | .error err => .error err
  | .ok () =>
      let (pieces, slashed) := pathPieces path
      match tree.walk (origin directory path) (pieces.dropLast ++ ["."]) with
      | .error err => .error err
      | .ok parent =>
          match pieces.getLast? with
          | none => .ok .directory
          | some piece =>
              if piece = "." ∨ piece = ".." then .ok .directory
              else if slashed then .ok .slashed
              else if maxNameLength < (utf8 piece).length then .error .nameTooLong
              else .ok (.name (parent ++ [piece]))

def read (tree : FileTree) (directory : List String) (path : String) : Except IoError Bytes :=
  match tree.locate directory path with
  | .error err => .error err
  | .ok key =>
      match tree.entry? key with
      | some (.file content) => .ok content
      | some .directory => .error .isADirectory
      | none => .error .notFound

/-- The key of a file that is to be created where nothing is. -/
def freeKey (tree : FileTree) (directory : List String) (path : String) :
    Except IoError (List String) :=
  match tree.destination directory path with
  | .error err => .error err
  | .ok .directory => .error .alreadyExists
  | .ok .slashed => .error .isADirectory
  | .ok (.name key) =>
      if (tree.entry? key).isSome then .error .alreadyExists else .ok key

def create (tree : FileTree) (directory : List String) (path : String) (content : Bytes) :
    Except IoError FileTree :=
  (tree.freeKey directory path).map fun key => tree.put key (.file content)

def write (tree : FileTree) (directory : List String) (path : String) (content : Bytes) :
    Except IoError FileTree :=
  match tree.destination directory path with
  | .error err => .error err
  | .ok .directory => .error .isADirectory
  | .ok .slashed => .error .isADirectory
  | .ok (.name key) =>
      match tree.entry? key with
      | some .directory => .error .isADirectory
      | _ => .ok (tree.put key (.file content))

def delete (tree : FileTree) (directory : List String) (path : String) : Except IoError FileTree :=
  match tree.locate directory path with
  | .error err => .error err
  | .ok key =>
      match tree.entry? key with
      | some (.file _) => .ok (tree.filter fun entry => entry.1 != key)
      | some .directory => .error .isADirectory
      | none => .error .notFound

end FileTree

structure Sandbox where
  tree : FileTree := []
  directory : List String := []
  output : Bytes := []
  errors : Bytes := []
deriving DecidableEq, Repr

namespace Sandbox

/-- Keeps a changed tree, or leaves the sandbox as it is. -/
def commit (sandbox : Sandbox) : Except IoError FileTree → Except IoError Unit × Sandbox
  | .ok tree => (.ok (), { sandbox with tree })
  | .error err => (.error err, sandbox)

instance : FileSystem (StateM Sandbox) where
  readBytes path := fun sandbox => (sandbox.tree.read sandbox.directory path, sandbox)
  pathExists path := fun sandbox =>
    ((sandbox.tree.locate sandbox.directory path).isOk, sandbox)
  Handle := List String
  createNew path := fun sandbox =>
    match sandbox.tree.freeKey sandbox.directory path with
    | .error err => (.error err, sandbox)
    | .ok key => (.ok key, { sandbox with tree := sandbox.tree.put key (.file []) })
  fill key content := fun sandbox =>
    (.ok (), { sandbox with tree := sandbox.tree.put key (.file content) })
  removeFile path := fun sandbox => sandbox.commit (sandbox.tree.delete sandbox.directory path)
  writeFile path content := fun sandbox =>
    sandbox.commit (sandbox.tree.write sandbox.directory path content)

instance : Console (StateM Sandbox) where
  print text := fun sandbox => ((), { sandbox with output := sandbox.output ++ text })
  printError text := fun sandbox => ((), { sandbox with errors := sandbox.errors ++ text })
  ask _ := fun sandbox => (.error "not a terminal", sandbox)

end Sandbox

end Extraction
