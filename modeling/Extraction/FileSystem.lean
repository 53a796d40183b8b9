import Extraction.Synthesis
/-!
What a program needs of its surroundings: files, and a console to write to and to ask.
-/

namespace Extraction

class FileSystem (m : Type → Type) where
  readBytes : String → m (Except IoError Bytes)
  pathExists : String → m Bool
  Handle : Type
  /-- Creates an empty file; anything that is at the path already makes it fail. -/
  createNew : String → m (Except IoError Handle)
  /-- Writes the content of a file that was created. -/
  fill : Handle → Bytes → m (Except IoError Unit)
  removeFile : String → m (Except IoError Unit)
  /-- Writes a file, which is created or replaced. -/
  writeFile : String → Bytes → m (Except IoError Unit)

/-- What a program prints, and what it is told when it asks. -/
class Console (m : Type → Type) where
  print : Bytes → m Unit
  printError : Bytes → m Unit
  /-- Asks the user for a line; the error tells why the user cannot be asked. -/
  ask : String → m (Except String String)

variable {m : Type → Type} [Monad m] [FileSystem m]

/-- Creates a file and fills it. A file that cannot be filled is removed again, and the failure of
the fill counts, whatever becomes of the removal. -/
def createExclusive (path : String) (fill : FileSystem.Handle m → m (Except IoError Unit)) :
    m (Except IoError Unit) := do
  match ← FileSystem.createNew path with
  | .error cause => return .error cause
  | .ok handle =>
      match ← fill handle with
      | .ok () => return .ok ()
      | .error cause => do
          let _ ← FileSystem.removeFile path
          return .error cause

def createFile (path : String) (content : Bytes) : m (Except IoError Unit) :=
  createExclusive path fun handle => FileSystem.fill handle content

/-- The text of a file, which must be UTF-8. -/
def readText (path : String) : m (Except IoError Bytes) := do
  match ← FileSystem.readBytes path with
  | .error err => return .error err
  | .ok bytes => return if bytes.decode?.isSome then .ok bytes else .error .invalidUtf8

/-- What a template name leads to as a path. -/
def findTemplate (name : String) : m TemplateFile := do
  if name = builtinName then return .absent
  if ← FileSystem.pathExists name then
    match ← readText name with
    | .ok text => return .readable text
    | .error cause => return .unreadable cause
  else return .absent

end Extraction
