import Extraction.Host
/-!
A host that keeps everything in memory, for editors that own their buffers. Its files are keyed by
the components of their paths, listed in the order of those, and written once. It can be told to
refuse writes or replacements of the buffer.
-/

namespace Extraction

/-- Files by path, in the order of the paths' components. The path of an entry is spelled as when
it was first inserted. -/
abbrev FileMap := List (String × Bytes)

/-- The order of paths by their components, a shorter path first. -/
def componentsLt : List PathComponent → List PathComponent → Bool
  | [], [] => false
  | [], _ :: _ => true
  | _ :: _, [] => false
  | a :: as, b :: bs => a.lt b || (a == b && componentsLt as bs)

namespace FileMap

def get? (files : FileMap) (path : String) : Option Bytes :=
  (files.find? fun entry => Path.components entry.1 == Path.components path).map (·.2)

def insert (path : String) (content : Bytes) : FileMap → FileMap
  | [] => [(path, content)]
  | entry :: files =>
      if componentsLt (Path.components path) (Path.components entry.1) then
        (path, content) :: entry :: files
      else entry :: insert path content files

end FileMap

structure MemoryHost where
  buffer : Bytes := []
  files : FileMap := []
  notifications : List Notification := []
  opened : List String := []
  /-- The kind of the error that every write fails with, if writes are refused. -/
  failWrites : Option String := none
  /-- The text of the error that every replacement of the buffer fails with, if refused. -/
  failReplaceAll : Option String := none
deriving DecidableEq, Repr

namespace MemoryHost

def writeFile (path : String) (content : Bytes) (host : MemoryHost) :
    Except IoError Unit × MemoryHost :=
  match host.failWrites with
  | some kind => (.error (.rejected kind), host)
  | none =>
      match FileMap.get? host.files path with
      | some _ => (.error (.pathTaken path), host)
      | none => (.ok (), { host with files := FileMap.insert path content host.files })

def replaceRange (span : Span) (text : Bytes) (host : MemoryHost) :
    Except EditError Unit × MemoryHost :=
  match spliceBuffer host.buffer span text with
  | .error err => (.error err, host)
  | .ok buffer => (.ok (), { host with buffer })

def replaceAll (text : Bytes) (host : MemoryHost) : Except EditError Unit × MemoryHost :=
  match host.failReplaceAll with
  | some reason => (.error (.refused reason), host)
  | none => (.ok (), { host with buffer := text })

def notify (notification : Notification) (host : MemoryHost) : Unit × MemoryHost :=
  ((), { host with notifications := host.notifications ++ [notification] })

def openDocument (path : String) (host : MemoryHost) : Unit × MemoryHost :=
  ((), { host with opened := host.opened ++ [path] })

instance : Host (StateM MemoryHost) where
  buffer := fun host => (host.buffer, host)
  writeFile := writeFile
  replaceRange := replaceRange
  replaceAll := replaceAll
  notify := notify
  openDocument := openDocument

end MemoryHost

end Extraction
