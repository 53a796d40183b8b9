import Extraction.FileSystem
import Extraction.Host
/-!
A host whose active buffer is the content of one file. The buffer is edited in memory and written
back once, at the end, if it was edited at all.
-/

namespace Extraction

structure FileHost where
  path : String
  buffer : Bytes
  /-- Whether the buffer was edited since it was loaded. -/
  edited : Bool := false
deriving DecidableEq, Repr

variable {m : Type → Type} [Monad m] [FileSystem m] [Console m]

/-- Prints a message on a line of its own: information as output, all else as errors. -/
def printNotification (notification : Notification) : m Unit :=
  let line := utf8 notification.display ++ utf8 "\n"
  match notification with
  | .info _ => Console.print line
  | _ => Console.printError line

namespace FileHost

def load (path : String) : m (Except IoError FileHost) := do
  match ← readText path with
  | .ok buffer => return .ok { path, buffer }
  | .error cause => return .error cause

def save (host : FileHost) : m (Except IoError Unit) :=
  if host.edited then FileSystem.writeFile host.path host.buffer else return .ok ()

def replaceRange (span : Span) (text : Bytes) (host : FileHost) :
    Except EditError Unit × FileHost :=
  match spliceBuffer host.buffer span text with
  | .error err => (.error err, host)
  | .ok buffer => (.ok (), { host with buffer, edited := true })

def replaceAll (text : Bytes) (host : FileHost) : Except EditError Unit × FileHost :=
  (.ok (), { host with buffer := text, edited := true })

instance : Host (StateT FileHost m) where
  buffer := fun host => return (host.buffer, host)
  writeFile path content := fun host => do
    return (← createFile path content, host)
  replaceRange span text := fun host => return replaceRange span text host
  replaceAll text := fun host => return replaceAll text host
  notify notification := fun host => do
    printNotification notification
    return ((), host)
  openDocument _ := fun host => return ((), host)

end FileHost

end Extraction
