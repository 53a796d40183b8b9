import Extraction.CommandLine.Usage
/-!
The program: the command line carried out with the files and the console of the machine.
-/

namespace Extraction

def IoError.ofMachine : IO.Error → IoError
  | .noFileOrDirectory _ _ _ => .notFound
  | .alreadyExists _ _ _ => .alreadyExists
  | .inappropriateType _ code _ => if code = 20 then .notADirectory else .isADirectory
  | .invalidArgument _ code details => if code = 36 then .nameTooLong else .other details
  | err => .other (toString err)

def attempt (action : IO α) : IO (Except IoError α) := do
  try return .ok (← action)
  catch err => return .error (.ofMachine err)

/-- Runs an action on a path that the machine can be given. -/
def onPath (path : String) (action : IO α) : IO (Except IoError α) :=
  if path.toList.contains '\x00' then return .error .nulInPath else attempt action

def toByteArray (text : Bytes) : ByteArray :=
  ⟨text.toArray⟩

instance : FileSystem IO where
  readBytes path := do
    return (← onPath path (IO.FS.readBinFile path)).map fun bytes => bytes.data.toList
  pathExists path := do
    match ← onPath path (IO.FS.Handle.mk path .read) with
    | .ok _ => return true
    | .error (.other _) => return true
    | .error _ => return false
  Handle := IO.FS.Handle
  createNew path := onPath path (IO.FS.Handle.mk path .writeNew)
  fill handle content := attempt do
    handle.write (toByteArray content)
    handle.flush
  removeFile path := onPath path (IO.FS.removeFile path)
  writeFile path content := onPath path (IO.FS.writeBinFile path (toByteArray content))

instance : Console IO where
  print text := do
    (← IO.getStdout).write (toByteArray text)
  printError text := do
    (← IO.getStderr).write (toByteArray text)
  ask question := do
    let stderr ← IO.getStderr
    if ← stderr.isTty then
      stderr.putStr (question ++ ": ")
      stderr.flush
      return .ok (← (← IO.getStdin).getLine)
    else return .error "not a terminal"

def configDirectory : IO (Option String) := do
  let home ← IO.getEnv "HOME"
  match ← IO.getEnv "XDG_CONFIG_HOME" with
  | some directory =>
      if Path.isAbsolute directory then return some directory
      else return home.map fun home => Path.join home ".config"
  | none => return home.map fun home => Path.join home ".config"

def readEnvironment : IO Environment := do
  return {
    currentDirectory := (← IO.currentDir).toString
    configDirectory := ← configDirectory
    suffixPolicy := ← IO.getEnv "NGEXTRACT_SUFFIX_POLICY"
    rewire := ← IO.getEnv "NGEXTRACT_REWIRE"
    blockScan := ← IO.getEnv "NGEXTRACT_BLOCK_SCAN" }

def answerUsage (err : UsageError) : IO UInt32 := do
  if err.isAnswer then
    Console.print (utf8 err.message)
    return 0
  else
    Console.printError (utf8 ("error: " ++ err.message ++ "\n\n" ++ usage))
    return 2

end Extraction

open Extraction in
def main (arguments : List String) : IO UInt32 := do
  match CommandLine.parse arguments with
  | .error err => answerUsage err
  | .ok commandLine =>
      match ← commandLine.run (← readEnvironment) with
      | .ok status => return status.code.toUInt32
      | .error err =>
          Console.printError (utf8 err.report)
          return 1
