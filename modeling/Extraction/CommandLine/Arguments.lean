import Extraction.CommandLine.Range
import Extraction.Naming
import Extraction.Source.Scan
/-!
Reading a command line. Arguments are taken from left to right; the value of an option may be
attached to it or follow it, and a value that follows is checked when the next option, flag or
file is met.
-/

namespace Extraction

inductive UsageError
  | unknownArgument
  | invalidValue
  | invalidRange (cause : RangeError)
  | argumentConflict
  | tooManyValues
  | missingFile
  | invalidSubcommand
  | missingSubcommand
  /-- Nothing was asked for. -/
  | nothingGiven
  | helpRequested
  | versionRequested
deriving DecidableEq, Repr

structure ExtractArguments where
  file : String
  bytes : Option Span := none
  lines : Option LineRange := none
  name : Option String := none
  suffixPolicy : Option SuffixPolicy := none
  tagStyle : Option TagStyle := none
  scan : Option BlockScan := none
  noRewire : Bool := false
  dryRun : Bool := false
deriving DecidableEq, Repr

inductive Command
  | extract (arguments : ExtractArguments)
  | config
deriving DecidableEq, Repr

structure CommandLine where
  verbosity : Nat
  command : Command
deriving DecidableEq, Repr

inductive ValueOption
  | bytes
  | lines
  | name
  | suffixPolicy
  | tagStyle
  | scan
deriving DecidableEq, Repr

inductive Flag
  | noRewire
  | dryRun
deriving DecidableEq, Repr

namespace CommandLine

inductive Meaning
  | value (option : ValueOption)
  | flag (flag : Flag)
  | verbose
  | help
  | version
deriving DecidableEq, Repr

def longOption? (command : Option String) (name : String) : Option Meaning :=
  match name, command with
  | "verbose", _ => some .verbose
  | "help", _ => some .help
  | "version", none => some .version
  | "bytes", some "extract" => some (.value .bytes)
  | "lines", some "extract" => some (.value .lines)
  | "name", some "extract" => some (.value .name)
  | "suffix-policy", some "extract" => some (.value .suffixPolicy)
  | "tag-style", some "extract" => some (.value .tagStyle)
  | "scan", some "extract" => some (.value .scan)
  | "no-rewire", some "extract" => some (.flag .noRewire)
  | "dry-run", some "extract" => some (.flag .dryRun)
  | _, _ => none

def shortOption? (command : Option String) (letter : Char) : Option Meaning :=
  match letter, command with
  | 'v', _ => some .verbose
  | 'h', _ => some .help
  | 'V', none => some .version
  | 'n', some "extract" => some (.value .name)
  | _, _ => none

/-- A value that is not checked yet: the file's, or an option's, which may be still to come. -/
inductive Pending
  | file (path : String)
  | option (option : ValueOption) (value : Option String)
deriving DecidableEq, Repr

structure State where
  verbosity : Nat := 0
  file : Option String := none
  bytes : Option Span := none
  lines : Option LineRange := none
  name : Option String := none
  suffixPolicy : Option SuffixPolicy := none
  tagStyle : Option TagStyle := none
  scan : Option BlockScan := none
  noRewire : Bool := false
  dryRun : Bool := false
  pending : Option Pending := none
deriving DecidableEq, Repr

namespace State

def has (state : State) : ValueOption → Bool
  | .bytes => state.bytes.isSome
  | .lines => state.lines.isSome
  | .name => state.name.isSome
  | .suffixPolicy => state.suffixPolicy.isSome
  | .tagStyle => state.tagStyle.isSome
  | .scan => state.scan.isSome

def set (state : State) (option : ValueOption) (value : String) : Except UsageError State :=
  if state.has option then .error .argumentConflict
  else
    match option with
    | .bytes =>
        match parseByteRange value with
        | .ok span => .ok { state with bytes := some span }
        | .error cause => .error (.invalidRange cause)
    | .lines =>
        match parseLineRange value with
        | .ok range => .ok { state with lines := some range }
        | .error cause => .error (.invalidRange cause)
    | .name => .ok { state with name := some value }
    | .suffixPolicy =>
        match SuffixPolicy.ofName? value with
        | some policy => .ok { state with suffixPolicy := some policy }
        | none => .error .invalidValue
    | .tagStyle =>
        match TagStyle.ofName? value with
        | some style => .ok { state with tagStyle := some style }
        | none => .error .invalidValue
    | .scan =>
        match BlockScan.ofName? value with
        | some scan => .ok { state with scan := some scan }
        | none => .error .invalidValue

def settle (state : State) : Except UsageError State :=
  match state.pending with
  | none => .ok state
  | some (.file path) =>
      if path = "" then .error .invalidValue
      else .ok { state with file := some path, pending := none }
  | some (.option _ none) => .error .invalidValue
  | some (.option option (some value)) => { state with pending := none }.set option value

def awaitsValue (state : State) : Bool :=
  match state.pending with
  | some (.option _ none) => true
  | _ => false

def fill (state : State) (value : String) : State :=
  match state.pending with
  | some (.option option none) => { state with pending := some (.option option (some value)) }
  | _ => state

def setFlag (state : State) : Flag → Except UsageError State
  | .noRewire =>
      if state.noRewire then .error .argumentConflict else .ok { state with noRewire := true }
  | .dryRun =>
      if state.dryRun then .error .argumentConflict else .ok { state with dryRun := true }

def take (state : State) (meaning : Meaning) (attached : Option String) :
    Except UsageError State :=
  match meaning, attached with
  | .value option, _ =>
      match state.settle with
      | .error err => .error err
      | .ok state =>
          match attached with
          | some value => state.set option value
          | none => .ok { state with pending := some (.option option none) }
  | _, some _ => .error .tooManyValues
  | meaning, none =>
      match state.settle with
      | .error err => .error err
      | .ok state =>
          match meaning with
          | .flag flag => state.setFlag flag
          | .verbose => .ok { state with verbosity := min 255 (state.verbosity + 1) }
          | .version => .error .versionRequested
          | _ => .error .helpRequested

/-- Takes letters after one hyphen. The letter of an option that takes a value takes the letters
after it as its value, if there are any; an equals sign between them is dropped. -/
def takeLetters (command : Option String) (state : State) :
    List Char → Except UsageError State
  | [] => .ok state
  | letter :: rest =>
      match shortOption? command letter with
      | none => .error .unknownArgument
      | some (.value option) =>
          let attached :=
            match rest with
            | [] => none
            | '=' :: value => some (String.ofList value)
            | value => some (String.ofList value)
          state.take (.value option) attached
      | some meaning =>
          match state.take meaning none with
          | .error err => .error err
          | .ok state => takeLetters command state rest

/-- Takes the text after two hyphens: a name, or a name, an equals sign and a value. -/
def takeLong (command : Option String) (state : State) (text : List Char) :
    Except UsageError State :=
  let (name, attached) :=
    match splitAtFirst '=' text with
    | some (name, value) => (name, some (String.ofList value))
    | none => (text, none)
  match longOption? command (String.ofList name) with
  | none => .error .unknownArgument
  | some meaning => state.take meaning attached

/-- Takes an argument that is no option. Only `extract` takes one: its file. -/
def takePositional (command : String) (state : State) (argument : String) :
    Except UsageError State :=
  let hasFile := state.file.isSome || (state.pending matches some (.file _))
  if command != "extract" || hasFile then .error .unknownArgument
  else
    match state.settle with
    | .error err => .error err
    | .ok state => .ok { state with pending := some (.file argument) }

def takeArguments (command : String) (literally : Bool) (state : State) :
    List String → Except UsageError State
  | [] => .ok state
  | argument :: rest =>
      let taken : Except UsageError (State × Bool) :=
        if literally then (state.takePositional command argument).map ((·, true))
        else
          match argument.toList with
          | ['-', '-'] => .ok (state, true)
          | '-' :: '-' :: text => (state.takeLong (some command) text).map ((·, false))
          | '-' :: c :: letters =>
              (state.takeLetters (some command) (c :: letters)).map ((·, false))
          | _ =>
              if state.awaitsValue then .ok (state.fill argument, false)
              else (state.takePositional command argument).map ((·, false))
      match taken with
      | .error err => .error err
      | .ok (state, literally) => takeArguments command literally state rest

end State

def finishExtract (state : State) : Except UsageError ExtractArguments :=
  if state.bytes.isSome && state.lines.isSome then .error .argumentConflict
  else
    match state.file with
    | none => .error .missingFile
    | some file =>
        .ok
          { file
            bytes := state.bytes
            lines := state.lines
            name := state.name
            suffixPolicy := state.suffixPolicy
            tagStyle := state.tagStyle
            scan := state.scan
            noRewire := state.noRewire
            dryRun := state.dryRun }

/-- Reads the arguments of a command. The verbosity that they ask for, if any, takes the place of
the one before the command. -/
def parseCommand (command : String) (verbosity : Nat) (arguments : List String) :
    Except UsageError CommandLine := do
  let state ← (← State.takeArguments command false {} arguments).settle
  let verbosity := if state.verbosity = 0 then verbosity else state.verbosity
  if command == "extract" then
    return { verbosity, command := .extract (← finishExtract state) }
  else return { verbosity, command := .config }

def helpAbout : List String → UsageError
  | [] => .helpRequested
  | ["extract"] => .helpRequested
  | ["config"] => .helpRequested
  | "help" :: rest => if rest.isEmpty then .helpRequested else .invalidSubcommand
  | _ => .invalidSubcommand

def isCommand (argument : String) : Bool :=
  argument == "extract" || argument == "config" || argument == "help"

/-- Reads a command line up to its command; after `--` no command can follow. -/
def parseFrom (literally : Bool) (state : State) : List String → Except UsageError CommandLine
  | [] => if state.verbosity = 0 then .error .nothingGiven else .error .missingSubcommand
  | argument :: rest =>
      if literally then
        .error (if isCommand argument then .unknownArgument else .invalidSubcommand)
      else if argument == "help" then .error (helpAbout rest)
      else if isCommand argument then parseCommand argument state.verbosity rest
      else
        let taken : Except UsageError (State × Bool) :=
          match argument.toList with
          | ['-', '-'] => .ok (state, true)
          | '-' :: '-' :: text => (state.takeLong none text).map ((·, false))
          | '-' :: c :: letters => (state.takeLetters none (c :: letters)).map ((·, false))
          | _ => .error .invalidSubcommand
        match taken with
        | .error err => .error err
        | .ok (state, literally) => parseFrom literally state rest

def parse (arguments : List String) : Except UsageError CommandLine :=
  parseFrom false {} arguments

end CommandLine

end Extraction
