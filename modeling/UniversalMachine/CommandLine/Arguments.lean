import UniversalMachine.Digits
import UniversalMachine.Word

/-!
The arguments of the command line.

Options stand before or after positional arguments. A long option takes its value behind an equals
sign or as the next argument, a short one also directly behind its letter. Two dashes end the
options. A line that does not fit is refused as a whole.
-/

namespace UniversalMachine.CommandLine

structure RunOptions where
  image : String
  maxCycles : Option Nat
  maxBlockWords : Option Word
  trace : Bool
  traceOut : Option String
  stats : Bool
  deriving DecidableEq, Repr

inductive Command where
  | run (options : RunOptions)
  | assemble (source : String) (output : Option String)
  | disassemble (image : String)
  deriving DecidableEq, Repr

structure Invocation where
  verbosity : Nat
  command : Command
  deriving DecidableEq, Repr

inductive Request where
  | version
  | help
  | invoke (invocation : Invocation)
  deriving DecidableEq, Repr

inductive Argument where
  | flag (name : String)
  | valued (name value : String)
  | positional (text : String)
  deriving DecidableEq, Repr

structure OptionTable where
  flags : List String
  valued : List String
  short : Char → Option String

/-- The option that asks for help. Nothing behind it is looked at. -/
def helpName : String := "help"

namespace OptionTable

/-- Whether an argument that stands where a value is due is an option instead. A single dash is a
value. -/
def isOption (text : String) : Bool :=
  match text.toList with
  | '-' :: _ :: _ => true
  | _ => false

def splitLong (text : List Char) : String × Option String :=
  match text.dropWhile (· != '=') with
  | [] => (String.ofList text, none)
  | _ :: value => (String.ofList (text.takeWhile (· != '=')), some (String.ofList value))

/-- The options among the letters behind a dash. The last one may take the next argument as its
value. -/
inductive Cluster where
  | complete (arguments : List Argument)
  | pending (arguments : List Argument) (name : String)

def cluster (table : OptionTable) : List Char → Option Cluster
  | [] => some (.complete [])
  | c :: rest => do
    let name ← table.short c
    if name == helpName then return .complete [.flag helpName]
    else if table.flags.contains name then
      match ← cluster table rest with
      | .complete arguments => return .complete (.flag name :: arguments)
      | .pending arguments last => return .pending (.flag name :: arguments) last
    else
      match rest with
      | [] => return .pending [] name
      | '=' :: value => return .complete [.valued name (String.ofList value)]
      | value => return .complete [.valued name (String.ofList value)]

def scan (table : OptionTable) : List String → Option (List Argument)
  | [] => some []
  | text :: rest =>
    match text.toList with
    | ['-', '-'] => some (rest.map .positional)
    | '-' :: '-' :: long =>
      match splitLong long with
      | (name, some value) => do
        guard (table.valued.contains name)
        let behind ← scan table rest
        return .valued name value :: behind
      | (name, none) =>
        if name == helpName then some [.flag helpName]
        else if table.flags.contains name then do
          let behind ← scan table rest
          return .flag name :: behind
        else
          match rest with
          | [] => none
          | value :: rest => do
            guard (table.valued.contains name && !isOption value)
            let behind ← scan table rest
            return .valued name value :: behind
    | '-' :: c :: letters => do
      match ← table.cluster (c :: letters) with
      | .complete arguments =>
        if arguments.contains (.flag helpName) then return arguments
        let behind ← scan table rest
        return arguments ++ behind
      | .pending arguments name =>
        match rest with
        | [] => none
        | value :: rest =>
          guard (!isOption value)
          let behind ← scan table rest
          return arguments ++ .valued name value :: behind
    | _ => do
      let behind ← scan table rest
      return .positional text :: behind

end OptionTable

namespace Argument

def count (name : String) (arguments : List Argument) : Nat := arguments.count (.flag name)

/-- A flag that may be given once. -/
def flag? (name : String) (arguments : List Argument) : Option Bool :=
  match count name arguments with
  | 0 => some false
  | 1 => some true
  | _ => none

def value? (name : String) (arguments : List Argument) : Option (Option String) :=
  let values := arguments.filterMap fun
    | .valued n value => if n == name then some value else none
    | _ => none
  match values with
  | [] => some none
  | [value] => some (some value)
  | _ => none

def positionals (arguments : List Argument) : List String :=
  arguments.filterMap fun
    | .positional text => some text
    | _ => none

end Argument

def cycles? (text : String) : Option Nat := Digits.unsigned? text.toList

/-- A number of words fits in 32 bits. It is read as an integer, so zero may have a minus sign. -/
def words? (text : String) : Option Word := do
  let n ← Digits.integer? text.toList
  if 0 ≤ n && n < UInt32.size then some (UInt32.ofNat n.toNat) else none

def optional {α : Type} (read : String → Option α) : Option String → Option (Option α)
  | none => some none
  | some text => (read text).map some

def fileName? (text : String) : Option String := if text.isEmpty then none else some text

namespace Command

def verbose : String := "verbose"

def shortCommon (c : Char) : Option String :=
  if c == 'v' then some verbose else if c == 'h' then some helpName else none

def runTable : OptionTable where
  flags := [verbose, "trace", "stats"]
  valued := ["max-cycles", "max-block-words", "trace-out"]
  short := shortCommon

def assembleTable : OptionTable where
  flags := [verbose]
  valued := ["output"]
  short := fun c => if c == 'o' then some "output" else shortCommon c

def disassembleTable : OptionTable where
  flags := [verbose]
  valued := []
  short := shortCommon

def defaultImage : String := "codex.umz"

def ofRunArguments (arguments : List Argument) : Option Command := do
  let image ← match Argument.positionals arguments with
    | [] => some defaultImage
    | [image] => fileName? image
    | _ => none
  let maxCycles ← (← Argument.value? "max-cycles" arguments) |> optional cycles?
  let maxBlockWords ← (← Argument.value? "max-block-words" arguments) |> optional words?
  let traceOut ← (← Argument.value? "trace-out" arguments) |> optional fileName?
  let trace ← Argument.flag? "trace" arguments
  let stats ← Argument.flag? "stats" arguments
  return .run { image, maxCycles, maxBlockWords, trace, traceOut, stats }

def ofAssembleArguments (arguments : List Argument) : Option Command := do
  let source ← match Argument.positionals arguments with
    | [source] => fileName? source
    | _ => none
  let output ← (← Argument.value? "output" arguments) |> optional fileName?
  return .assemble source output

def ofDisassembleArguments (arguments : List Argument) : Option Command := do
  let image ← match Argument.positionals arguments with
    | [image] => fileName? image
    | _ => none
  return .disassemble image

end Command

/-- A command with its arguments. Verbosity asked for behind the command's name replaces what was
asked for before it. Help is given if what stands before it is right as far as it goes. -/
def invocation (before : Nat) (table : OptionTable) (read : List Argument → Option Command)
    (arguments : List String) : Option Request := do
  let scanned ← table.scan arguments
  if scanned.contains (.flag helpName) then
    let given := if (Argument.positionals scanned).isEmpty then [.positional "-"] else []
    let _ ← read (given ++ scanned)
    return .help
  let command ← read scanned
  let behind := Argument.count Command.verbose scanned
  return .invoke ⟨if behind = 0 then before else behind, command⟩

inductive Leading where
  | verbosity (more : Nat)
  | version
  | help

def leadingLetters : List Char → Option Leading
  | [] => some (.verbosity 0)
  | c :: rest =>
    if c == 'v' then
      (leadingLetters rest).map fun
        | .verbosity more => .verbosity (more + 1)
        | leading => leading
    else if c == 'V' then some .version
    else if c == 'h' then some .help
    else none

def isHelpTopic : List String → Bool
  | [] => true
  | [name] => ["run", "asm", "disasm", "help"].contains name
  | _ => false

def Request.parseFrom (verbosity : Nat) : List String → Option Request
  | [] => none
  | text :: rest =>
    if text == "run" then invocation verbosity Command.runTable Command.ofRunArguments rest
    else if text == "asm" then
      invocation verbosity Command.assembleTable Command.ofAssembleArguments rest
    else if text == "disasm" then
      invocation verbosity Command.disassembleTable Command.ofDisassembleArguments rest
    else if text == "help" then if isHelpTopic rest then some .help else none
    else if text == "--version" then some .version
    else if text == "--help" then some .help
    else if text == "--verbose" then parseFrom (verbosity + 1) rest
    else
      match text.toList with
      | '-' :: c :: letters =>
        match leadingLetters (c :: letters) with
        | none => none
        | some .version => some .version
        | some .help => some .help
        | some (.verbosity more) => parseFrom (verbosity + more) rest
      | _ => none

/-- Reads a command line; `none` refuses it. -/
def Request.parse (arguments : List String) : Option Request := parseFrom 0 arguments

end UniversalMachine.CommandLine
