import UniversalMachine.CommandLine.FileSystem
import UniversalMachine.Machine.Run

/-!
What a command does, as data.

A command is a sequence of actions, each of which decides by its result how the command goes on.
`perform` carries a command out on a given world; the program itself carries the same actions out on
its surroundings. Both take it that standard output and standard error accept all that is written to
them.
-/

namespace UniversalMachine.CommandLine

inductive Diagnostic where
  | log (record : LogRecord)
  | line (text : String)
  deriving DecidableEq, Repr

/-- The machine that an action runs reads the command's input. What it writes becomes the command's
output, and what it logs becomes diagnostics. -/
inductive Action where
  | exit (status : Nat)
  | readFile (name : String) (next : Except Failure Bytes → Action)
  | writeFile (name : String) (bytes : Bytes) (next : Except Failure Unit → Action)
  | print (bytes : Bytes) (next : Action)
  | diagnose (d : Diagnostic) (next : Action)
  | run (p : Program) (config : Config) (next : Except Fault Machine.Outcome → Machine → Action)

/-- What a command finds around it. The writing of a file may break off with a failure, which it
does behind so many bytes. -/
structure World where
  files : FileSystem
  input : Bytes
  shortage : Option (Nat × Failure)
  deriving DecidableEq, Repr

namespace World

def accept (world : World) (bytes : Bytes) : Except Failure Unit × Bytes :=
  match world.shortage with
  | none => (.ok (), bytes)
  | some (room, failure) =>
    if room < bytes.length then (.error failure, bytes.take room) else (.ok (), bytes)

def write (world : World) (name : String) (bytes : Bytes) : Except Failure Unit × World :=
  match world.files.create name with
  | .error e => (.error e.failure, world)
  | .ok (number, opened) =>
    let (result, kept) := world.accept bytes
    (result, { world with files := opened.store number kept })

end World

structure Report where
  status : Nat
  output : Bytes
  diagnostics : List Diagnostic
  files : FileSystem
  deriving DecidableEq, Repr

namespace Report

def printing (bytes : Bytes) (r : Report) : Report := { r with output := bytes ++ r.output }

def diagnosing (ds : List Diagnostic) (r : Report) : Report :=
  { r with diagnostics := ds ++ r.diagnostics }

end Report

/-- Carries out a command. There is no report if a machine does not stop within `fuel` steps. -/
def Action.perform (fuel : Nat) (world : World) : Action → Option Report
  | .exit status => some ⟨status, [], [], world.files⟩
  | .readFile name next =>
    match world.files.read name with
    | .error e => (next (.error e.failure)).perform fuel world
    | .ok bytes => (next (.ok bytes)).perform fuel world
  | .writeFile name bytes next =>
    let (result, after) := world.write name bytes
    (next result).perform fuel after
  | .print bytes next => (next.perform fuel world).map (Report.printing bytes)
  | .diagnose d next => (next.perform fuel world).map (Report.diagnosing [d])
  | .run p config next =>
    match (Machine.boot p (.ofBytes world.input) config).run fuel with
    | none => none
    | some (result, m) =>
      let logged := m.log.toList.map fun e => Diagnostic.log e.record
      ((next result m).perform fuel world).map fun r =>
        (r.diagnosing logged).printing m.console.delivered

end UniversalMachine.CommandLine
