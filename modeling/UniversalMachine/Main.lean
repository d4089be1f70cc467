import UniversalMachine.CommandLine.Command

/-!
The command line program. It carries out the actions of a command on the files and streams around
it.
-/

namespace UniversalMachine.CommandLine

/-- The filter that a level names, in letters of either case. -/
def logFilter? (name : String) : Option LogFilter :=
  if name.toLower == "off" then some none
  else
    [Level.trace, .debug, .info, .warn, .error].find? (·.name.toLower == name.toLower) |>.map some

def failureOf : IO.Error → Failure
  | .noFileOrDirectory .. => FileError.missing.failure
  | .inappropriateType .. => FileError.isDirectory.failure
  | e => ⟨.named "Other", e.toString⟩

def showDiagnostic : Diagnostic → IO Unit
  | .log record => IO.eprintln record.text
  | .line text => IO.eprintln text

def awaitsInput (m : Machine) : Bool :=
  m.console.input.device.isEmpty && !m.console.input.ended &&
    match m.fetch with
    | .ok (_, .input _) => true
    | _ => false

def feed (m : Machine) (bytes : Bytes) : Machine :=
  { m with console := { m.console with
      input := { m.console.input with device := m.console.input.device ++ bytes.map .byte } } }

/-- Steps a machine until it stops, with its console and its log connected to the program's own
streams. -/
partial def drive (printed logged : Nat) (m : Machine) (fault : Option Fault) :
    IO (Machine × Option Fault) := do
  let stdin ← IO.getStdin
  let stdout ← IO.getStdout
  let m ← if awaitsInput m then do
      let bytes ← stdin.read 4096
      pure (feed m bytes.toList)
    else pure m
  let delivered := m.console.output.delivered
  if printed < delivered.size then
    stdout.write (ByteArray.mk (delivered.extract printed delivered.size))
    stdout.flush
  let events := m.log
  for e in events.extract logged events.size do
    showDiagnostic (.log e.record)
  if m.halted then return (m, fault)
  let shown := delivered.size
  let told := events.size
  let (next, outcome) := m.tick
  drive shown told next outcome

partial def carryOut : Action → IO UInt32
  | .exit status => return UInt32.ofNat status
  | .readFile name next => do
    match ← (IO.FS.readBinFile name).toBaseIO with
    | .ok bytes => carryOut (next (.ok bytes.toList))
    | .error e => carryOut (next (.error (failureOf e)))
  | .writeFile name bytes next => do
    match ← (IO.FS.writeBinFile name (ByteArray.mk bytes.toArray)).toBaseIO with
    | .ok () => carryOut (next (.ok ()))
    | .error e => carryOut (next (.error (failureOf e)))
  | .print bytes next => do
    let stdout ← IO.getStdout
    stdout.write (ByteArray.mk bytes.toArray)
    stdout.flush
    carryOut next
  | .diagnose d next => do
    showDiagnostic d
    carryOut next
  | .run p config next => do
    let (m, fault) ← drive 0 0 (Machine.boot p (.ofBytes []) config).announce none
    match Machine.finish (m, fault) with
    | some (result, after) =>
      for e in after.log.extract m.log.size after.log.size do
        showDiagnostic (.log e.record)
      carryOut (next result after)
    | none => return 1

end UniversalMachine.CommandLine

open UniversalMachine.CommandLine in
def main (arguments : List String) : IO UInt32 := do
  match Request.parse arguments with
  | none =>
    IO.eprint usage
    return 2
  | some request =>
    let level ← IO.getEnv "RUST_LOG"
    carryOut (request.action (level.bind logFilter?))
