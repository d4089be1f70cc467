import UniversalMachine.Assembly.Source
import UniversalMachine.CommandLine.Action
import UniversalMachine.CommandLine.Arguments
import UniversalMachine.CommandLine.Notice

/-!
The three commands: run an image, assemble a source, list an image.

The status is 0 on success, 1 on any failure, and 2 when a run ends at its cycle limit.
-/

namespace UniversalMachine.CommandLine

structure LogPolicy where
  command : LogFilter
  machine : LogFilter
  deriving DecidableEq, Repr

/-- An explicit filter goes for everything. Otherwise warnings are logged, and more with growing
verbosity; tracing a run opens the machine's log only. -/
def LogPolicy.choose (verbosity : Nat) (trace : Bool) (explicit : Option LogFilter) : LogPolicy :=
  match explicit with
  | some filter => ⟨filter, filter⟩
  | none =>
    match verbosity with
    | 0 => ⟨some .warn, if trace then some .trace else some .warn⟩
    | 1 => ⟨some .debug, some .debug⟩
    | _ => ⟨some .trace, some .trace⟩

namespace Action

def notify (policy : LogPolicy) (notice : Notice) (next : Action) : Action :=
  if policy.command.admits notice.record.level then .diagnose (.log notice.record) next else next

def diagnoseAll : List Diagnostic → Action → Action
  | [], next => next
  | d :: rest, next => .diagnose d (diagnoseAll rest next)

def fail (f : Failed) : Action := .diagnose (.line ("um: " ++ f.text)) (.exit 1)

theorem perform_fail (fuel : Nat) (world : World) (f : Failed) :
    (fail f).perform fuel world = some ⟨1, [], [.line ("um: " ++ f.text)], world.files⟩ := by
  rw [fail, perform, perform]
  rfl

end Action

def loadImage (name : String) (next : Program → Action) : Action :=
  .readFile name fun
    | .error failure => .fail (.loadingImage name (.file failure))
    | .ok bytes =>
      match Program.ofBytes bytes with
      | .error e => .fail (.loadingImage name e)
      | .ok p => next p

def RunOptions.config (o : RunOptions) (policy : LogPolicy) : Config where
  maxCycles := o.maxCycles
  maxBlockWords := o.maxBlockWords.getD 0xFFFFFFFF
  logInstructions := o.trace
  recordRows := o.traceOut.isSome
  log := policy.machine

def writeTrace (policy : LogPolicy) (name : String) (rows : List TraceRow)
    (next : Except Failed Unit → Action) : Action :=
  .writeFile name (Trace.encode rows) fun
    | .error failure => next (.error (.writingTrace name failure))
    | .ok () => .notify policy (.wroteTrace rows.length name) (next (.ok ()))

def statistics (outcome : Machine.Outcome) (console : Console) : List Diagnostic :=
  [.line ("cycles:            " ++ Digits.decimal outcome.cycles),
    .line ("bytes in/out:      " ++ Digits.decimal console.input.taken ++ "/" ++
      Digits.decimal console.output.written),
    .line ("allocations:       " ++ Digits.decimal outcome.stats.allocations),
    .line ("reclamations:      " ++ Digits.decimal outcome.stats.reclamations),
    .line ("peak live blocks:  " ++ Digits.decimal outcome.stats.peak),
    .line ("program loads:     " ++ Digits.decimal outcome.stats.loads)]

/-- The end of a run that stopped by a fault. A trace that cannot be written is only a warning. -/
def afterFault (policy : LogPolicy) (o : RunOptions) (fault : Fault) (m : Machine) : Action :=
  let failed : Action := .fail (.running m.cycles fault)
  match o.traceOut with
  | none => failed
  | some name =>
    writeTrace policy name m.rows.toList fun
      | .error f => .notify policy (.traceNotWritten f) failed
      | .ok () => failed

def afterTrace (policy : LogPolicy) (o : RunOptions) (outcome : Machine.Outcome) : Action :=
  match outcome.reason with
  | .halt => .exit 0
  | .cycleLimit =>
    .notify policy (.cycleLimitReached outcome.cycles)
      (.diagnose (.line ("um: stopped after reaching the cycle limit of " ++
        Digits.decimal (o.maxCycles.getD outcome.cycles))) (.exit 2))

def afterStop (policy : LogPolicy) (o : RunOptions) (outcome : Machine.Outcome) (m : Machine) :
    Action :=
  .diagnoseAll (if o.stats then statistics outcome m.console else []) <|
    match o.traceOut with
    | none => afterTrace policy o outcome
    | some name =>
      writeTrace policy name outcome.rows fun
        | .error f => .fail f
        | .ok () => afterTrace policy o outcome

def runProgram (policy : LogPolicy) (o : RunOptions) (p : Program) : Action :=
  .run p (o.config policy) fun
    | .error fault, m => afterFault policy o fault m
    | .ok outcome, m => afterStop policy o outcome m

def run (policy : LogPolicy) (o : RunOptions) : Action :=
  loadImage o.image fun p =>
    .notify policy (.loadedImage o.image p.checksum) <|
      if o.traceOut.isSome && o.maxCycles.isNone then
        .notify policy .unboundedTrace (runProgram policy o p)
      else runProgram policy o p

def imageName (source : String) : String := withExtension source "um"

def assemble (policy : LogPolicy) (source : String) (output : Option String) : Action :=
  let image := output.getD (imageName source)
  .readFile source fun
    | .error failure => .fail (.readingSource source failure)
    | .ok bytes =>
      match Text.ofUtf8? bytes with
      | none => .fail (.decodingSource source)
      | some text =>
        match Assembly.assemble text with
        | .error e => .fail (.assembling source e)
        | .ok p =>
          .writeFile image p.toBytes fun
            | .error failure => .fail (.writingImage image failure)
            | .ok () => .notify policy (.assembled p.length image) (.exit 0)

def disassemble (image : String) : Action :=
  loadImage image fun p => .print (Text.toUtf8 (Listing.ofProgram p)) (.exit 0)

def versionText : String := "um 0.1.0\n"

/-- The forms of a command line, shown as help and where a line is refused. -/
def usage : String :=
  "usage: um [-v] run [IMAGE] [--max-cycles N] [--max-block-words WORDS] [--trace]\n" ++
  "                   [--trace-out FILE] [--stats]\n" ++
  "       um [-v] asm SOURCE [-o OUT]\n" ++
  "       um [-v] disasm IMAGE\n" ++
  "       um --version\n" ++
  "       um --help\n"

def Command.trace : Command → Bool
  | .run o => o.trace
  | _ => false

def Command.action (policy : LogPolicy) : Command → Action
  | .run o => CommandLine.run policy o
  | .assemble source output => CommandLine.assemble policy source output
  | .disassemble image => CommandLine.disassemble image

def Request.action (explicit : Option LogFilter) : Request → Action
  | .version => .print (Text.toUtf8 versionText) (.exit 0)
  | .help => .print (Text.toUtf8 usage) (.exit 0)
  | .invoke ⟨verbosity, command⟩ =>
    command.action (LogPolicy.choose verbosity command.trace explicit)

end UniversalMachine.CommandLine
