import UniversalMachine.Console
import UniversalMachine.Machine.Event
import UniversalMachine.Trace

/-!
The machine: eight registers, a heap whose block 0 is the program, a place in that program, and a
console.

A step fetches the word at the current place, decodes it, moves the place on by one and then
executes the instruction. All operands are read before a register is written. A fault stops the
machine; a stopped machine does nothing more.
-/

namespace UniversalMachine

structure Config where
  maxCycles : Option Nat := none
  maxBlockWords : Word := 0xFFFFFFFF
  logInstructions : Bool := false
  recordRows : Bool := false
  flushOutput : Bool := true
  log : LogFilter := none
  deriving DecidableEq, Repr

/-- The trace has one row for each instruction decoded since it was last taken. A machine that a
fault has halted has no reason for it, and neither has a machine that still runs. -/
structure Machine where
  registers : Registers
  pc : Word
  cycles : Nat
  halted : Bool
  reason : Option HaltReason
  heap : Heap
  console : Console
  config : Config
  rows : Array TraceRow
  log : Array Event
  reason_eq_none : halted = false → reason = none
  deriving DecidableEq, Repr

namespace Machine

def boot (p : Program) (console : Console) (config : Config) : Machine where
  registers := .zero
  pc := 0
  cycles := 0
  halted := false
  reason := none
  heap := .ofProgram p config.maxBlockWords
  console := console.setFlushing config.flushOutput
  config := config
  rows := #[]
  log := #[]
  reason_eq_none _ := rfl

def reg (m : Machine) (r : Register) : Word := m.registers.read r

def setReg (m : Machine) (r : Register) (value : Word) : Machine :=
  { m with registers := m.registers.write r value }

def halt (m : Machine) (reason : HaltReason) : Machine :=
  { m with halted := true, reason := some reason, reason_eq_none := Bool.noConfusion }

/-- Halts a machine for a fault, which is no reason. -/
def stop (m : Machine) : Machine := { m with halted := true, reason_eq_none := Bool.noConfusion }

def report (m : Machine) (e : Event) : Machine :=
  if m.config.log.admits e.level then { m with log := m.log.push e } else m

/-- Executes one instruction that was fetched at `origin`. -/
def execute (i : Instruction) (origin : Word) (m : Machine) : Machine × Option Fault :=
  match i with
  | .conditionalMove a b c => (if m.reg c = 0 then m else m.setReg a (m.reg b), none)
  | .arrayIndex a b c =>
    match m.heap.read (m.reg b) (m.reg c) with
    | .ok value => (m.setReg a value, none)
    | .error e => (m, some (.heap origin e))
  | .arrayAmendment a b c =>
    match m.heap.write (m.reg a) (m.reg b) (m.reg c) with
    | (.ok (), heap) => ({ m with heap := heap }, none)
    | (.error e, heap) => ({ m with heap := heap }, some (.heap origin e))
  | .addition a b c => (m.setReg a (m.reg b + m.reg c), none)
  | .multiplication a b c => (m.setReg a (m.reg b * m.reg c), none)
  | .division a b c =>
    if m.reg c = 0 then (m, some (.divisionByZero origin))
    else (m.setReg a (m.reg b / m.reg c), none)
  | .notAnd a b c => (m.setReg a (~~~(m.reg b &&& m.reg c)), none)
  | .halt => (m.halt .halt, none)
  | .allocation b c =>
    match m.heap.allocate (m.reg c) with
    | (.ok index, heap) =>
      (({ m with heap := heap }.report (.allocated index (m.reg c))).setReg b index, none)
    | (.error e, heap) => ({ m with heap := heap }, some (.heap origin e))
  | .abandonment c =>
    match m.heap.reclaim (m.reg c) with
    | (.ok (), heap) => ({ m with heap := heap }.report (.reclaimed (m.reg c)), none)
    | (.error e, heap) => ({ m with heap := heap }, some (.heap origin e))
  | .output c =>
    if Word.maxOutput < m.reg c then (m, some (.outputRange origin (m.reg c)))
    else
      match m.console.write (m.reg c).toUInt8 with
      | (.ok (), console) => ({ m with console := console }, none)
      | (.error failure, console) => ({ m with console := console }, some (.device origin failure))
  | .input c =>
    match m.console.read with
    | (.ok value, console) => ({ m with console := console }.setReg c value, none)
    | (.error failure, console) => ({ m with console := console }, some (.device origin failure))
  | .loadProgram b c =>
    if m.reg b = 0 then ({ m with pc := m.reg c }, none)
    else
      match m.heap.loadProgram (m.reg b) with
      | (.ok (), heap) =>
        ({ m with heap := heap, pc := m.reg c }.report (.loaded (m.reg b) heap.program.size), none)
      | (.error e, heap) => ({ m with heap := heap }, some (.heap origin e))
  | .orthography a value => (m.setReg a value, none)

def fetch (m : Machine) : Except Fault (Word × Instruction) :=
  match m.heap.program[m.pc.toNat]? with
  | none => .error (.pcOutOfRange m.pc m.heap.program.size)
  | some w =>
    match Instruction.decode w with
    | .error e => .error (.unknownOpcode m.pc e)
    | .ok i => .ok (w, i)

def observe (m : Machine) (w : Word) (i : Instruction) : Machine :=
  let m := if m.config.logInstructions then m.report (.executing m.cycles m.pc i) else m
  if m.config.recordRows then
    { m with rows := m.rows.push ⟨UInt64.ofNat m.cycles, m.pc, w, m.registers⟩ }
  else m

def exhausted (m : Machine) : Bool :=
  match m.config.maxCycles with
  | none => false
  | some limit => limit ≤ m.cycles

def advance (m : Machine) : Machine × Option Fault :=
  match m.fetch with
  | .error fault => (m.stop, some fault)
  | .ok (w, i) =>
    let origin := m.pc
    match execute i origin { m.observe w i with pc := origin + 1 } with
    | (m', none) => ({ m' with cycles := m'.cycles + 1 }, none)
    | (m', some fault) => (m'.stop, some fault)

/-- The machine behind a step, and the fault that the step ended in. -/
def tick (m : Machine) : Machine × Option Fault :=
  if m.halted then (m, none)
  else if m.exhausted then (m.halt .cycleLimit, none)
  else m.advance

def step (m : Machine) : Machine := m.tick.1

def stepFault? (m : Machine) : Option Fault := m.tick.2

def steps : Nat → Machine → Machine
  | 0, m => m
  | n + 1, m => steps n m.step

end Machine

end UniversalMachine
