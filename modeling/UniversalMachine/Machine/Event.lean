import UniversalMachine.Log
import UniversalMachine.Machine.Fault

/-!
What a machine reports while it works.
-/

namespace UniversalMachine

/-- Why a machine stopped without a fault. -/
inductive HaltReason where
  | halt
  | cycleLimit
  deriving DecidableEq, Repr

def HaltReason.name : HaltReason → String
  | halt => "Halt"
  | cycleLimit => "CycleLimit"

inductive Event where
  | started (words : Nat) (maxCycles : Option Nat)
  | executing (cycle : Nat) (pc : Word) (instruction : Instruction)
  | allocated (index size : Word)
  | reclaimed (index : Word)
  | loaded (index : Word) (words : Nat)
  | failed (cycles : Nat) (fault : Fault)
  | stopped (cycles : Nat) (reason : HaltReason)
  deriving DecidableEq, Repr

namespace Event

def level : Event → Level
  | executing .. => .trace
  | _ => .debug

def limitText : Option Nat → String
  | none => "None"
  | some n => "Some(" ++ Digits.decimal n ++ ")"

def message : Event → String
  | started .. => "starting execution"
  | executing _ _ i => i.text
  | allocated .. => "allocate"
  | reclaimed _ => "reclaim"
  | loaded .. => "load program"
  | failed .. => "execution failed"
  | stopped .. => "execution stopped"

def fields : Event → List (String × String)
  | started words maxCycles =>
    [("words", Digits.decimal words), ("max_cycles", limitText maxCycles)]
  | executing cycle pc _ => [("cycle", Digits.decimal cycle), ("pc", Digits.decimal pc.toNat)]
  | allocated index size =>
    [("index", Digits.decimal index.toNat), ("size", Digits.decimal size.toNat)]
  | reclaimed index => [("index", Digits.decimal index.toNat)]
  | loaded index words => [("index", Digits.decimal index.toNat), ("words", Digits.decimal words)]
  | failed cycles fault => [("cycles", Digits.decimal cycles), ("error", fault.message)]
  | stopped cycles reason => [("cycles", Digits.decimal cycles), ("reason", reason.name)]

def record (e : Event) : LogRecord := ⟨e.level, e.message, e.fields⟩

end Event

end UniversalMachine
