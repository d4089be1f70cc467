import UniversalMachine.Machine

/-!
Running a machine until it stops.

A program need not stop, so the number of steps that a run may take is given. A run that does not
stop within it has no outcome; a larger number never changes an outcome.
-/

namespace UniversalMachine.Machine

structure Outcome where
  cycles : Nat
  reason : HaltReason
  stats : HeapStats
  rows : List TraceRow
  deriving DecidableEq, Repr

def settle : Nat → Machine → Machine × Option Fault
  | 0, m => (m, none)
  | fuel + 1, m =>
    if m.halted then (m, none)
    else
      match m.tick with
      | (m', none) => settle fuel m'
      | (m', some fault) => (m', some fault)

def takeRows (m : Machine) : List TraceRow × Machine := (m.rows.toList, { m with rows := #[] })

def announce (m : Machine) : Machine := m.report (.started m.heap.program.size m.config.maxCycles)

/-- The outcome of a machine that has halted. Without a reason it is taken to be an instruction. -/
def conclude (m : Machine) : Outcome × Machine :=
  let reason := m.reason.getD .halt
  let (rows, after) := (m.report (.stopped m.cycles reason)).takeRows
  (⟨m.cycles, reason, m.heap.stats, rows⟩, after)

def finish : Machine × Option Fault → Option (Except Fault Outcome × Machine)
  | (m, some fault) => some (.error fault, m.report (.failed m.cycles fault))
  | (m, none) =>
    if m.halted then
      let (outcome, after) := m.conclude
      some (.ok outcome, after)
    else none

/-- Runs a machine until it halts. A machine that has halted before, be it by a fault, gives an
outcome at once. -/
def run (fuel : Nat) (m : Machine) : Option (Except Fault Outcome × Machine) :=
  finish (settle fuel m.announce)

end UniversalMachine.Machine
