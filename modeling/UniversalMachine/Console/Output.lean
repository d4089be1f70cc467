import UniversalMachine.Bytes
import UniversalMachine.Error

/-!
The machine's output: one byte at a time to a device that may refuse it, with a flush behind each
byte if that is asked for.
-/

namespace UniversalMachine

inductive WriteOutcome where
  | accepted
  | nothing
  | failed (failure : Failure)
  deriving DecidableEq, Repr

/-- What one call to flush gives, and what the calls to write give from then on if that has changed:
a device may hold bytes back and have room again once it is flushed. -/
structure FlushOutcome where
  failure : Option Failure
  writes : Option (List WriteOutcome)
  deriving DecidableEq, Repr

/-- An output with the answers of its device. Behind the last answer a byte is accepted and a flush
succeeds. The count of bytes written leaves out those whose flush has failed. -/
structure OutputChannel where
  writes : List WriteOutcome
  flushes : List FlushOutcome
  flushing : Bool
  delivered : Array UInt8
  flushCalls : Nat
  written : Nat
  deriving DecidableEq, Repr

namespace OutputChannel

/-- A device whose writes do not depend on its flushes. -/
def ofDevice (writes : List WriteOutcome) (flushes : List (Option Failure)) : OutputChannel :=
  ⟨writes, flushes.map fun failure => ⟨failure, none⟩, true, #[], 0, 0⟩

def collecting : OutputChannel := ofDevice [] []

def next : List WriteOutcome → WriteOutcome × List WriteOutcome
  | [] => (.accepted, [])
  | .failed failure :: rest =>
    if failure.kind = .interrupted then next rest else (.failed failure, rest)
  | outcome :: rest => (outcome, rest)

def nextFlush (channel : OutputChannel) : FlushOutcome := channel.flushes.headD ⟨none, none⟩

def flush (channel : OutputChannel) : Except Failure Unit × OutputChannel :=
  let outcome := channel.nextFlush
  let flushed :=
    { channel with
      writes := outcome.writes.getD channel.writes
      flushes := channel.flushes.tail
      flushCalls := channel.flushCalls + 1 }
  match outcome.failure with
  | some failure => (.error failure, flushed)
  | none => (.ok (), flushed)

def deliver (channel : OutputChannel) (b : UInt8) : Except Failure Unit × OutputChannel :=
  match next channel.writes with
  | (.accepted, rest) =>
    (.ok (), { channel with writes := rest, delivered := channel.delivered.push b })
  | (.nothing, rest) => (.error .nothingWritten, { channel with writes := rest })
  | (.failed failure, rest) => (.error failure, { channel with writes := rest })

def count (channel : OutputChannel) : OutputChannel :=
  { channel with written := channel.written + 1 }

/-- Writes one byte, and flushes behind it if that is asked for. A byte whose flush fails has been
delivered but is not counted. -/
def write (channel : OutputChannel) (b : UInt8) : Except Failure Unit × OutputChannel :=
  match channel.deliver b with
  | (.error failure, after) => (.error failure, after)
  | (.ok (), after) =>
    if after.flushing then
      match after.flush with
      | (.error failure, flushed) => (.error failure, flushed)
      | (.ok (), flushed) => (.ok (), flushed.count)
    else (.ok (), after.count)

end OutputChannel

end UniversalMachine
