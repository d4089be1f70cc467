import UniversalMachine.Console.Input
import UniversalMachine.Console.Output

/-!
The console: an input and an output.
-/

namespace UniversalMachine

structure Console where
  input : InputChannel
  output : OutputChannel
  deriving DecidableEq, Repr

namespace Console

/-- A console that reads from the given bytes and collects what is written. -/
def ofBytes (bytes : Bytes) : Console := ⟨.ofBytes bytes, .collecting⟩

def read (c : Console) : Except Failure Word × Console :=
  let (result, input) := c.input.read
  (result, { c with input })

def write (c : Console) (b : UInt8) : Except Failure Unit × Console :=
  let (result, output) := c.output.write b
  (result, { c with output })

def flush (c : Console) : Except Failure Unit × Console :=
  let (result, output) := c.output.flush
  (result, { c with output })

def setFlushing (c : Console) (on : Bool) : Console :=
  { c with output := { c.output with flushing := on } }

def delivered (c : Console) : Bytes := c.output.delivered.toList

end Console

end UniversalMachine
