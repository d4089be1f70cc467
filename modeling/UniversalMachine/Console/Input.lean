import UniversalMachine.Bytes
import UniversalMachine.Error

/-!
The machine's input: one byte at a time from a device that may fail, be interrupted or end.
-/

namespace UniversalMachine

inductive ReadOutcome where
  | byte (b : UInt8)
  | nothing
  | failed (failure : Failure)
  deriving DecidableEq, Repr

/-- An input with the answers of its device. Behind the last answer the device gives nothing. Once
that has been seen the device is left alone. -/
structure InputChannel where
  device : List ReadOutcome
  ended : Bool
  taken : Nat
  deriving DecidableEq, Repr

namespace InputChannel

def ofDevice (device : List ReadOutcome) : InputChannel := ⟨device, false, 0⟩

def ofBytes (bytes : Bytes) : InputChannel := ofDevice (bytes.map .byte)

def next : List ReadOutcome → ReadOutcome × List ReadOutcome
  | [] => (.nothing, [])
  | .failed failure :: rest =>
    if failure.kind = .interrupted then next rest else (.failed failure, rest)
  | outcome :: rest => (outcome, rest)

/-- Reads one byte, or all ones at the end of the input. -/
def read (channel : InputChannel) : Except Failure Word × InputChannel :=
  if channel.ended then (.ok Word.endOfInput, channel)
  else
    match next channel.device with
    | (.byte b, rest) =>
      (.ok b.toUInt32, { channel with device := rest, taken := channel.taken + 1 })
    | (.nothing, rest) => (.ok Word.endOfInput, { channel with device := rest, ended := true })
    | (.failed failure, rest) => (.error failure, { channel with device := rest })

end InputChannel

end UniversalMachine
