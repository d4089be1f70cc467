import UniversalMachine.Word
import UniversalMachine.Digits

/-!
What can be wrong with a value from outside the machine, and what a device can report.
-/

namespace UniversalMachine

/-- The kind of a device failure. A call that was interrupted can be made again. -/
inductive Failure.Kind where
  | interrupted
  | writeZero
  | named (word : String)
  deriving DecidableEq, Repr

structure Failure where
  kind : Failure.Kind
  text : String
  deriving DecidableEq, Repr

def Failure.nothingWritten : Failure := ⟨.writeZero, "failed to write whole buffer"⟩

structure UnknownOpcode where
  code : Word
  word : Word
  deriving DecidableEq, Repr

def UnknownOpcode.message (e : UnknownOpcode) : String :=
  "Unknown opcode " ++ Digits.decimal e.code.toNat ++ " in word 0x" ++
    Digits.hexUpperPadded 8 e.word.toNat

inductive DataError where
  | malformedImage (bytes : Nat)
  | immediateOutOfRange (value : Word)
  | truncatedTrace
  | file (failure : Failure)
  deriving DecidableEq, Repr

namespace DataError

def message : DataError → String
  | malformedImage bytes =>
    "Malformed program image: " ++ Digits.decimal bytes ++
      " bytes is not a multiple of the 4-byte word size"
  | immediateOutOfRange value =>
    "Immediate value 0x" ++ Digits.hexLower value.toNat ++ " does not fit in 25 bits"
  | truncatedTrace => "Trace encoding error: io error: unexpected end of file"
  | file failure => "I/O error: " ++ failure.text

/-- The error's text, followed by that of the failure it comes from. -/
def causes (e : DataError) : List String :=
  match e with
  | file failure => [e.message, failure.text]
  | _ => [e.message]

end DataError

end UniversalMachine
