import UniversalMachine.Heap

/-!
Faults: the conditions that stop a machine for good.
-/

namespace UniversalMachine

/-- A fault names the place of the instruction that caused it, unless there was none. -/
inductive Fault where
  | data (e : DataError)
  | unknownOpcode (pc : Word) (e : UnknownOpcode)
  | heap (pc : Word) (e : HeapError)
  | divisionByZero (pc : Word)
  | outputRange (pc value : Word)
  | pcOutOfRange (pc : Word) (size : Nat)
  | device (pc : Word) (failure : Failure)
  deriving DecidableEq, Repr

namespace Fault

inductive Kind where
  | malformedImage
  | unknownOpcode
  | outOfBoundsArray
  | outOfBoundsOffset
  | invalidReclaim
  | divisionByZero
  | outputRange
  | pcOutOfRange
  | allocationTooLarge
  | heapExhausted
  | outOfMemory
  | device
  | other
  deriving DecidableEq, Repr

def Kind.text : Kind → String
  | malformedImage => "malformed image"
  | unknownOpcode => "unknown opcode"
  | outOfBoundsArray => "out of bounds array"
  | outOfBoundsOffset => "out of bounds offset"
  | invalidReclaim => "invalid reclaim"
  | divisionByZero => "division by zero"
  | outputRange => "output range"
  | pcOutOfRange => "program counter out of range"
  | allocationTooLarge => "allocation too large"
  | heapExhausted => "heap exhausted"
  | outOfMemory => "out of memory"
  | device => "i/o"
  | other => "other"

def kind : Fault → Kind
  | data (.malformedImage _) => .malformedImage
  | data (.file _) => .device
  | data _ => .other
  | unknownOpcode .. => .unknownOpcode
  | heap _ (.notLive _) => .outOfBoundsArray
  | heap _ (.offsetOutOfBounds ..) => .outOfBoundsOffset
  | heap _ (.invalidReclaim _) => .invalidReclaim
  | heap _ (.allocationTooLarge ..) => .allocationTooLarge
  | heap _ .indicesExhausted => .heapExhausted
  | heap _ (.outOfMemory _) => .outOfMemory
  | divisionByZero _ => .divisionByZero
  | outputRange .. => .outputRange
  | pcOutOfRange .. => .pcOutOfRange
  | device .. => .device

def pc? : Fault → Option Word
  | data _ => none
  | unknownOpcode pc _ | heap pc _ | divisionByZero pc | outputRange pc _ | pcOutOfRange pc _
  | device pc _ => some pc

def placeText (pc : Word) : String := "0x" ++ Digits.hexLower pc.toNat

def message : Fault → String
  | data e => "Spec error: " ++ e.message
  | unknownOpcode pc e =>
    "Unknown opcode " ++ Digits.decimal e.code.toNat ++ " in word 0x" ++
      Digits.hexLowerPadded 8 e.word.toNat ++ " at pc " ++ placeText pc
  | heap pc e => e.message ++ " at pc " ++ placeText pc
  | divisionByZero pc => "Division by zero at pc " ++ placeText pc
  | outputRange pc value =>
    "Output value " ++ Digits.decimal value.toNat ++ " out of byte range at pc " ++ placeText pc
  | pcOutOfRange pc size =>
    "Program counter " ++ placeText pc ++ " past end of program (" ++ Digits.decimal size ++
      " words)"
  | device pc failure => "I/O error at pc " ++ placeText pc ++ ": " ++ failure.text

/-- The fault's text, followed by the texts of what it comes from. -/
def causes (f : Fault) : List String :=
  match f with
  | data e => f.message :: e.causes
  | heap _ e => [f.message, e.message]
  | device _ failure => [f.message, failure.text]
  | _ => [f.message]

end Fault

end UniversalMachine
