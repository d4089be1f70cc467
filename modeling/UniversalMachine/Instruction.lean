import UniversalMachine.Opcode
import UniversalMachine.Register
import UniversalMachine.Error

/-!
Instructions, their words and their assembly text.

Decoding reads only the fields that the operator uses, so an instruction has many words; `encode`
gives the one whose unused bits are zero.
-/

namespace UniversalMachine

inductive Instruction where
  | conditionalMove (a b c : Register)
  | arrayIndex (a b c : Register)
  | arrayAmendment (a b c : Register)
  | addition (a b c : Register)
  | multiplication (a b c : Register)
  | division (a b c : Register)
  | notAnd (a b c : Register)
  | halt
  | allocation (b c : Register)
  | abandonment (c : Register)
  | output (c : Register)
  | input (c : Register)
  | loadProgram (b c : Register)
  | orthography (a : Register) (value : Word)
  deriving DecidableEq, Repr

namespace Instruction

def opcode : Instruction → Opcode
  | conditionalMove .. => .conditionalMove
  | arrayIndex .. => .arrayIndex
  | arrayAmendment .. => .arrayAmendment
  | addition .. => .addition
  | multiplication .. => .multiplication
  | division .. => .division
  | notAnd .. => .notAnd
  | halt => .halt
  | allocation .. => .allocation
  | abandonment .. => .abandonment
  | output .. => .output
  | input .. => .input
  | loadProgram .. => .loadProgram
  | orthography .. => .orthography

def orthography? (a : Register) (value : Word) : Except DataError Instruction :=
  if value ≤ Word.maxImmediate then .ok (orthography a value)
  else .error (.immediateOutOfRange value)

def encode (i : Instruction) : Word :=
  match i with
  | conditionalMove a b c | arrayIndex a b c | arrayAmendment a b c | addition a b c
  | multiplication a b c | division a b c | notAnd a b c =>
    Word.standard i.opcode.code a.toWord b.toWord c.toWord
  | halt => Word.standard i.opcode.code 0 0 0
  | allocation b c | loadProgram b c => Word.standard i.opcode.code 0 b.toWord c.toWord
  | abandonment c | output c | input c => Word.standard i.opcode.code 0 0 c.toWord
  | orthography a value => Word.orthography a.toWord value

/-- The instruction that a word stands for. It fails on the two operator numbers that name nothing.
-/
def decode (w : Word) : Except UnknownOpcode Instruction :=
  let a := Register.ofBits w.fieldA
  let b := Register.ofBits w.fieldB
  let c := Register.ofBits w.fieldC
  match Opcode.ofCode? w.opcodeField.toNat with
  | none => .error { code := w.opcodeField, word := w }
  | some .conditionalMove => .ok (conditionalMove a b c)
  | some .arrayIndex => .ok (arrayIndex a b c)
  | some .arrayAmendment => .ok (arrayAmendment a b c)
  | some .addition => .ok (addition a b c)
  | some .multiplication => .ok (multiplication a b c)
  | some .division => .ok (division a b c)
  | some .notAnd => .ok (notAnd a b c)
  | some .halt => .ok halt
  | some .allocation => .ok (allocation b c)
  | some .abandonment => .ok (abandonment c)
  | some .output => .ok (output c)
  | some .input => .ok (input c)
  | some .loadProgram => .ok (loadProgram b c)
  | some .orthography => .ok (orthography (Register.ofBits w.orthographyField) w.immediate)

def operandTexts : Instruction → List String
  | conditionalMove a b c | arrayIndex a b c | arrayAmendment a b c | addition a b c
  | multiplication a b c | division a b c | notAnd a b c => [a.name, b.name, c.name]
  | halt => []
  | allocation b c | loadProgram b c => [b.name, c.name]
  | abandonment c | output c | input c => [c.name]
  | orthography a value => [a.name, Digits.decimal value.toNat]

def text (i : Instruction) : String :=
  match i.operandTexts with
  | [] => i.opcode.mnemonic
  | operands => i.opcode.mnemonic ++ " " ++ ", ".intercalate operands

end Instruction

end UniversalMachine
