import UniversalMachine.Word

/-!
The fourteen operators, their numbers and their mnemonics.
-/

namespace UniversalMachine

inductive Opcode where
  | conditionalMove
  | arrayIndex
  | arrayAmendment
  | addition
  | multiplication
  | division
  | notAnd
  | halt
  | allocation
  | abandonment
  | output
  | input
  | loadProgram
  | orthography
  deriving DecidableEq, Repr

namespace Opcode

def all : List Opcode :=
  [conditionalMove, arrayIndex, arrayAmendment, addition, multiplication, division, notAnd, halt,
    allocation, abandonment, output, input, loadProgram, orthography]

def code : Opcode → Word
  | conditionalMove => 0
  | arrayIndex => 1
  | arrayAmendment => 2
  | addition => 3
  | multiplication => 4
  | division => 5
  | notAnd => 6
  | halt => 7
  | allocation => 8
  | abandonment => 9
  | output => 10
  | input => 11
  | loadProgram => 12
  | orthography => 13

/-- The operator with this number. Fourteen and up name none. -/
def ofCode? (code : Nat) : Option Opcode := all[code]?

def mnemonic : Opcode → String
  | conditionalMove => "cmov"
  | arrayIndex => "index"
  | arrayAmendment => "amend"
  | addition => "add"
  | multiplication => "mul"
  | division => "div"
  | notAnd => "nand"
  | halt => "halt"
  | allocation => "alloc"
  | abandonment => "free"
  | output => "out"
  | input => "in"
  | loadProgram => "load"
  | orthography => "ortho"

/-- The operator with this mnemonic, whatever the case of its ASCII letters. -/
def ofMnemonic? (name : String) : Option Opcode :=
  all.find? fun op => op.mnemonic.toList == name.toList.map Char.toLower

def arity : Opcode → Nat
  | halt => 0
  | abandonment | output | input => 1
  | allocation | loadProgram | orthography => 2
  | _ => 3

theorem ofCode?_code (op : Opcode) : ofCode? op.code.toNat = some op := by
  cases op <;> rfl

end Opcode

end UniversalMachine
