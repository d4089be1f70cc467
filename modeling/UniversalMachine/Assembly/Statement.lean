import UniversalMachine.Assembly.Line
import UniversalMachine.Program
import UniversalMachine.Text

/-!
Statements turned into instructions and words.

A check on a statement fails in a fixed order: the mnemonic, the number of operands, then the
operands from left to right.
-/

namespace UniversalMachine.Assembly

/-- What labels stand for. The first entry of a name counts. -/
abbrev SymbolTable := List (String × Word)

namespace Operand

def toRegister (line : Nat) (mnemonic : String) (position : Nat) : Operand → Except Error Register
  | .register r => .ok r
  | .datum (.immediate _) => .error (.malformed line 0 (.operandNotRegister position mnemonic))
  | .datum (.label name) => .error (.invalidRegister line name)

def toImmediate (line : Nat) (symbols : SymbolTable) : Operand → Except Error Word
  | .register r => .error (.malformed line 0 (.immediateIsRegister r))
  | .datum (.immediate value) =>
    if 0 ≤ value ∧ value ≤ (Word.maxImmediate.toNat : Int) then .ok (UInt32.ofNat value.toNat)
    else .error (.invalidImmediate line value)
  | .datum (.label name) =>
    match symbols.lookup name with
    | none => .error (.undefinedLabel line name)
    | some value =>
      if value ≤ Word.maxImmediate then .ok value else .error (.invalidImmediate line value.toNat)

end Operand

namespace Datum

/-- The word that a datum gives. Negative numbers are stored modulo `2 ^ 32`. -/
def toWord (line : Nat) (symbols : SymbolTable) : Datum → Except Error Word
  | .immediate value =>
    if -2147483648 ≤ value ∧ value ≤ 4294967295 then .ok (UInt32.ofInt value)
    else .error (.invalidImmediate line value)
  | .label name =>
    match symbols.lookup name with
    | none => .error (.undefinedLabel line name)
    | some value => .ok value

end Datum

namespace Statement

def ternary (make : Register → Register → Register → Instruction) (line : Nat) (mnemonic : String)
    (x y z : Operand) : Except Error Instruction := do
  let a ← x.toRegister line mnemonic 1
  let b ← y.toRegister line mnemonic 2
  let c ← z.toRegister line mnemonic 3
  return make a b c

def binary (make : Register → Register → Instruction) (line : Nat) (mnemonic : String)
    (x y : Operand) : Except Error Instruction := do
  let b ← x.toRegister line mnemonic 1
  let c ← y.toRegister line mnemonic 2
  return make b c

def unary (make : Register → Instruction) (line : Nat) (mnemonic : String) (x : Operand) :
    Except Error Instruction := do
  let c ← x.toRegister line mnemonic 1
  return make c

def toInstruction (line : Nat) (symbols : SymbolTable) (mnemonic : String)
    (operands : List Operand) : Except Error Instruction :=
  match Opcode.ofMnemonic? mnemonic with
  | none => .error (.unknownInstruction line mnemonic)
  | some op =>
    match op, operands with
    | .conditionalMove, [x, y, z] => ternary .conditionalMove line mnemonic x y z
    | .arrayIndex, [x, y, z] => ternary .arrayIndex line mnemonic x y z
    | .arrayAmendment, [x, y, z] => ternary .arrayAmendment line mnemonic x y z
    | .addition, [x, y, z] => ternary .addition line mnemonic x y z
    | .multiplication, [x, y, z] => ternary .multiplication line mnemonic x y z
    | .division, [x, y, z] => ternary .division line mnemonic x y z
    | .notAnd, [x, y, z] => ternary .notAnd line mnemonic x y z
    | .halt, [] => .ok .halt
    | .allocation, [x, y] => binary .allocation line mnemonic x y
    | .abandonment, [x] => unary .abandonment line mnemonic x
    | .output, [x] => unary .output line mnemonic x
    | .input, [x] => unary .input line mnemonic x
    | .loadProgram, [x, y] => binary .loadProgram line mnemonic x y
    | .orthography, [x, y] => do
      let a ← x.toRegister line mnemonic 1
      let value ← y.toImmediate line symbols
      return .orthography a value
    | op, operands => .error (.operandCount line mnemonic op.arity operands.length)

def encode (line : Nat) (symbols : SymbolTable) : Statement → Except Error Word
  | .instruction mnemonic operands => do
    let i ← toInstruction line symbols mnemonic operands
    return i.encode
  | .word d => d.toWord line symbols

end Statement

/-- The instruction that a single line of text stands for. Its labels define nothing, and an operand
that is a label stands for nothing. -/
def parseInstruction (text : String) : Except Error Instruction := do
  let line ← Line.parse 1 text.toList
  match line.statement with
  | none => .error (.malformed 1 1 .instructionMissing)
  | some (.word _) => .error (.malformed 1 1 .instructionIsData)
  | some (.instruction mnemonic operands) => Statement.toInstruction 1 [] mnemonic operands

def normalName (name : String) : String := String.ofList (Text.lowercase (Text.trim name.toList))

/-- The register with the given normal name: a letter, and a number of one byte. -/
def registerNamed? : List Char → Option Register
  | 'r' :: digits =>
    if Lexer.byteLength digits = 1 then (Digits.unsigned? digits).bind Register.ofIndex? else none
  | _ => none

def parseRegister (name : String) : Except Error Register :=
  match registerNamed? (normalName name).toList with
  | some r => .ok r
  | none => .error (.invalidRegister 0 (normalName name))

end UniversalMachine.Assembly
