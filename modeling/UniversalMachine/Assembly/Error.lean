import UniversalMachine.Assembly.Lexer

/-!
What can be wrong with assembly source.
-/

namespace UniversalMachine.Assembly

inductive Defect where
  | unexpectedInput (text : String)
  | expectedInstruction (found : Token)
  | expectedComma
  | expectedOperand (found : Token)
  | numberTooLarge
  | trailingComma
  | dataIsRegister
  | operandNotRegister (position : Nat) (mnemonic : String)
  | immediateIsRegister (r : Register)
  | instructionIsData
  | instructionMissing
  deriving DecidableEq, Repr

def Defect.message : Defect → String
  | unexpectedInput text => "unexpected input '" ++ text ++ "'"
  | expectedInstruction found => "expected instruction, found " ++ found.describe
  | expectedComma => "expected ','"
  | expectedOperand found => "expected operand, found " ++ found.describe
  | numberTooLarge => "number too large"
  | trailingComma => "trailing ','"
  | dataIsRegister => ".word takes a number or label"
  | operandNotRegister position mnemonic =>
    "operand " ++ Digits.decimal position ++ " of " ++ mnemonic ++ " must be a register"
  | immediateIsRegister r => "ortho takes an immediate, found register " ++ r.name
  | instructionIsData => "expected instruction, found .word"
  | instructionMissing => "Empty instruction"

/-- Lines count from one. A column counts bytes from one, and is zero where the defect is found
after the line has been read. -/
inductive Error where
  | malformed (line column : Nat) (defect : Defect)
  | unknownInstruction (line : Nat) (mnemonic : String)
  | invalidRegister (line : Nat) (name : String)
  | invalidImmediate (line : Nat) (value : Int)
  | operandCount (line : Nat) (mnemonic : String) (expected found : Nat)
  | undefinedLabel (line : Nat) (name : String)
  | duplicateLabel (line : Nat) (name : String)
  | invalidDirective (line : Nat) (name : String)
  | programTooLarge (words : Nat)
  deriving DecidableEq, Repr

namespace Error

def message : Error → String
  | malformed line column defect =>
    "Syntax error at line " ++ Digits.decimal line ++ ", column " ++ Digits.decimal column ++
      ": " ++ defect.message
  | unknownInstruction line mnemonic =>
    "Unknown instruction at line " ++ Digits.decimal line ++ ": " ++ mnemonic
  | invalidRegister line name => "Invalid register at line " ++ Digits.decimal line ++ ": " ++ name
  | invalidImmediate line value =>
    "Invalid immediate value at line " ++ Digits.decimal line ++ ": " ++ Digits.signed value
  | operandCount line mnemonic expected found =>
    "Wrong number of operands at line " ++ Digits.decimal line ++ ": " ++ mnemonic ++ " takes " ++
      Digits.decimal expected ++ ", found " ++ Digits.decimal found
  | undefinedLabel line name => "Undefined label at line " ++ Digits.decimal line ++ ": " ++ name
  | duplicateLabel line name => "Duplicate label at line " ++ Digits.decimal line ++ ": " ++ name
  | invalidDirective line name =>
    "Invalid directive at line " ++ Digits.decimal line ++ ": ." ++ name
  | programTooLarge words =>
    "Program too large: " ++ Digits.decimal words ++ " words exceed the addressable range"

def line? : Error → Option Nat
  | malformed line .. | unknownInstruction line _ | invalidRegister line _
  | invalidImmediate line _ | operandCount line .. | undefinedLabel line _
  | duplicateLabel line _ | invalidDirective line _ => some line
  | programTooLarge _ => none

end Error

end UniversalMachine.Assembly
