import UniversalMachine.Assembly.Error

/-!
Lines of assembly source: labels, and at most one statement.

Reading a line goes from left to right. The operands of a statement are read before its head is
judged, so a faulty operand is reported even behind a head that means nothing.
-/

namespace UniversalMachine.Assembly

inductive Datum where
  | immediate (value : Int)
  | label (name : String)
  deriving DecidableEq, Repr

inductive Operand where
  | register (r : Register)
  | datum (d : Datum)
  deriving DecidableEq, Repr

/-- Something that takes one word of the image. -/
inductive Statement where
  | instruction (mnemonic : String) (operands : List Operand)
  | word (d : Datum)
  deriving DecidableEq, Repr

structure Line where
  number : Nat
  labels : List String
  statement : Option Statement
  deriving DecidableEq, Repr

structure Placed where
  token : Token
  column : Nat
  deriving DecidableEq, Repr

namespace Line

/-- The tokens before the first line end, unless something else than a token comes before it. -/
def tokens (number : Nat) : List Item → Except Error (List Placed)
  | [] => .ok []
  | item :: rest =>
    match item.lexeme with
    | .invalid text => .error (.malformed number (item.start + 1) (.unexpectedInput text))
    | .token .newline => .ok []
    | .token t => do
      let behind ← tokens number rest
      return ⟨t, item.start + 1⟩ :: behind

def splitLabels : List Placed → List String × List Placed
  | [] => ([], [])
  | [p] => ([], [p])
  | p :: q :: rest =>
    match p.token, q.token with
    | .identifier name, .colon => (name :: (splitLabels rest).1, (splitLabels rest).2)
    | _, _ => ([], p :: q :: rest)

def operand (number : Nat) (p : Placed) : Except Error Operand :=
  match p.token with
  | .register r => .ok (.register r)
  | .number value => .ok (.datum (.immediate value))
  | .hex value | .binary value =>
    if (value : Int) ≤ Lexer.signedMax then .ok (.datum (.immediate value))
    else .error (.malformed number p.column .numberTooLarge)
  | .char value => .ok (.datum (.immediate value.toNat))
  | .identifier name => .ok (.datum (.label name))
  | other => .error (.malformed number p.column (.expectedOperand other))

/-- Reads operands and commas in turn, behind the operands found so far. It gives all operands and
whether one more is expected. -/
def operandsFrom (number : Nat) (found : List Operand) :
    Bool → List Placed → Except Error (List Operand × Bool)
  | expecting, [] => .ok (found, expecting)
  | true, p :: rest => do
    let o ← operand number p
    operandsFrom number (found ++ [o]) false rest
  | false, p :: rest =>
    if p.token ≠ .comma then .error (.malformed number p.column .expectedComma)
    else operandsFrom number found true rest

def lastColumn (placed : List Placed) : Nat := (placed.getLast?.map Placed.column).getD 0

def operands (number : Nat) (placed : List Placed) : Except Error (List Operand) := do
  let (found, expecting) ← operandsFrom number [] true placed
  if expecting && !found.isEmpty then
    .error (.malformed number (lastColumn placed) .trailingComma)
  else return found

def sameName (s t : String) : Bool := s.toList.map Char.toLower == t.toList.map Char.toLower

def statementOf (number : Nat) (head : Placed) (operands : List Operand) : Except Error Statement :=
  match head.token with
  | .identifier name => .ok (.instruction (String.ofList (name.toList.map Char.toLower)) operands)
  | .directive name =>
    if sameName name "word" then
      match operands with
      | [.datum d] => .ok (.word d)
      | [.register _] => .error (.malformed number head.column .dataIsRegister)
      | _ => .error (.operandCount number ".word" 1 operands.length)
    else .error (.invalidDirective number name)
  | other => .error (.malformed number head.column (.expectedInstruction other))

def ofTokens (number : Nat) (placed : List Placed) : Except Error Line :=
  match splitLabels placed with
  | (labels, []) => .ok ⟨number, labels, none⟩
  | (labels, head :: rest) => do
    let found ← operands number rest
    let s ← statementOf number head found
    return ⟨number, labels, some s⟩

/-- Reads one line. Text behind the first line end is not looked at. -/
def parse (number : Nat) (text : List Char) : Except Error Line := do
  let placed ← tokens number (Lexer.items text)
  ofTokens number placed

end Line

end UniversalMachine.Assembly
