import UniversalMachine.Assembly.Statement

/-!
Whole sources, assembled in two passes.

The first pass reads every line and gives each label the offset of the next statement. The second
pass encodes the statements. So a label may be used before its line, and a line that cannot be read
is reported before any statement that cannot be encoded.
-/

namespace UniversalMachine.Assembly

namespace SymbolTable

/-- Gives the labels of one line the offset of the next statement. -/
def define (line offset : Nat) : List String → SymbolTable → Except Error SymbolTable
  | [], symbols => .ok symbols
  | name :: rest, symbols =>
    if UInt32.size ≤ offset then .error (.programTooLarge offset)
    else if (symbols.lookup name).isSome then .error (.duplicateLabel line name)
    else define line offset rest ((name, UInt32.ofNat offset) :: symbols)

end SymbolTable

/-- The outcome of the first pass: the lines that carry a statement, and what the labels stand for.
-/
structure Layout where
  lines : List Line
  symbols : SymbolTable
  deriving DecidableEq, Repr

namespace Layout

def ofLines (number offset : Nat) (symbols : SymbolTable) : List (List Char) → Except Error Layout
  | [] => .ok ⟨[], symbols⟩
  | text :: rest => do
    let line ← Line.parse number text
    let known ← SymbolTable.define number offset line.labels symbols
    match line.statement with
    | none => ofLines (number + 1) offset known rest
    | some _ =>
      let behind ← ofLines (number + 1) (offset + 1) known rest
      return ⟨line :: behind.lines, behind.symbols⟩

def ofSource (source : String) : Except Error Layout := ofLines 1 0 [] (Text.lines source.toList)

def encodeLines (symbols : SymbolTable) : List Line → Except Error Program
  | [] => .ok []
  | line :: rest =>
    match line.statement with
    | none => encodeLines symbols rest
    | some s => do
      let w ← s.encode line.number symbols
      let behind ← encodeLines symbols rest
      return w :: behind

def encode (layout : Layout) : Except Error Program := encodeLines layout.symbols layout.lines

end Layout

def assemble (source : String) : Except Error Program := do
  let layout ← Layout.ofSource source
  layout.encode

end UniversalMachine.Assembly
