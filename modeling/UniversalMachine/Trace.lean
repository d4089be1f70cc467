import UniversalMachine.Register
import UniversalMachine.Bytes
import UniversalMachine.Error

/-!
Execution traces: what the machine looked like before each instruction, as text and as stored bytes.

A stored trace is a count of eight bytes and then forty-eight bytes for each row, all numbers with
the least significant byte first. The codec that reads it back is assumed to allow bytes behind the
last row, and to ignore them.
-/

namespace UniversalMachine

structure TraceRow where
  cycle : UInt64
  pc : Word
  instruction : Word
  registers : Registers
  deriving DecidableEq, Repr

namespace TraceRow

def text (row : TraceRow) : String :=
  "[" ++ Digits.column 8 row.cycle.toNat ++ "] pc=0x" ++ Digits.hexLowerPadded 8 row.pc.toNat ++
    " word=" ++ Digits.hexUpperPadded 8 row.instruction.toNat ++ " regs=" ++
    " ".intercalate (row.registers.toList.map fun w => Digits.hexUpperPadded 8 w.toNat)

def size : Nat := 48

def toBytes (row : TraceRow) : Bytes :=
  Bytes.little 8 row.cycle.toNat ++ Bytes.little 4 row.pc.toNat ++
    Bytes.little 4 row.instruction.toNat ++
    row.registers.toList.flatMap fun w => Bytes.little 4 w.toNat

def wordAt (bytes : Bytes) (position : Nat) : Word :=
  UInt32.ofNat (Bytes.ofLittle ((bytes.drop position).take 4))

def ofBytes (bytes : Bytes) : TraceRow where
  cycle := UInt64.ofNat (Bytes.ofLittle (bytes.take 8))
  pc := wordAt bytes 8
  instruction := wordAt bytes 12
  registers := Vector.ofFn fun r => wordAt bytes (16 + 4 * r.val)

end TraceRow

namespace Trace

def encode (rows : List TraceRow) : Bytes :=
  Bytes.little 8 rows.length ++ rows.flatMap TraceRow.toBytes

/-- Reads a number of rows; it fails where the bytes run out. -/
def decodeRows : Nat → Bytes → Except DataError (List TraceRow)
  | 0, _ => .ok []
  | count + 1, bytes =>
    let row := bytes.take TraceRow.size
    if row.length < TraceRow.size then .error .truncatedTrace
    else do
      let rest ← decodeRows count (bytes.drop TraceRow.size)
      return TraceRow.ofBytes row :: rest

def decode (bytes : Bytes) : Except DataError (List TraceRow) :=
  let count := bytes.take 8
  if count.length < 8 then .error .truncatedTrace
  else decodeRows (Bytes.ofLittle count) (bytes.drop 8)

end Trace

end UniversalMachine
