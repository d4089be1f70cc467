import UniversalMachine.Instruction
import UniversalMachine.Sha256

/-!
Program images: a list of words, stored as bytes with the most significant byte of each word first.

A listing shows a program as text, with a line for each word: its offset, the word itself and the
instruction it stands for. A word that stands for none is shown as data, so that the last column is
assembly source for the program.
-/

namespace UniversalMachine

abbrev Program := List Word

namespace Program

def ofInstructions (instructions : List Instruction) : Program :=
  instructions.map Instruction.encode

def toBytes (p : Program) : Bytes := p.flatMap fun w => Bytes.big 4 w.toNat

/-- The words of a byte string, four bytes each. Up to three bytes left at the end are dropped. -/
def wordsOfBytes : Bytes → Program
  | p :: q :: r :: s :: rest => UInt32.ofNat (Bytes.ofBig [p, q, r, s]) :: wordsOfBytes rest
  | _ => []

def ofBytes (bytes : Bytes) : Except DataError Program :=
  if bytes.length % 4 = 0 then .ok (wordsOfBytes bytes) else .error (.malformedImage bytes.length)

def checksum (p : Program) : String := (Sha256.digest p.toBytes).hex

def summary (p : Program) : String :=
  "Universal Machine Program\n" ++
  "  Words:       " ++ Digits.decimal p.length ++ "\n" ++
  "  Bytes:       " ++ Digits.decimal (4 * p.length) ++ "\n" ++
  "  SHA-256:     " ++ p.checksum ++ "\n"

end Program

namespace Listing

def statement (w : Word) : String :=
  match Instruction.decode w with
  | .ok i => i.text
  | .error e => ".word 0x" ++ Digits.hexUpperPadded 8 w.toNat ++ "  ; " ++ e.message

def line (offset : Word) (w : Word) : String :=
  "0x" ++ Digits.hexUpperPadded 8 offset.toNat ++ ":  " ++ Digits.hexUpperPadded 8 w.toNat ++
    "  " ++ statement w

def header (p : Program) : String :=
  "; Universal Machine Disassembly\n" ++
  "; Words: " ++ Digits.decimal p.length ++ "\n" ++
  "; SHA-256: " ++ p.checksum ++ "\n" ++
  "\n"

/-- The lines of a program whose first word has the given offset, each with its end. -/
def body : Nat → Program → List String
  | _, [] => []
  | offset, w :: rest => (line (UInt32.ofNat offset) w ++ "\n") :: body (offset + 1) rest

def ofProgram (p : Program) : String := header p ++ String.join (body 0 p)

end Listing

end UniversalMachine
