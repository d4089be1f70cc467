/-!
Machine words and the two layouts of an instruction word.

A standard word keeps the operator in bits 28 to 31 and three register numbers in the low nine bits.
An orthography word keeps a register number in bits 25 to 27 and an immediate value in the low 25
bits.
-/

namespace UniversalMachine

/-- A machine word. Arithmetic on words is modulo `2 ^ 32`. -/
abbrev Word := UInt32

namespace Word

def opcodeField (w : Word) : Word := w >>> 28
def fieldA (w : Word) : Word := (w >>> 6) &&& 7
def fieldB (w : Word) : Word := (w >>> 3) &&& 7
def fieldC (w : Word) : Word := w &&& 7
def orthographyField (w : Word) : Word := (w >>> 25) &&& 7

def maxImmediate : Word := 0x1FFFFFF

def immediate (w : Word) : Word := w &&& maxImmediate

/-- What a program reads once its input has ended. -/
def endOfInput : Word := 0xFFFFFFFF

def maxOutput : Word := 255

def orthographyCode : Word := 13

/-- A standard word. Only the low three bits of each register number are used. -/
def standard (code a b c : Word) : Word :=
  (code <<< 28) ||| ((a &&& 7) <<< 6) ||| ((b &&& 7) <<< 3) ||| (c &&& 7)

def orthography (register value : Word) : Word :=
  (orthographyCode <<< 28) ||| ((register &&& 7) <<< 25) ||| (value &&& maxImmediate)

end Word

end UniversalMachine
