import UniversalMachine.Bytes
import UniversalMachine.Program
import UniversalMachine.Register
import Mathlib.Algebra.Group.Nat.Defs
import Mathlib.Logic.Function.Basic
import Mathlib.Logic.Relation

/-! The abstract Universal Machine: the table of the fourteen operators as a relation.
Nothing is said about where a block is kept: an allocation may give any index that is not 0 and
names no block. All operands are read in the state before the step. -/

namespace UniversalMachine.Abstract

/-- A partial map from indices to blocks in which index 0 is present. -/
@[ext] structure Memory where
  lookup : Word → Option (List Word)
  program_present : (lookup 0).isSome = true

namespace Memory

def program (m : Memory) : List Word := (m.lookup 0).get m.program_present

def bind (m : Memory) (index : Word) (block : List Word) : Memory where
  lookup := Function.update m.lookup index (some block)
  program_present := by
    rw [Function.update_apply]
    split
    · rfl
    · exact m.program_present

def unbind (m : Memory) (index : Word) (h : index ≠ 0) : Memory where
  lookup := Function.update m.lookup index none
  program_present := by
    rw [Function.update_of_ne h.symm]
    exact m.program_present

theorem lookup_bind (m : Memory) (index : Word) (block : List Word) (i : Word) :
    (m.bind index block).lookup i = if i = index then some block else m.lookup i :=
  Function.update_apply m.lookup index (some block) i

theorem lookup_unbind (m : Memory) (index : Word) (h : index ≠ 0) (i : Word) :
    (m.unbind index h).lookup i = if i = index then none else m.lookup i :=
  Function.update_apply m.lookup index none i

end Memory

@[ext] structure State where
  registers : Register → Word
  finger : Word
  memory : Memory
  input : Bytes
  output : Bytes

def State.set (s : State) (r : Register) (value : Word) : State :=
  { s with registers := Function.update s.registers r value }

/-- The state in which a program starts. -/
def initial (p : Program) (input : Bytes) : State where
  registers := fun _ => 0
  finger := 0
  memory := ⟨Function.update (fun _ => none) 0 (some p), rfl⟩
  input := input
  output := []

section Fields

def operator (w : Word) : Nat := w.toNat / 2 ^ 28

theorem mod_eight_lt (n : Nat) : n % 8 < 8 := Nat.mod_lt n (by decide)

/-- The register whose number is the three low bits of `n`. -/
def register (n : Nat) : Register := ⟨n % 8, mod_eight_lt n⟩

def registerA (w : Word) : Register := register (w.toNat / 64)
def registerB (w : Word) : Register := register (w.toNat / 8)
def registerC (w : Word) : Register := register w.toNat

/-- The register that an orthography word names. -/
def target (w : Word) : Register := register (w.toNat / 2 ^ 25)

/-- The value that an orthography word carries. -/
def literal (w : Word) : Word := UInt32.ofNat (w.toNat % 2 ^ 25)

end Fields

/-- What the word `w` does to a state whose finger has moved past it. -/
inductive Effect (w : Word) (s : State) : State → Prop where
  | moved : operator w = 0 → s.registers (registerC w) ≠ 0 →
      Effect w s (s.set (registerA w) (s.registers (registerB w)))
  | notMoved : operator w = 0 → s.registers (registerC w) = 0 → Effect w s s
  | arrayIndex {block : List Word} {value : Word} : operator w = 1 →
      s.memory.lookup (s.registers (registerB w)) = some block →
      block[(s.registers (registerC w)).toNat]? = some value →
      Effect w s (s.set (registerA w) value)
  | arrayAmendment {block : List Word} : operator w = 2 →
      s.memory.lookup (s.registers (registerA w)) = some block →
      (s.registers (registerB w)).toNat < block.length →
      Effect w s { s with
        memory := s.memory.bind (s.registers (registerA w))
          (block.set (s.registers (registerB w)).toNat (s.registers (registerC w))) }
  | addition : operator w = 3 →
      Effect w s (s.set (registerA w) (UInt32.ofNat
        ((s.registers (registerB w)).toNat + (s.registers (registerC w)).toNat)))
  | multiplication : operator w = 4 →
      Effect w s (s.set (registerA w) (UInt32.ofNat
        ((s.registers (registerB w)).toNat * (s.registers (registerC w)).toNat)))
  | division : operator w = 5 → s.registers (registerC w) ≠ 0 →
      Effect w s (s.set (registerA w) (UInt32.ofNat
        ((s.registers (registerB w)).toNat / (s.registers (registerC w)).toNat)))
  | notAnd : operator w = 6 →
      Effect w s (s.set (registerA w)
        (~~~(s.registers (registerB w) &&& s.registers (registerC w))))
  | halt : operator w = 7 → Effect w s s
  | allocation {index : Word} : operator w = 8 → index ≠ 0 → s.memory.lookup index = none →
      Effect w s (State.set { s with
        memory := s.memory.bind index (List.replicate (s.registers (registerC w)).toNat 0) }
        (registerB w) index)
  | abandonment {block : List Word} (hne : s.registers (registerC w) ≠ 0) : operator w = 9 →
      s.memory.lookup (s.registers (registerC w)) = some block →
      Effect w s { s with memory := s.memory.unbind (s.registers (registerC w)) hne }
  | output : operator w = 10 → (s.registers (registerC w)).toNat ≤ 255 →
      Effect w s { s with output := s.output ++ [(s.registers (registerC w)).toUInt8] }
  | inputByte {b : UInt8} {rest : Bytes} : operator w = 11 → s.input = b :: rest →
      Effect w s (State.set { s with input := rest } (registerC w) b.toUInt32)
  | inputEnd : operator w = 11 → s.input = [] →
      Effect w s (s.set (registerC w) 0xFFFFFFFF)
  | jump : operator w = 12 → s.registers (registerB w) = 0 →
      Effect w s { s with finger := s.registers (registerC w) }
  | loadProgram {block : List Word} : operator w = 12 → s.registers (registerB w) ≠ 0 →
      s.memory.lookup (s.registers (registerB w)) = some block →
      Effect w s { s with memory := s.memory.bind 0 block, finger := s.registers (registerC w) }
  | orthography : operator w = 13 → Effect w s (s.set (target w) (literal w))

/-- One step: the word under the finger takes effect, behind the move of the finger. -/
inductive Step (s t : State) : Prop where
  | intro (w : Word) : s.memory.program[s.finger.toNat]? = some w →
      Effect w { s with finger := s.finger + 1 } t → Step s t

/-- The word under the finger is a halt. -/
def State.AtHalt (s : State) : Prop :=
  ∃ w, s.memory.program[s.finger.toNat]? = some w ∧ operator w = 7

/-- Any number of steps. -/
def Steps : State → State → Prop := Relation.ReflTransGen Step

end UniversalMachine.Abstract
