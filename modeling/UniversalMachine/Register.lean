import UniversalMachine.Word
import UniversalMachine.Digits

/-!
The eight registers and the register file.
-/

namespace UniversalMachine

abbrev Register := Fin 8

namespace Register

def ofIndex? (index : Nat) : Option Register :=
  if h : index < 8 then some ⟨index, h⟩ else none

/-- The register named by the low three bits of a word. -/
def ofBits (bits : Word) : Register := ⟨bits.toNat % 8, Nat.mod_lt _ (by decide)⟩

def toWord (r : Register) : Word := UInt32.ofNat r.val

def name (r : Register) : String := "r" ++ Digits.decimal r.val

end Register

abbrev Registers := Vector Word 8

namespace Registers

def zero : Registers := Vector.replicate 8 0

def read (file : Registers) (r : Register) : Word := file[r.val]

def write (file : Registers) (r : Register) (value : Word) : Registers :=
  file.set r.val value r.isLt

@[simp] theorem read_write_same (file : Registers) (r : Register) (value : Word) :
    (file.write r value).read r = value := by
  simp [read, write]

theorem read_write_of_ne (file : Registers) {r s : Register} (value : Word) (h : r ≠ s) :
    (file.write r value).read s = file.read s := by
  have hne : r.val ≠ s.val := fun e => h (Fin.ext e)
  simp [read, write, Vector.getElem_set_ne, hne]

end Registers

end UniversalMachine
