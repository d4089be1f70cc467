import UniversalMachine.Instruction
import Mathlib.Algebra.Group.Nat.Defs

/-! The fields of an instruction word as numbers, and the instructions that survive encoding. -/

namespace UniversalMachine

namespace Word

theorem opcodeField_toNat (w : Word) : w.opcodeField.toNat = w.toNat / 2 ^ 28 := by
  simp [opcodeField, Nat.shiftRight_eq_div_pow]

theorem and_seven_toNat (w : Word) : (w &&& 7).toNat = w.toNat % 8 := by
  rw [UInt32.toNat_and]
  exact Nat.and_two_pow_sub_one_eq_mod w.toNat 3

theorem fieldA_toNat (w : Word) : w.fieldA.toNat = w.toNat / 64 % 8 := by
  rw [fieldA, and_seven_toNat]
  simp [Nat.shiftRight_eq_div_pow]

theorem fieldB_toNat (w : Word) : w.fieldB.toNat = w.toNat / 8 % 8 := by
  rw [fieldB, and_seven_toNat]
  simp [Nat.shiftRight_eq_div_pow]

theorem fieldC_toNat (w : Word) : w.fieldC.toNat = w.toNat % 8 := and_seven_toNat w

theorem orthographyField_toNat (w : Word) : w.orthographyField.toNat = w.toNat / 2 ^ 25 % 8 := by
  rw [orthographyField, and_seven_toNat]
  simp [Nat.shiftRight_eq_div_pow]

theorem immediate_toNat (w : Word) : w.immediate.toNat = w.toNat % 2 ^ 25 := by
  rw [immediate, UInt32.toNat_and]
  exact Nat.and_two_pow_sub_one_eq_mod w.toNat 25

/-- Fields that do not overlap add up. -/
theorem toNat_shiftLeft_or {x y s : Word} (hs : s.toNat < 32)
    (hx : x.toNat * 2 ^ s.toNat < 2 ^ 32) (hy : y.toNat < 2 ^ s.toNat) :
    (x <<< s ||| y).toNat = x.toNat * 2 ^ s.toNat + y.toNat := by
  have hshift : (x <<< s).toNat = x.toNat <<< s.toNat := by
    rw [UInt32.toNat_shiftLeft, Nat.mod_eq_of_lt hs, Nat.shiftLeft_eq, Nat.mod_eq_of_lt hx]
  rw [UInt32.toNat_or, hshift, ← Nat.shiftLeft_add_eq_or_of_lt hy, Nat.shiftLeft_eq]

theorem standard_toNat {code : Word} (hcode : code.toNat < 16) (a b c : Word) :
    (standard code a b c).toNat =
      code.toNat * 2 ^ 28 + a.toNat % 8 * 64 + b.toNat % 8 * 8 + c.toNat % 8 := by
  have ha := and_seven_toNat a
  have hb := and_seven_toNat b
  have hc := and_seven_toNat c
  have h3 : (((b &&& 7) <<< 3) ||| (c &&& 7)).toNat = b.toNat % 8 * 8 + c.toNat % 8 := by
    rw [toNat_shiftLeft_or] <;> simp only [UInt32.reduceToNat, Nat.reducePow] <;> omega
  have h6 : (((a &&& 7) <<< 6) ||| (((b &&& 7) <<< 3) ||| (c &&& 7))).toNat =
      a.toNat % 8 * 64 + (b.toNat % 8 * 8 + c.toNat % 8) := by
    rw [toNat_shiftLeft_or] <;> simp only [UInt32.reduceToNat, Nat.reducePow] <;> omega
  rw [standard, UInt32.or_assoc, UInt32.or_assoc, toNat_shiftLeft_or] <;>
    simp only [UInt32.reduceToNat, Nat.reducePow] <;> omega

theorem orthography_toNat (r value : Word) :
    (orthography r value).toNat = 13 * 2 ^ 28 + r.toNat % 8 * 2 ^ 25 + value.toNat % 2 ^ 25 := by
  have hr := and_seven_toNat r
  have hv : (value &&& maxImmediate).toNat = value.toNat % 2 ^ 25 := immediate_toNat value
  have hcode : orthographyCode.toNat = 13 := rfl
  have h25 : (((r &&& 7) <<< 25) ||| (value &&& maxImmediate)).toNat =
      r.toNat % 8 * 2 ^ 25 + value.toNat % 2 ^ 25 := by
    rw [toNat_shiftLeft_or] <;> simp only [UInt32.reduceToNat] <;> omega
  rw [orthography, UInt32.or_assoc, toNat_shiftLeft_or] <;>
    simp only [UInt32.reduceToNat] <;> omega

end Word

theorem Register.toWord_toNat (r : Register) : r.toWord.toNat = r.val := by
  have h := r.isLt
  rw [Register.toWord, UInt32.toNat_ofNat']
  omega

theorem Register.ofBits_eq {bits : Word} {r : Register} (h : bits.toNat = r.val) :
    Register.ofBits bits = r := by
  apply Fin.ext
  have hr := r.isLt
  simp only [Register.ofBits]
  omega

namespace Word

/-- A standard word gives back its operator and its registers. -/
theorem fields_standard (op : Opcode) (a b c : Register) :
    let w := standard op.code a.toWord b.toWord c.toWord
    Opcode.ofCode? w.opcodeField.toNat = some op ∧ Register.ofBits w.fieldA = a ∧
      Register.ofBits w.fieldB = b ∧ Register.ofBits w.fieldC = c := by
  intro w
  have hcode : op.code.toNat < 16 := by
    cases op <;> decide
  have hw := standard_toNat hcode a.toWord b.toWord c.toWord
  simp only [Register.toWord_toNat] at hw
  have ha := a.isLt
  have hb := b.isLt
  have hc := c.isLt
  refine ⟨?_, Register.ofBits_eq ?_, Register.ofBits_eq ?_, Register.ofBits_eq ?_⟩
  · have hop : w.opcodeField.toNat = op.code.toNat := by
      rw [opcodeField_toNat, hw]
      omega
    rw [hop]
    exact Opcode.ofCode?_code op
  · rw [fieldA_toNat, hw]
    omega
  · rw [fieldB_toNat, hw]
    omega
  · rw [fieldC_toNat, hw]
    omega

theorem fields_orthography (r : Register) {value : Word} (hv : value ≤ maxImmediate) :
    let w := orthography r.toWord value
    Opcode.ofCode? w.opcodeField.toNat = some .orthography ∧
      Register.ofBits w.orthographyField = r ∧ w.immediate = value := by
  intro w
  have hw := orthography_toNat r.toWord value
  rw [Register.toWord_toNat] at hw
  have hr := r.isLt
  have hfit : value.toNat < 2 ^ 25 := Nat.lt_succ_of_le (UInt32.le_iff_toNat_le.mp hv)
  refine ⟨?_, Register.ofBits_eq ?_, ?_⟩
  · have hop : w.opcodeField.toNat = 13 := by
      rw [opcodeField_toNat, hw]
      omega
    rw [hop]
    rfl
  · rw [orthographyField_toNat, hw]
    omega
  · apply UInt32.toNat_inj.mp
    rw [immediate_toNat, hw]
    omega

end Word

namespace Instruction

/-- Only an immediate value can be too large for a word. -/
def Fits : Instruction → Prop
  | orthography _ value => value ≤ Word.maxImmediate
  | _ => True

theorem fits_of_decode {w : Word} {i : Instruction} (h : decode w = .ok i) : i.Fits := by
  have him : w.immediate ≤ Word.maxImmediate := by
    rw [UInt32.le_iff_toNat_le, Word.immediate_toNat]
    exact Nat.le_of_lt_succ (Nat.mod_lt w.toNat (by decide))
  unfold decode at h
  split at h <;> cases h <;> first | exact him | trivial

theorem decode_encode {i : Instruction} (h : i.Fits) : decode i.encode = .ok i := by
  cases i with
  | orthography a value =>
    obtain ⟨hop, ha, hv⟩ := Word.fields_orthography a h
    simp [encode, decode, hop, ha, hv]
  | _ =>
    have hzero : (0 : Word) = Register.toWord 0 := rfl
    simp [encode, decode, opcode, hzero, Word.fields_standard]

end Instruction

end UniversalMachine
