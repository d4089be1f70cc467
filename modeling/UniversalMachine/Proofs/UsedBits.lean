import UniversalMachine.Proofs.FaultTable

/-! The bits of a word that count.
A word is read through its operator and through the fields which that operator has. Encoding puts
zeros everywhere else, so two words are one instruction when they agree on the bits that are read.
-/

namespace UniversalMachine

open Abstract (operator)

variable {v w : Word} {i : Instruction}

section Masks

/-- The bits that are read of a word whose operator has this number. -/
def Word.usedBits (code : Word) : Word :=
  if code ≤ 6 then 0xF00001FF
  else if code = 7 then 0xF0000000
  else if code = 8 ∨ code = 12 then 0xF000003F
  else if code ≤ 11 then 0xF0000007
  else 0xFFFFFFFF

/-- The number of low bits that hold the operands. -/
def Opcode.operandBits : Opcode → Nat
  | .halt => 0
  | .abandonment | .output | .input => 3
  | .allocation | .loadProgram => 6
  | .orthography => 28
  | _ => 9

theorem Opcode.operandBits_le (op : Opcode) : op.operandBits ≤ 28 := by
  cases op <;> decide

theorem Opcode.usedBits_toNat (op : Opcode) :
    (Word.usedBits op.code).toNat = 2 ^ 28 * 15 + (2 ^ op.operandBits - 1) := by
  cases op <;> decide

/-- A mask over the operator and some low bits takes the word apart below the operator. -/
theorem Word.and_toNat {mask : Word} {k : Nat} (hk : k ≤ 28)
    (hmask : mask.toNat = 2 ^ 28 * 15 + (2 ^ k - 1)) :
    (w &&& mask).toNat = 2 ^ 28 * (w.toNat / 2 ^ 28) + w.toNat % 2 ^ k := by
  have hle : 2 ^ k ≤ 2 ^ 28 := Nat.pow_le_pow_right (by decide) hk
  have hpos : 0 < 2 ^ k := Nat.two_pow_pos k
  have hhigh : mask.toNat / 2 ^ 28 = 2 ^ 4 - 1 := by
    omega
  have hmod : mask.toNat % 2 ^ 28 = 2 ^ k - 1 := by
    omega
  have hoperator : w.toNat / 2 ^ 28 < 2 ^ 4 := Nat.div_lt_of_lt_mul (UInt32.toNat_lt w)
  rw [UInt32.toNat_and, ← Nat.div_add_mod (w.toNat &&& mask.toNat) (2 ^ 28)]
  congr 1
  · rw [Nat.and_div_two_pow, hhigh, Nat.and_two_pow_sub_one_eq_mod, Nat.mod_eq_of_lt hoperator]
  · rw [Nat.and_mod_two_pow, hmod, Nat.and_two_pow_sub_one_eq_mod]
    exact Nat.mod_mod_of_dvd w.toNat (Nat.pow_dvd_pow 2 hk)

end Masks

section Operands

variable {code : Word} (hcode : code.toNat < 16) (w : Word)
include hcode

theorem Word.three_operands_toNat :
    (standard code (Abstract.registerA w).toWord (Abstract.registerB w).toWord
      (Abstract.registerC w).toWord).toNat = 2 ^ 28 * code.toNat + w.toNat % 2 ^ 9 := by
  rw [standard_toNat hcode, Register.toWord_toNat, Register.toWord_toNat, Register.toWord_toNat]
  simp only [Abstract.registerA, Abstract.registerB, Abstract.registerC, Abstract.register]
  omega

theorem Word.two_operands_toNat :
    (standard code 0 (Abstract.registerB w).toWord (Abstract.registerC w).toWord).toNat =
      2 ^ 28 * code.toNat + w.toNat % 2 ^ 6 := by
  rw [standard_toNat hcode, Register.toWord_toNat, Register.toWord_toNat, UInt32.toNat_zero]
  simp only [Abstract.registerB, Abstract.registerC, Abstract.register]
  omega

theorem Word.one_operand_toNat :
    (standard code 0 0 (Abstract.registerC w).toWord).toNat =
      2 ^ 28 * code.toNat + w.toNat % 2 ^ 3 := by
  rw [standard_toNat hcode, Register.toWord_toNat, UInt32.toNat_zero]
  simp only [Abstract.registerC, Abstract.register]
  omega

theorem Word.no_operand_toNat :
    (standard code 0 0 0).toNat = 2 ^ 28 * code.toNat + w.toNat % 2 ^ 0 := by
  rw [standard_toNat hcode, UInt32.toNat_zero]
  omega

omit hcode in
theorem Word.literal_operands_toNat :
    (orthography (Abstract.target w).toWord (Abstract.literal w)).toNat =
      2 ^ 28 * orthographyCode.toNat + w.toNat % 2 ^ 28 := by
  have hcode : orthographyCode.toNat = 13 := rfl
  rw [orthography_toNat, Register.toWord_toNat, Abstract.literal, UInt32.toNat_ofNat', hcode]
  simp only [Abstract.target, Abstract.register]
  omega

end Operands

theorem Word.toNat_operator (w : Word) : (w >>> 28).toNat = operator w := opcodeField_toNat w

namespace Instruction

theorem operator_of_decode (h : decode w = .ok i) : w >>> 28 = i.opcode.code := by
  obtain ⟨hop, -⟩ := readFrom_of_decode h
  apply UInt32.toNat_inj.mp
  rw [Word.toNat_operator, hop]

/-- The word of a decoded instruction: the operator and the operands of the word it came from. -/
theorem encode_toNat_of_decode (h : decode w = .ok i) :
    i.encode.toNat = 2 ^ 28 * (w.toNat / 2 ^ 28) + w.toNat % 2 ^ i.opcode.operandBits := by
  obtain ⟨hop, hfields⟩ := readFrom_of_decode h
  have hword : w.toNat / 2 ^ 28 = i.opcode.code.toNat := hop
  have hcode : i.opcode.code.toNat < 16 := by
    have hw := UInt32.toNat_lt w
    omega
  rw [hword]
  cases i with
  | conditionalMove a b c | arrayIndex a b c | arrayAmendment a b c | addition a b c
  | multiplication a b c | division a b c | notAnd a b c =>
    obtain ⟨rfl, rfl, rfl⟩ := hfields
    exact Word.three_operands_toNat hcode w
  | halt => exact Word.no_operand_toNat hcode w
  | allocation b c | loadProgram b c =>
    obtain ⟨rfl, rfl⟩ := hfields
    exact Word.two_operands_toNat hcode w
  | abandonment c | output c | input c =>
    obtain rfl := hfields
    exact Word.one_operand_toNat hcode w
  | orthography a value =>
    obtain ⟨rfl, rfl⟩ := hfields
    exact Word.literal_operands_toNat w

theorem encode_of_decode (h : decode w = .ok i) : i.encode = w &&& Word.usedBits (w >>> 28) := by
  apply UInt32.toNat_inj.mp
  rw [operator_of_decode h, encode_toNat_of_decode h]
  exact (Word.and_toNat i.opcode.operandBits_le i.opcode.usedBits_toNat).symm

theorem exists_decode_eq_ok_iff : (∃ i, decode w = .ok i) ↔ w >>> 28 ≤ 13 := by
  have hle : w >>> 28 ≤ 13 ↔ operator w ≤ 13 := by
    rw [UInt32.le_iff_toNat_le, Word.toNat_operator]
    rfl
  rw [hle]
  constructor
  · rintro ⟨i, hi⟩
    obtain ⟨hop, -⟩ := readFrom_of_decode hi
    rw [hop]
    cases i.opcode <;> decide
  · intro hknown
    cases hd : decode w with
    | ok i => exact ⟨i, rfl⟩
    | error e =>
      obtain ⟨hunknown, -⟩ := Machine.decode_eq_error_iff.mp hd
      omega

theorem decode_of_unknown (h : (13 : Word) < w >>> 28) : decode w = .error ⟨w >>> 28, w⟩ := by
  have hlt : operator w < 16 := Nat.div_lt_of_lt_mul (UInt32.toNat_lt w)
  have hgt : 13 < operator w := by
    rw [← Word.toNat_operator]
    exact UInt32.lt_iff_toNat_lt.mp h
  refine Machine.decode_eq_error_iff.mpr ⟨by omega, ?_⟩
  rw [← Word.toNat_operator, UInt32.ofNat_toNat]

/-- Instructions that fit in a word are told apart by their words. -/
theorem eq_of_encode_eq {j : Instruction} (hi : i.Fits) (hj : j.Fits) (h : i.encode = j.encode) :
    i = j := by
  have hdecoded := decode_encode hi
  rw [h, decode_encode hj] at hdecoded
  exact (Except.ok.inj hdecoded).symm

theorem decode_same_iff :
    (∃ i, decode v = .ok i ∧ decode w = .ok i) ↔
      v >>> 28 ≤ 13 ∧ v >>> 28 = w >>> 28 ∧
        v &&& Word.usedBits (v >>> 28) = w &&& Word.usedBits (v >>> 28) := by
  constructor
  · rintro ⟨i, hv, hw⟩
    have hsame : v >>> 28 = w >>> 28 := by
      rw [operator_of_decode hv, operator_of_decode hw]
    refine ⟨exists_decode_eq_ok_iff.mp ⟨i, hv⟩, hsame, ?_⟩
    rw [← encode_of_decode hv, hsame, ← encode_of_decode hw]
  · rintro ⟨hknown, hsame, hbits⟩
    obtain ⟨i, hi⟩ := exists_decode_eq_ok_iff.mpr hknown
    obtain ⟨j, hj⟩ := exists_decode_eq_ok_iff.mpr (hsame ▸ hknown)
    have hencode : i.encode = j.encode := by
      rw [encode_of_decode hi, encode_of_decode hj, hbits, hsame]
    obtain rfl := eq_of_encode_eq (fits_of_decode hi) (fits_of_decode hj) hencode
    exact ⟨i, hi, hj⟩

/-- A value that is too large loses its high bits. -/
theorem decode_encode_orthography (a : Register) (value : Word) :
    decode (orthography a value).encode = .ok (orthography a (value % 0x2000000)) := by
  have hmod : (value % 0x2000000).toNat = value.toNat % 2 ^ 25 := UInt32.toNat_mod value _
  have hfits : (orthography a (value % 0x2000000)).Fits := by
    apply UInt32.le_iff_toNat_le.mpr
    rw [hmod]
    exact Nat.le_of_lt_succ (Nat.mod_lt _ (by decide))
  have hword : (orthography a value).encode = (orthography a (value % 0x2000000)).encode := by
    apply UInt32.toNat_inj.mp
    rw [encode, encode, Word.orthography_toNat, Word.orthography_toNat, hmod, Nat.mod_mod]
  rw [hword]
  exact decode_encode hfits

/-- Words and instructions. A word is an instruction unless its operator is unknown, and the
instruction's own word keeps exactly the bits that the operator uses; words that agree on these are
the same instruction. An instruction survives its word, but for the high bits of a large value. -/
theorem codec_bits :
    (∀ w : Word,
      ((∃ i, decode w = .ok i) ↔ w >>> 28 ≤ 13) ∧
      ((13 : Word) < w >>> 28 → decode w = .error ⟨w >>> 28, w⟩) ∧
      ∀ i, decode w = .ok i → i.encode = w &&& Word.usedBits (w >>> 28)) ∧
    (∀ v w : Word, (∃ i, decode v = .ok i ∧ decode w = .ok i) ↔
      v >>> 28 ≤ 13 ∧ v >>> 28 = w >>> 28 ∧
        v &&& Word.usedBits (v >>> 28) = w &&& Word.usedBits (v >>> 28)) ∧
    (∀ i : Instruction, (∀ a value, i = .orthography a value → value ≤ 0x1FFFFFF) →
      decode i.encode = .ok i) ∧
    ∀ (a : Register) (value : Word), 0x1FFFFFF < value →
      decode (orthography a value).encode = .ok (orthography a (value % 0x2000000)) := by
  refine ⟨fun w => ⟨exists_decode_eq_ok_iff, decode_of_unknown, fun i => encode_of_decode⟩,
    fun v w => decode_same_iff, ?_, fun a value _ => decode_encode_orthography a value⟩
  intro i hsmall
  apply decode_encode
  cases i with
  | orthography a value => exact hsmall a value rfl
  | _ => trivial

/-- A word with stray bits and its clean form, a word that is no instruction, and a value that is
too large by one bit. -/
theorem codec_bits_stray :
    decode 0xC7FFFF12 = .ok (loadProgram 2 2) ∧
      (loadProgram 2 2).encode = 0xC7FFFF12 &&& 0xF000003F ∧
      (∃ i, decode 0xC7FFFF12 = .ok i ∧ decode 0xC0000012 = .ok i) ∧
      decode 0xE0000001 = .error ⟨14, 0xE0000001⟩ ∧
      decode (loadProgram 2 2).encode = .ok (loadProgram 2 2) ∧
      decode (orthography 7 0x2000041).encode = .ok (orthography 7 0x41) := by
  obtain ⟨hwords, hsame, hsmall, hlarge⟩ := codec_bits
  have hstray : decode 0xC7FFFF12 = .ok (loadProgram 2 2) := rfl
  obtain ⟨-, -, hencode⟩ := hwords 0xC7FFFF12
  obtain ⟨-, hunknown, -⟩ := hwords 0xE0000001
  exact ⟨hstray, hencode _ hstray, (hsame _ _).mpr (by decide), hunknown (by decide),
    hsmall _ (by simp), hlarge 7 0x2000041 (by decide)⟩

end Instruction

end UniversalMachine
