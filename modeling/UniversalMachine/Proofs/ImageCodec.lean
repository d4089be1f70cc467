import UniversalMachine.Program
import Mathlib.Algebra.Group.Nat.Defs
import Mathlib.Data.Set.Function

/-! Program images.
The programs are the byte strings whose length is a multiple of four: each such string is the image
of one program, the words of a program come back from its image, and every other string is refused
with its length. A word is stored with its most significant byte first. -/

namespace UniversalMachine

theorem Bytes.getElem?_little {width k : Nat} (hk : k < width) (n : Nat) :
    (little width n)[k]? = some (UInt8.ofNat (n / 256 ^ k)) := by
  induction width generalizing k n with
  | zero => exact absurd hk (Nat.not_lt_zero k)
  | succ width ih =>
    cases k with
    | zero =>
      have hlow : UInt8.ofNat (n % 256) = UInt8.ofNat (n / 256 ^ 0) := by
        rw [pow_zero, Nat.div_one]
        exact UInt8.ofNat_mod_size
      rw [little, List.getElem?_cons_zero, hlow]
    | succ k =>
      rw [little, List.getElem?_cons_succ, ih (Nat.lt_of_succ_lt_succ hk), Nat.div_div_eq_div_mul,
        pow_succ']

namespace Program

variable {bytes : Bytes} {p : Program}

theorem toBytes_cons (w : Word) (p : Program) :
    toBytes (w :: p) = Bytes.big 4 w.toNat ++ p.toBytes :=
  List.flatMap_cons

theorem length_toBytes (p : Program) : p.toBytes.length = 4 * p.length := by
  induction p with
  | nil => rfl
  | cons w p ih =>
    rw [toBytes_cons, List.length_append, Bytes.length_big, ih, List.length_cons]
    omega

section Reading

theorem wordsOfBytes_big (w : Word) (rest : Bytes) :
    wordsOfBytes (Bytes.big 4 w.toNat ++ rest) = w :: wordsOfBytes rest := by
  have hword : UInt32.ofNat (Bytes.ofBig (Bytes.big 4 w.toNat)) = w := by
    rw [Bytes.ofBig_big, Nat.mod_eq_of_lt (UInt32.toNat_lt w), UInt32.ofNat_toNat]
  exact congrArg (· :: wordsOfBytes rest) hword

theorem wordsOfBytes_toBytes (p : Program) : wordsOfBytes p.toBytes = p := by
  induction p with
  | nil => rfl
  | cons w p ih => rw [toBytes_cons, wordsOfBytes_big, ih]

theorem length_toBytes_mod (p : Program) : p.toBytes.length % 4 = 0 := by
  rw [length_toBytes]
  exact Nat.mul_mod_right 4 p.length

theorem ofBytes_toBytes (p : Program) : ofBytes p.toBytes = .ok p := by
  rw [ofBytes, if_pos (length_toBytes_mod p), wordsOfBytes_toBytes]

/-- Four bytes are those of the word that they make. -/
theorem big_toNat_ofBig {four : Bytes} (h : four.length = 4) :
    Bytes.big 4 (UInt32.ofNat (Bytes.ofBig four)).toNat = four := by
  have hsmall := Bytes.ofBig_lt four
  have hback := Bytes.big_ofBig four
  rw [h] at hsmall hback
  rw [UInt32.toNat_ofNat_of_lt' hsmall, hback]

/-- Nothing is left over at the end of a string that is a whole number of words long. -/
theorem toBytes_wordsOfBytes (h : bytes.length % 4 = 0) : (wordsOfBytes bytes).toBytes = bytes := by
  fun_induction wordsOfBytes bytes with
  | case1 p q r s rest ih =>
    have hrest : rest.length % 4 = 0 := by
      simp only [List.length_cons] at h
      omega
    rw [toBytes_cons, big_toNat_ofBig rfl, ih hrest]
    rfl
  | case2 bytes hshort =>
    match bytes, h, hshort with
    | [], _, _ => rfl
    | p :: q :: r :: s :: rest, _, hshort => exact absurd rfl (hshort p q r s rest)

end Reading

section Acceptance

theorem ofBytes_eq_ok_iff : ofBytes bytes = .ok p ↔ p.toBytes = bytes := by
  constructor
  · intro h
    rw [ofBytes] at h
    by_cases hlength : bytes.length % 4 = 0
    · rw [if_pos hlength] at h
      cases h
      exact toBytes_wordsOfBytes hlength
    · rw [if_neg hlength] at h
      cases h
  · rintro rfl
    exact ofBytes_toBytes p

theorem ofBytes_eq_error_iff :
    ofBytes bytes = .error (.malformedImage bytes.length) ↔ ¬ 4 ∣ bytes.length := by
  rw [Nat.dvd_iff_mod_eq_zero, ofBytes]
  by_cases hlength : bytes.length % 4 = 0
  · simp [hlength]
  · simp [hlength]

theorem toBytes_bijOn : Set.BijOn toBytes Set.univ {bytes | 4 ∣ bytes.length} := by
  refine ⟨?_, ?_, ?_⟩
  · intro p _
    exact Nat.dvd_of_mod_eq_zero (length_toBytes_mod p)
  · intro p _ q _ hsame
    have hp := ofBytes_toBytes p
    rw [hsame, ofBytes_toBytes] at hp
    exact (Except.ok.inj hp).symm
  · intro bytes hlength
    exact ⟨wordsOfBytes bytes, Set.mem_univ _,
      toBytes_wordsOfBytes (Nat.mod_eq_zero_of_dvd hlength)⟩

end Acceptance

/-- The bytes of a word, most significant first. -/
theorem getElem?_toBytes (p : Program) (i : Nat) {k : Nat} (hk : k < 4) :
    p.toBytes[4 * i + k]? = (p[i]?).map fun w => UInt8.ofNat (w.toNat / 256 ^ (3 - k)) := by
  induction p generalizing i with
  | nil => rfl
  | cons w p ih =>
    rw [toBytes_cons]
    cases i with
    | zero =>
      have hk' : k < (Bytes.big 4 w.toNat).length := by
        rwa [Bytes.length_big]
      have hplace : 4 - 1 - k = 3 - k := rfl
      rw [Nat.mul_zero, Nat.zero_add, List.getElem?_append_left hk', Bytes.big,
        List.getElem?_reverse (by rwa [Bytes.length_little]), Bytes.length_little, hplace,
        Bytes.getElem?_little (by omega)]
      rfl
    | succ i =>
      have hplace : 4 * (i + 1) + k = (Bytes.big 4 w.toNat).length + (4 * i + k) := by
        rw [Bytes.length_big]
        omega
      rw [hplace, List.getElem?_append_right (Nat.le_add_right _ _), Nat.add_sub_cancel_left, ih i]
      rfl

/-- Images and programs. Writing a program and reading it back gives the program, and what is read
from a string is written as that string; a string is refused, with its length, just when it does not
divide into words. So writing is one to one between the programs and the strings that do. -/
theorem image_codec :
    (∀ p : Program, ofBytes p.toBytes = .ok p ∧ p.toBytes.length = 4 * p.length) ∧
    (∀ (bytes : Bytes) (p : Program), ofBytes bytes = .ok p → p.toBytes = bytes) ∧
    (∀ bytes : Bytes,
      ofBytes bytes = .error (.malformedImage bytes.length) ↔ ¬ 4 ∣ bytes.length) ∧
    Set.BijOn toBytes Set.univ {bytes | 4 ∣ bytes.length} ∧
    ∀ (p : Program) (i k : Nat), k < 4 → p.toBytes[4 * i + k]? =
      (p[i]?).map fun w => UInt8.ofNat (w.toNat / 256 ^ (3 - k)) := by
  refine ⟨?_, ?_, ?_, toBytes_bijOn, ?_⟩
  · intro p
    exact ⟨ofBytes_toBytes p, length_toBytes p⟩
  · intro bytes p h
    exact ofBytes_eq_ok_iff.mp h
  · intro bytes
    exact ofBytes_eq_error_iff
  · intro p i k hk
    exact getElem?_toBytes p i hk

/-- Two words, their image, and the image without its last byte. -/
theorem image_codec_two_words :
    let p : Program := [0xD0000048, 0x70000000]
    let bytes : Bytes := [0xD0, 0, 0, 0x48, 0x70, 0, 0, 0]
    ofBytes bytes = .ok p ∧ p.toBytes = bytes ∧ p.toBytes[4 * 0 + 3]? = some 0x48 ∧
      ofBytes (bytes.take 7) = .error (.malformedImage 7) := by
  intro p bytes
  obtain ⟨-, hwritten, hrefused, -, hplace⟩ := image_codec
  have hwords : wordsOfBytes bytes = p := by decide
  have hread : ofBytes bytes = .ok p := by
    rw [ofBytes, if_pos (by decide), hwords]
  exact ⟨hread, hwritten bytes p hread, hplace p 0 3 (by decide),
    (hrefused (bytes.take 7)).mpr (by decide)⟩

end Program

end UniversalMachine
