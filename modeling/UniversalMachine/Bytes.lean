import UniversalMachine.Digits

/-!
Byte strings, and numbers of a fixed width in both byte orders.
-/

namespace UniversalMachine

abbrev Bytes := List UInt8

namespace Bytes

/-- The `width` low bytes of `n`, least significant first. -/
def little : Nat → Nat → Bytes
  | 0, _ => []
  | width + 1, n => UInt8.ofNat (n % 256) :: little width (n / 256)

def ofLittle : Bytes → Nat
  | [] => 0
  | b :: rest => b.toNat + 256 * ofLittle rest

def big (width n : Nat) : Bytes := (little width n).reverse

def ofBig (bytes : Bytes) : Nat := ofLittle bytes.reverse

def hex (bytes : Bytes) : String :=
  String.ofList (bytes.flatMap fun b => Digits.padLeft '0' 2 (Digits.lower 16 b.toNat))

@[simp] theorem length_little (width n : Nat) : (little width n).length = width := by
  induction width generalizing n with
  | zero => rfl
  | succ width ih => simp [little, ih]

theorem ofLittle_little (width n : Nat) : ofLittle (little width n) = n % Nat.pow 256 width := by
  induction width generalizing n with
  | zero => simp [little, ofLittle, Nat.mod_one]
  | succ width ih =>
    have h : n % 256 % 256 = n % 256 := Nat.mod_mod n 256
    simp [little, ofLittle, ih, Nat.pow_succ', Nat.mod_mul]

theorem ofLittle_lt (bytes : Bytes) : ofLittle bytes < Nat.pow 256 bytes.length := by
  induction bytes with
  | nil => decide
  | cons b rest ih =>
    have hb := b.toNat_lt
    have hpow : Nat.pow 256 (rest.length + 1) = Nat.pow 256 rest.length * 256 := rfl
    rw [ofLittle, List.length_cons, hpow]
    omega

theorem little_ofLittle (bytes : Bytes) : little bytes.length (ofLittle bytes) = bytes := by
  induction bytes with
  | nil => rfl
  | cons b rest ih =>
    have hb := b.toNat_lt
    have hlow : (b.toNat + 256 * ofLittle rest) % 256 = b.toNat := by omega
    have hhigh : (b.toNat + 256 * ofLittle rest) / 256 = ofLittle rest := by omega
    rw [List.length_cons, ofLittle, little, hlow, hhigh, ih, UInt8.ofNat_toNat]

@[simp] theorem length_big (width n : Nat) : (big width n).length = width := by
  simp [big]

theorem ofBig_big (width n : Nat) : ofBig (big width n) = n % Nat.pow 256 width := by
  simp [ofBig, big, ofLittle_little]

theorem ofBig_lt (bytes : Bytes) : ofBig bytes < Nat.pow 256 bytes.length := by
  have h := ofLittle_lt bytes.reverse
  rwa [List.length_reverse] at h

theorem big_ofBig (bytes : Bytes) : big bytes.length (ofBig bytes) = bytes := by
  have h := little_ofLittle bytes.reverse
  rw [List.length_reverse] at h
  rw [big, ofBig, h, List.reverse_reverse]

end Bytes

end UniversalMachine
