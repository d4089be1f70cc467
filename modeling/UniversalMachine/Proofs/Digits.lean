import UniversalMachine.Digits

/-! Written numbers read back as themselves, in every base up to sixteen, in either letter case and
with or without leading zeros. -/

namespace UniversalMachine.Digits

theorem digit_of_mem {base n : Nat} (hb : 1 < base) {c : Char} (hc : c ∈ Nat.toDigits base n) :
    ∃ d, d < base ∧ c = d.digitChar := by
  induction n using Nat.strongRecOn with
  | ind n ih =>
    rw [Nat.toDigits_eq_if hb] at hc
    split at hc
    · rename_i hn
      exact ⟨n, hn, List.mem_singleton.mp hc⟩
    · rename_i hn
      rcases List.mem_append.mp hc with hc | hc
      · exact ih (n / base) (Nat.div_lt_self (by omega) hb) hc
      · exact ⟨n % base, Nat.mod_lt n (by omega), List.mem_singleton.mp hc⟩

theorem isDecimal_of_mem_lower {n : Nat} {c : Char} (hc : c ∈ lower 10 n) : isDecimal c = true := by
  have digits : ∀ d, d < 10 → isDecimal d.digitChar = true := by decide
  obtain ⟨d, hd, rfl⟩ := digit_of_mem (by decide) hc
  exact digits d hd

theorem isHexadecimal_of_mem_lower {n : Nat} {c : Char} (hc : c ∈ lower 16 n) :
    isHexadecimal c = true := by
  have digits : ∀ d, d < 16 → isHexadecimal d.digitChar = true := by decide
  obtain ⟨d, hd, rfl⟩ := digit_of_mem (by decide) hc
  exact digits d hd

theorem isHexadecimal_of_mem_upper {n : Nat} {c : Char} (hc : c ∈ upper 16 n) :
    isHexadecimal c = true := by
  have digits : ∀ d, d < 16 → isHexadecimal d.digitChar.toUpper = true := by decide
  obtain ⟨e, he, rfl⟩ := List.mem_map.mp hc
  obtain ⟨d, hd, rfl⟩ := digit_of_mem (by decide) he
  exact digits d hd

theorem mem_padLeft {fill : Char} {width : Nat} {text : List Char} {c : Char}
    (hc : c ∈ padLeft fill width text) : c = fill ∨ c ∈ text := by
  rcases List.mem_append.mp hc with hc | hc
  · exact Or.inl (List.eq_of_mem_replicate hc)
  · exact Or.inr hc

theorem isHexadecimal_of_mem_hexUpperPadded {width n : Nat} {c : Char}
    (hc : c ∈ (hexUpperPadded width n).toList) : isHexadecimal c = true := by
  rw [hexUpperPadded, String.toList_ofList] at hc
  rcases mem_padLeft hc with rfl | hc
  · decide
  · exact isHexadecimal_of_mem_upper hc

theorem read_append_singleton (base : Nat) (text : List Char) (c : Char) :
    read base (text ++ [c]) = base * read base text + value c := by
  simp [read, List.foldl_append]

/-- Any respelling of the digits that keeps their values keeps the number. -/
theorem read_map_toDigits {base : Nat} (hb : 1 < base) (spell : Char → Char)
    (hs : ∀ d, d < base → value (spell d.digitChar) = d) (n : Nat) :
    read base ((Nat.toDigits base n).map spell) = n := by
  induction n using Nat.strongRecOn with
  | ind n ih =>
    rw [Nat.toDigits_eq_if hb]
    split
    · rename_i hn
      simp [read, hs n hn]
    · rename_i hn
      have hq := ih (n / base) (Nat.div_lt_self (by omega) hb)
      have hr := hs (n % base) (Nat.mod_lt n (by omega))
      rw [List.map_append, List.map_singleton, read_append_singleton, hq, hr]
      exact Nat.div_add_mod n base

theorem read_lower_ten (n : Nat) : read 10 (lower 10 n) = n := by
  have h := read_map_toDigits (show 1 < 10 by decide) id (by decide) n
  rwa [List.map_id] at h

theorem read_upper_sixteen (n : Nat) : read 16 (upper 16 n) = n :=
  read_map_toDigits (by decide) Char.toUpper (by decide) n

theorem read_zeros_append (base k : Nat) (text : List Char) :
    read base (List.replicate k '0' ++ text) = read base text := by
  induction k with
  | zero => rfl
  | succ k ih =>
    rw [List.replicate_succ, List.cons_append, read, List.foldl_cons]
    exact ih

theorem read_hexUpperPadded (width n : Nat) : read 16 (hexUpperPadded width n).toList = n := by
  rw [hexUpperPadded, String.toList_ofList, padLeft, read_zeros_append, read_upper_sixteen]

end UniversalMachine.Digits
