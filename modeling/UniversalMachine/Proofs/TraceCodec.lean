import UniversalMachine.Trace

/-! Stored traces.
A list of rows is read back from its bytes whatever stands behind them, and the bytes that are
accepted are those of the rows that come out. A trace is refused for one reason only: its bytes end
before the last row that its count announces. -/

namespace UniversalMachine

namespace TraceRow

theorem length_flatMap_little (words : List Word) :
    (words.flatMap fun w => Bytes.little 4 w.toNat).length = 4 * words.length := by
  induction words with
  | nil => rfl
  | cons w rest ih =>
    rw [List.flatMap_cons, List.length_append, ih, Bytes.length_little, List.length_cons]
    omega

@[simp] theorem length_toBytes (row : TraceRow) : row.toBytes.length = size := by
  simp only [toBytes, List.length_append, Bytes.length_little, length_flatMap_little,
    Vector.length_toList]
  rfl

theorem little_wordAt {bytes : Bytes} {position : Nat} (h : position + 4 ≤ bytes.length) :
    Bytes.little 4 (wordAt bytes position).toNat = (bytes.drop position).take 4 := by
  have hlen : ((bytes.drop position).take 4).length = 4 := by
    rw [List.length_take, List.length_drop]
    omega
  have hsmall := Bytes.ofLittle_lt ((bytes.drop position).take 4)
  have hback := Bytes.little_ofLittle ((bytes.drop position).take 4)
  rw [hlen] at hsmall hback
  rw [wordAt, UInt32.toNat_ofNat_of_lt' hsmall, hback]

theorem wordAt_append (front : Bytes) (w : Word) (back : Bytes) :
    wordAt (front ++ (Bytes.little 4 w.toNat ++ back)) front.length = w := by
  have hw : w.toNat % Nat.pow 256 4 = w.toNat := Nat.mod_eq_of_lt w.toNat_lt
  rw [wordAt, List.drop_left, List.take_left' (Bytes.length_little 4 w.toNat),
    Bytes.ofLittle_little, hw, UInt32.ofNat_toNat]

/-- Words in a row are found at every fourth byte. -/
theorem wordAt_flatMap (front : Bytes) (words : List Word) (i : Nat) (h : i < words.length) :
    wordAt (front ++ words.flatMap fun w => Bytes.little 4 w.toNat) (front.length + 4 * i) =
      words[i] := by
  induction words generalizing front i with
  | nil => cases h
  | cons w rest ih =>
    rw [List.flatMap_cons]
    cases i with
    | zero => exact wordAt_append front w _
    | succ i =>
      have hrest := ih (front ++ Bytes.little 4 w.toNat) i (Nat.lt_of_succ_lt_succ h)
      have hplace :
          front.length + 4 * (i + 1) = (front ++ Bytes.little 4 w.toNat).length + 4 * i := by
        rw [List.length_append, Bytes.length_little]
        omega
      rw [← List.append_assoc, hplace, hrest, List.getElem_cons_succ]

/-- The words at every fourth byte make up the bytes again. -/
theorem flatMap_wordAt (count position : Nat) {bytes : Bytes}
    (h : bytes.length = position + 4 * count) :
    ((List.ofFn fun i : Fin count => wordAt bytes (position + 4 * i.val)).flatMap
      fun w => Bytes.little 4 w.toNat) = bytes.drop position := by
  induction count generalizing position with
  | zero =>
    rw [List.ofFn_zero, List.flatMap_nil, eq_comm, List.drop_eq_nil_iff]
    omega
  | succ count ih =>
    have hrest := ih (position + 4) (by omega)
    have hshift : ∀ i : Fin count, position + 4 * i.succ.val = position + 4 + 4 * i.val := by
      intro i
      rw [Fin.val_succ]
      omega
    simp only [List.ofFn_succ, List.flatMap_cons, hshift, hrest]
    rw [Fin.val_zero, Nat.mul_zero, Nat.add_zero, little_wordAt (by omega), ← List.drop_drop,
      List.take_append_drop]

theorem ofBytes_toBytes (row : TraceRow) : ofBytes row.toBytes = row := by
  obtain ⟨cycle, pc, instruction, registers⟩ := row
  have hcycle : cycle.toNat % Nat.pow 256 8 = cycle.toNat := Nat.mod_eq_of_lt cycle.toNat_lt
  simp only [ofBytes, toBytes, List.append_assoc, mk.injEq]
  refine ⟨?_, ?_, ?_, ?_⟩
  · rw [List.take_left' (Bytes.length_little 8 _), Bytes.ofLittle_little, hcycle,
      UInt64.ofNat_toNat]
  · have hpc := wordAt_append (Bytes.little 8 cycle.toNat) pc
    rw [Bytes.length_little] at hpc
    exact hpc _
  · have hword := wordAt_append (Bytes.little 8 cycle.toNat ++ Bytes.little 4 pc.toNat) instruction
    rw [List.length_append, Bytes.length_little, Bytes.length_little] at hword
    rw [← List.append_assoc]
    exact hword _
  · apply Vector.ext
    intro i hi
    have hwords := wordAt_flatMap (Bytes.little 8 cycle.toNat ++ Bytes.little 4 pc.toNat ++
      Bytes.little 4 instruction.toNat) registers.toList i (by rwa [Vector.length_toList])
    simp only [List.length_append, Bytes.length_little, List.append_assoc] at hwords
    rw [Vector.getElem_ofFn, hwords, Vector.getElem_toList]

theorem toBytes_ofBytes {bytes : Bytes} (h : bytes.length = size) :
    (ofBytes bytes).toBytes = bytes := by
  have hsize : bytes.length = 16 + 4 * 8 := h
  have hcycle : Bytes.little 8 (ofBytes bytes).cycle.toNat = bytes.take 8 := by
    have hlen : (bytes.take 8).length = 8 := by
      rw [List.length_take]
      omega
    have hsmall := Bytes.ofLittle_lt (bytes.take 8)
    have hback := Bytes.little_ofLittle (bytes.take 8)
    rw [hlen] at hsmall hback
    rw [ofBytes, UInt64.toNat_ofNat_of_lt' hsmall, hback]
  have hpc : Bytes.little 4 (ofBytes bytes).pc.toNat = (bytes.drop 8).take 4 :=
    little_wordAt (by omega)
  have hword : Bytes.little 4 (ofBytes bytes).instruction.toNat = (bytes.drop 12).take 4 :=
    little_wordAt (by omega)
  have hregisters : (ofBytes bytes).registers.toList =
      List.ofFn fun i : Fin 8 => wordAt bytes (16 + 4 * i.val) := Vector.toList_ofFn
  have hfirst := List.take_append_drop 4 (bytes.drop 8)
  have hsecond := List.take_append_drop 4 (bytes.drop 12)
  rw [List.drop_drop] at hfirst hsecond
  rw [toBytes, hcycle, hpc, hword, hregisters, flatMap_wordAt 8 16 hsize, List.append_assoc,
    List.append_assoc, hsecond, hfirst, List.take_append_drop]

end TraceRow

namespace Trace

theorem length_flatMap_toBytes (rows : List TraceRow) :
    (rows.flatMap TraceRow.toBytes).length = TraceRow.size * rows.length := by
  induction rows with
  | nil => rfl
  | cons row rest ih =>
    rw [List.flatMap_cons, List.length_append, ih, TraceRow.length_toBytes, List.length_cons]
    exact (Nat.add_comm _ _).trans (Nat.mul_succ _ _).symm

theorem decodeRows_succ_of_lt {count : Nat} {bytes : Bytes} (h : bytes.length < TraceRow.size) :
    decodeRows (count + 1) bytes = .error .truncatedTrace := by
  have hshort : (bytes.take TraceRow.size).length < TraceRow.size := by
    rw [List.length_take]
    omega
  simp only [decodeRows, hshort, if_true]

theorem decodeRows_succ_of_le {count : Nat} {bytes : Bytes} (h : TraceRow.size ≤ bytes.length) :
    decodeRows (count + 1) bytes =
      (decodeRows count (bytes.drop TraceRow.size)).map
        (TraceRow.ofBytes (bytes.take TraceRow.size) :: ·) := by
  have hlong : ¬ (bytes.take TraceRow.size).length < TraceRow.size := by
    rw [List.length_take]
    omega
  simp only [decodeRows, hlong, if_false]
  cases decodeRows count (bytes.drop TraceRow.size) <;> rfl

theorem decodeRows_flatMap (rows : List TraceRow) (extra : Bytes) :
    decodeRows rows.length (rows.flatMap TraceRow.toBytes ++ extra) = .ok rows := by
  induction rows with
  | nil => rfl
  | cons row rest ih =>
    have hlen := TraceRow.length_toBytes row
    rw [List.flatMap_cons, List.append_assoc, List.length_cons, decodeRows_succ_of_le,
      List.take_left' hlen, List.drop_left' hlen, ih, TraceRow.ofBytes_toBytes]
    · rfl
    · rw [List.length_append, hlen]
      exact Nat.le_add_right _ _

theorem decodeRows_eq_ok {count : Nat} {bytes : Bytes} {rows : List TraceRow}
    (h : decodeRows count bytes = .ok rows) :
    rows.length = count ∧ rows.flatMap TraceRow.toBytes <+: bytes := by
  induction count generalizing bytes rows with
  | zero =>
    cases h
    exact ⟨rfl, List.nil_prefix⟩
  | succ count ih =>
    by_cases hsize : bytes.length < TraceRow.size
    · rw [decodeRows_succ_of_lt hsize] at h
      cases h
    · rw [decodeRows_succ_of_le (Nat.le_of_not_lt hsize)] at h
      cases hrest : decodeRows count (bytes.drop TraceRow.size) with
      | error e =>
        rw [hrest] at h
        cases h
      | ok rest =>
        rw [hrest] at h
        cases h
        obtain ⟨hcount, after, hafter⟩ := ih hrest
        have hlen : (bytes.take TraceRow.size).length = TraceRow.size := by
          rw [List.length_take]
          omega
        refine ⟨by rw [List.length_cons, hcount], after, ?_⟩
        rw [List.flatMap_cons, TraceRow.toBytes_ofBytes hlen, List.append_assoc, hafter,
          List.take_append_drop]

/-- Rows are refused exactly where the bytes run out, whatever the bytes are. -/
theorem decodeRows_eq_error_iff {count : Nat} {bytes : Bytes} {e : DataError} :
    decodeRows count bytes = .error e ↔
      e = .truncatedTrace ∧ bytes.length < TraceRow.size * count := by
  induction count generalizing bytes with
  | zero =>
    constructor
    · intro h
      cases h
    · rintro ⟨-, h⟩
      cases h
  | succ count ih =>
    rw [Nat.mul_succ]
    by_cases hsize : bytes.length < TraceRow.size
    · rw [decodeRows_succ_of_lt hsize]
      constructor
      · intro h
        cases h
        exact ⟨rfl, by omega⟩
      · rintro ⟨rfl, -⟩
        rfl
    · have hbound : (bytes.drop TraceRow.size).length < TraceRow.size * count ↔
          bytes.length < TraceRow.size * count + TraceRow.size := by
        rw [List.length_drop]
        omega
      rw [decodeRows_succ_of_le (Nat.le_of_not_lt hsize), ← hbound, ← ih]
      cases decodeRows count (bytes.drop TraceRow.size) with
      | error e' => exact Iff.rfl
      | ok rest =>
        constructor
        · intro h
          cases h
        · intro h
          cases h

theorem length_encode (rows : List TraceRow) :
    (encode rows).length = 8 + TraceRow.size * rows.length := by
  rw [encode, List.length_append, Bytes.length_little, length_flatMap_toBytes]

/-- The number of rows that a stored trace announces. -/
def announced (bytes : Bytes) : Nat := Bytes.ofLittle (bytes.take 8)

theorem decode_of_lt {bytes : Bytes} (h : bytes.length < 8) :
    decode bytes = .error .truncatedTrace := by
  have hshort : (bytes.take 8).length < 8 := by
    rw [List.length_take]
    omega
  simp only [decode, hshort, if_true]

theorem decode_of_le {bytes : Bytes} (h : 8 ≤ bytes.length) :
    decode bytes = decodeRows (announced bytes) (bytes.drop 8) := by
  have hlong : ¬ (bytes.take 8).length < 8 := by
    rw [List.length_take]
    omega
  simp only [decode, hlong, if_false]
  rfl

theorem announced_lt {bytes : Bytes} (h : 8 ≤ bytes.length) : announced bytes < UInt64.size := by
  have hlt := Bytes.ofLittle_lt (bytes.take 8)
  rw [List.length_take, Nat.min_eq_left h] at hlt
  exact hlt

theorem announced_encode {rows : List TraceRow} (h : rows.length < UInt64.size) (extra : Bytes) :
    announced (encode rows ++ extra) = rows.length := by
  have hmod : rows.length % Nat.pow 256 8 = rows.length := Nat.mod_eq_of_lt h
  rw [announced, encode, List.append_assoc, List.take_left' (Bytes.length_little 8 _),
    Bytes.ofLittle_little, hmod]

theorem decode_encode {rows : List TraceRow} (h : rows.length < UInt64.size) (extra : Bytes) :
    decode (encode rows ++ extra) = .ok rows := by
  have hlen : 8 ≤ (encode rows ++ extra).length := by
    rw [List.length_append, length_encode]
    omega
  rw [decode_of_le hlen, announced_encode h, encode, List.append_assoc,
    List.drop_left' (Bytes.length_little 8 _), decodeRows_flatMap]

theorem decode_eq_ok {bytes : Bytes} {rows : List TraceRow} (h : decode bytes = .ok rows) :
    rows.length < UInt64.size ∧ encode rows <+: bytes := by
  by_cases hlen : bytes.length < 8
  · rw [decode_of_lt hlen] at h
    cases h
  · have hle := Nat.le_of_not_lt hlen
    rw [decode_of_le hle] at h
    obtain ⟨hcount, after, hafter⟩ := decodeRows_eq_ok h
    have hhead : Bytes.little 8 (announced bytes) = bytes.take 8 := by
      have hback := Bytes.little_ofLittle (bytes.take 8)
      rwa [List.length_take, Nat.min_eq_left hle] at hback
    refine ⟨hcount ▸ announced_lt hle, after, ?_⟩
    rw [encode, hcount, hhead, List.append_assoc, hafter, List.take_append_drop]

theorem decode_eq_error_iff {bytes : Bytes} {e : DataError} :
    decode bytes = .error e ↔ e = .truncatedTrace ∧
      (bytes.length < 8 ∨ bytes.length < 8 + TraceRow.size * announced bytes) := by
  by_cases hlen : bytes.length < 8
  · rw [decode_of_lt hlen]
    constructor
    · intro h
      cases h
      exact ⟨rfl, Or.inl hlen⟩
    · rintro ⟨rfl, -⟩
      rfl
  · have hbound : (bytes.drop 8).length < TraceRow.size * announced bytes ↔
        bytes.length < 8 ∨ bytes.length < 8 + TraceRow.size * announced bytes := by
      rw [List.length_drop]
      omega
    rw [decode_of_le (Nat.le_of_not_lt hlen), decodeRows_eq_error_iff, hbound]

theorem decode_of_prefix {rows : List TraceRow} (h : rows.length < UInt64.size) {part : Bytes}
    (hpart : part <+: encode rows) (hne : part ≠ encode rows) :
    decode part = .error .truncatedTrace := by
  obtain ⟨rest, hrest⟩ := hpart
  have hshort : part.length < (encode rows).length := by
    cases rest with
    | nil => exact absurd (by rwa [List.append_nil] at hrest) hne
    | cons b rest =>
      rw [← hrest, List.length_append, List.length_cons]
      omega
  rw [decode_eq_error_iff]
  refine ⟨rfl, ?_⟩
  by_cases hlen : part.length < 8
  · exact Or.inl hlen
  · -- the count stands whole in the part, so all the rows of the trace are announced
    have hcount : announced part = rows.length := by
      have hwhole := announced_encode h []
      rwa [List.append_nil, announced, ← hrest, List.take_append_of_le_length (by omega)] at hwhole
    rw [length_encode] at hshort
    rw [hcount]
    exact Or.inr hshort

/-- Stored traces stand for their rows exactly. The count of a trace takes eight bytes, which bounds
the number of rows that can be stored. -/
theorem codec_exact (rows : List TraceRow) (bytes : Bytes) :
    (encode rows).length = 8 + 48 * rows.length ∧
    (rows.length < UInt64.size →
      (∀ extra, decode (encode rows ++ extra) = .ok rows) ∧
      ∀ part, part <+: encode rows → part ≠ encode rows →
        decode part = .error .truncatedTrace) ∧
    (decode bytes = .ok rows → encode rows <+: bytes) ∧
    ∀ e, decode bytes = .error e ↔ e = .truncatedTrace ∧
      (bytes.length < 8 ∨ bytes.length < 8 + 48 * Bytes.ofLittle (bytes.take 8)) := by
  refine ⟨length_encode rows, ?_, ?_, ?_⟩
  · intro h
    exact ⟨decode_encode h, fun part hpart hne => decode_of_prefix h hpart hne⟩
  · intro h
    exact (decode_eq_ok h).2
  · intro e
    exact decode_eq_error_iff

/-- Two rows with a byte behind them and with a byte missing, and a count that no bytes follow. -/
theorem codec_exact_two_rows :
    let rows : List TraceRow :=
      [⟨0, 0, 0xD0000048, Registers.zero⟩, ⟨1, 1, 0xA0000000, Registers.zero.write 0 72⟩]
    decode (encode rows ++ [7]) = .ok rows ∧
    decode ((encode rows).take 103) = .error .truncatedTrace ∧
    decode (List.replicate 8 0xFF) = .error .truncatedTrace := by
  intro rows
  obtain ⟨hlength, hstored, -, hrefused⟩ := codec_exact rows (List.replicate 8 0xFF)
  obtain ⟨hback, hpart⟩ := hstored (by decide)
  refine ⟨hback [7], hpart _ (List.take_prefix 103 _) ?_, ?_⟩
  · intro he
    have hcut := congrArg List.length he
    rw [List.length_take, hlength] at hcut
    exact absurd hcut (by decide)
  · exact (hrefused .truncatedTrace).mpr ⟨rfl, Or.inr (by decide)⟩

end Trace

end UniversalMachine
