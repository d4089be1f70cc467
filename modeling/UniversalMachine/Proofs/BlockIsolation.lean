import UniversalMachine.Proofs.FaultTable

/-! Blocks do not disturb each other.
Over every history of calls a block keeps its contents until a call that names it succeeds in
changing it. An index without a block stays without one until an allocation gives it out, and then
its block is all zeros. -/

namespace UniversalMachine.Heap

/-- A condition on each call of a sequence, in the heap on which that call is made. -/
def Throughout (P : Heap → Operation → Prop) : Heap → List Operation → Prop
  | _, [] => True
  | h, op :: ops => P h op ∧ Throughout P (h.perform op) ops

/-- The call does not succeed in changing block `i`. Block 0 is changed by a load of another block
too. -/
def Spares (i : Word) (h : Heap) : Operation → Prop
  | .allocate _ | .read _ _ => True
  | .write index offset value => index = i → (h.write index offset value).1.isOk = false
  | .reclaim index => index = i → (h.reclaim index).1.isOk = false
  | .loadProgram index => i = 0 → index ≠ 0 → (h.loadProgram index).1.isOk = false

/-- The call is no allocation that gives index `i`. -/
def Withholds (i : Word) (h : Heap) : Operation → Prop
  | .allocate size => (h.allocate size).1.toOption ≠ some i
  | _ => True

/-- The index that a call is made on. -/
def Operation.index? : Operation → Option Word
  | allocate _ => none
  | read index _ | write index _ _ | reclaim index | loadProgram index => some index

variable {h after : Heap} {i : Word} {op : Operation}

instance : Decidable (h.Spares i op) :=
  match op with
  | .allocate _ | .read _ _ => .isTrue trivial
  | .write index offset value =>
    inferInstanceAs (Decidable (index = i → (h.write index offset value).1.isOk = false))
  | .reclaim index => inferInstanceAs (Decidable (index = i → (h.reclaim index).1.isOk = false))
  | .loadProgram index =>
    inferInstanceAs (Decidable (i = 0 → index ≠ 0 → (h.loadProgram index).1.isOk = false))

instance : Decidable (h.Withholds i op) :=
  match op with
  | .allocate size => inferInstanceAs (Decidable ((h.allocate size).1.toOption ≠ some i))
  | .read _ _ | .write _ _ _ | .reclaim _ | .loadProgram _ => .isTrue trivial

instance decidableThroughout (P : Heap → Operation → Prop) [∀ h op, Decidable (P h op)] :
    (h : Heap) → (ops : List Operation) → Decidable (Throughout P h ops)
  | _, [] => .isTrue trivial
  | h, op :: ops =>
    have := decidableThroughout P (h.perform op) ops
    inferInstanceAs (Decidable (P h op ∧ Throughout P (h.perform op) ops))

section Calls

/-- A call that spares a live block leaves its contents. -/
theorem Performed.block?_of_spares (hp : Performed h op after) (hi : h.Invariant) {b : Block}
    (hlive : h.block? i = some b) (hspares : h.Spares i op) : after.block? i = some b := by
  cases hp with
  | unchanged => exact hlive
  | allocated ha =>
    obtain ⟨-, hdead, hblocks⟩ := block?_allocate hi ha
    rw [hblocks i, if_neg]
    · exact hlive
    · rintro rfl
      rw [hdead] at hlive
      cases hlive
  | @written index offset value after hw =>
    have hne : i ≠ index := by
      rintro rfl
      have hfailed := hspares rfl
      rw [hw] at hfailed
      cases hfailed
    obtain ⟨⟨old, hread⟩, rfl⟩ := write_eq_ok_iff.mp hw
    obtain ⟨c, hc, -⟩ := read_eq_ok_iff.mp hread
    rw [block?_store hc, if_neg hne]
    exact hlive
  | @reclaimed index after hr =>
    have hne : i ≠ index := by
      rintro rfl
      have hfailed := hspares rfl
      rw [hr] at hfailed
      cases hfailed
    obtain ⟨-, hl, rfl⟩ := reclaim_eq_ok_iff.mp hr
    rw [block?_release hl, if_neg hne]
    exact hlive
  | @loaded index after hl =>
    rcases loadProgram_eq_ok_iff.mp hl with ⟨-, rfl⟩ | ⟨hindex, block, -, rfl⟩
    · exact hlive
    · have hne : i ≠ 0 := by
        intro hzero
        have hfailed := hspares hzero hindex
        rw [hl] at hfailed
        cases hfailed
      rw [block?_setProgram hi, if_neg hne]
      exact hlive

/-- No call but an allocation that gives the index puts a block where there is none. -/
theorem Performed.block?_of_withholds (hp : Performed h op after) (hi : h.Invariant)
    (hdead : h.block? i = none) (hwithholds : h.Withholds i op) : after.block? i = none := by
  have hzero : i ≠ 0 := by
    rintro rfl
    have hprogram := hi.program_live
    rw [isLive, hdead] at hprogram
    cases hprogram
  cases hp with
  | unchanged => exact hdead
  | @allocated size index after ha =>
    have hne : i ≠ index := by
      rintro rfl
      apply hwithholds
      rw [ha]
      rfl
    rw [(block?_allocate hi ha).2.2 i, if_neg hne]
    exact hdead
  | @written index offset value after hw =>
    obtain ⟨⟨old, hread⟩, rfl⟩ := write_eq_ok_iff.mp hw
    obtain ⟨c, hc, -⟩ := read_eq_ok_iff.mp hread
    have hne : i ≠ index := by
      rintro rfl
      rw [hdead] at hc
      cases hc
    rw [block?_store hc, if_neg hne]
    exact hdead
  | reclaimed hr =>
    obtain ⟨-, hl, rfl⟩ := reclaim_eq_ok_iff.mp hr
    rw [block?_release hl]
    split
    · rfl
    · exact hdead
  | loaded hl =>
    rcases loadProgram_eq_ok_iff.mp hl with ⟨-, rfl⟩ | ⟨-, block, -, rfl⟩
    · exact hdead
    · rw [block?_setProgram hi, if_neg hzero]
      exact hdead

end Calls

section Histories

variable {ops : List Operation}

/-- What every call under the condition keeps, a sequence of such calls keeps. -/
theorem Throughout.performAll {P : Heap → Operation → Prop} {Q : Heap → Prop}
    (hstep : ∀ h op, h.Invariant → Q h → P h op → Q (h.perform op)) (hi : h.Invariant) (hq : Q h)
    (hall : Throughout P h ops) : Q (h.performAll ops) := by
  induction ops generalizing h with
  | nil => exact hq
  | cons op ops ih =>
    obtain ⟨hop, hrest⟩ := hall
    exact ih (perform_invariant hi op) (hstep h op hi hq hop) hrest

theorem block?_performAll_of_spares (hi : h.Invariant) {b : Block} (hlive : h.block? i = some b)
    (hspares : Throughout (Spares i) h ops) : (h.performAll ops).block? i = some b := by
  apply hspares.performAll (Q := fun h => h.block? i = some b) _ hi hlive
  intro h op hi hlive hop
  exact (perform_performed h op).block?_of_spares hi hlive hop

theorem block?_performAll_of_withholds (hi : h.Invariant) (hdead : h.block? i = none)
    (hwithholds : Throughout (Withholds i) h ops) : (h.performAll ops).block? i = none := by
  apply hwithholds.performAll (Q := fun h => h.block? i = none) _ hi hdead
  intro h op hi hdead hop
  exact (perform_performed h op).block?_of_withholds hi hdead hop

end Histories

section Dead

/-- Every call on an index without a block fails and leaves the heap as it is. -/
structure Refuses (h : Heap) (i : Word) : Prop where
  read : ∀ offset, h.read i offset = .error (.notLive i)
  write : ∀ offset value, h.write i offset value = (.error (.notLive i), h)
  blockSize : h.blockSize i = .error (.notLive i)
  reclaim : h.reclaim i = (.error (.invalidReclaim i), h)
  loadProgram : h.loadProgram i = (.error (.notLive i), h)

theorem refuses_of_dead (hi : h.Invariant) (hdead : h.block? i = none) : h.Refuses i := by
  have hlive : h.isLive i = false := isLive_eq_false_iff.mpr hdead
  have hzero : i ≠ 0 := by
    rintro rfl
    rw [hi.program_live] at hlive
    cases hlive
  refine ⟨?_, ?_, ?_, ?_, ?_⟩
  · intro offset
    exact read_eq_error_iff.mpr ⟨_, .dead hlive⟩
  · intro offset value
    exact write_of_error (write_eq_error_iff.mpr ⟨_, .dead hlive⟩)
  · rw [Heap.blockSize, hdead]
  · exact reclaim_of_error (reclaim_eq_error_iff.mpr ⟨Or.inr hlive, rfl⟩)
  · exact loadProgram_of_error ((loadProgram_eq_error_iff hzero).mpr ⟨hlive, rfl⟩)

theorem Refuses.perform_eq (hr : h.Refuses i) (hindex : op.index? = some i) :
    h.perform op = h := by
  cases op with
  | allocate size => cases hindex
  | read index offset => rfl
  | write index offset value =>
    cases hindex
    rw [perform, hr.write]
  | reclaim index =>
    cases hindex
    rw [perform, hr.reclaim]
  | loadProgram index =>
    cases hindex
    rw [perform, hr.loadProgram]

end Dead

/-- What an allocation makes reads as zeros, as many as were asked for. -/
theorem allocate_zeros (hi : h.Invariant) {size : Word} (ha : h.allocate size = (.ok i, after)) :
    after.blockSize i = .ok size.toNat ∧ ∀ offset, offset < size → after.read i offset = .ok 0 := by
  have hblock : after.block? i = some (Array.replicate size.toNat 0) := by
    rw [(block?_allocate hi ha).2.2 i, if_pos rfl]
  refine ⟨?_, ?_⟩
  · rw [blockSize, hblock]
    simp
  · intro offset hlt
    refine read_eq_ok_iff.mpr ⟨_, hblock, ?_⟩
    simp [UInt32.lt_iff_toNat_lt.mp hlt]

/-- A load makes block 0 a copy of a block, which stays as it was. -/
theorem loadProgram_copies (hi : h.Invariant) (hzero : i ≠ 0)
    (hl : h.loadProgram i = (.ok (), after)) :
    ∃ b, h.block? i = some b ∧ after.block? i = some b ∧ after.block? 0 = some b := by
  rcases loadProgram_eq_ok_iff.mp hl with ⟨h0, -⟩ | ⟨-, b, hb, rfl⟩
  · exact absurd h0 hzero
  · refine ⟨b, hb, ?_, ?_⟩
    · rw [block?_setProgram hi, if_neg hzero]
      exact hb
    · rw [block?_setProgram hi, if_pos rfl]

/-- Isolation of blocks, in every heap that calls lead to on any host and over all further calls. A
live block keeps its contents through calls that spare it, whatever happens to other blocks. An
index without a block refuses every call, without effect, until an allocation gives it out; then its
block is all zeros. A block that was copied to block 0 and the copy are two blocks from then on. -/
theorem performAll_isolates (p : Program) (limit : Word) (granted : Option Nat)
    (history : List Operation) (i : Word) :
    let h := (ofProgram p limit granted).performAll history
    (∀ b ops, h.block? i = some b → Throughout (Spares i) h ops →
      (h.performAll ops).block? i = some b) ∧
    (∀ ops, h.isLive i = false → Throughout (Withholds i) h ops →
      let later := h.performAll ops
      later.isLive i = false ∧ later.Refuses i ∧
        ∀ op : Operation, op.index? = some i → later.perform op = later) ∧
    (∀ size after, h.allocate size = (.ok i, after) →
      after.blockSize i = .ok size.toNat ∧
        ∀ offset, offset < size → after.read i offset = .ok 0) ∧
    ∀ after, i ≠ 0 → h.loadProgram i = (.ok (), after) → ∃ b, h.block? i = some b ∧
      ∀ ops,
        (Throughout (Spares i) after ops → (after.performAll ops).block? i = some b) ∧
        (Throughout (Spares 0) after ops → (after.performAll ops).block? 0 = some b) := by
  intro h
  have hi : h.Invariant := performAll_invariant (ofProgram_invariant p limit granted) history
  refine ⟨?_, ?_, ?_, ?_⟩
  · intro b ops hlive hspares
    exact block?_performAll_of_spares hi hlive hspares
  · intro ops hdead hwithholds later
    have hlater := block?_performAll_of_withholds hi (isLive_eq_false_iff.mp hdead) hwithholds
    have hrefuses := refuses_of_dead (performAll_invariant hi ops) hlater
    exact ⟨isLive_eq_false_iff.mpr hlater, hrefuses, fun op => hrefuses.perform_eq⟩
  · intro size after ha
    exact allocate_zeros hi ha
  · intro after hzero hl
    obtain ⟨b, hb, hsource, hcopy⟩ := loadProgram_copies hi hzero hl
    have hafter := loadProgram_invariant hi hl
    refine ⟨b, hb, fun ops => ⟨?_, ?_⟩⟩
    · exact block?_performAll_of_spares hafter hsource
    · exact block?_performAll_of_spares hafter hcopy

/-- Block 1 is copied to block 0 and then written, abandoned and given out again. The copy keeps
the old contents, the new block is zero, and in between the index is refused. -/
theorem performAll_isolates_reused :
    let h := (ofProgram [7] 9).performAll [.allocate 2, .write 1 1 99]
    let loaded := h.setProgram #[0, 99]
    let ops : List Operation := [.write 1 0 5, .reclaim 1, .read 1 0, .allocate 3, .loadProgram 2]
    let gone := (ofProgram [7] 9).performAll [.allocate 2, .write 1 1 99, .reclaim 1]
    let again := gone.addBlock 3
    (h.loadProgram 1 = (.ok (), loaded) ∧ Throughout (Spares 0) loaded ops ∧
      (loaded.performAll ops).block? 0 = some #[0, 99]) ∧
    (gone.isLive 1 = false ∧ Throughout (Withholds 1) gone [.write 1 0 5, .allocate 10] ∧
      (gone.performAll [.write 1 0 5, .allocate 10]).Refuses 1) ∧
    gone.allocate 3 = (.ok 1, again) ∧ again.read 1 1 = .ok 0 := by
  intro h loaded ops gone again
  have hblock : h.block? 1 = some #[0, 99] := by decide
  have hload : h.loadProgram 1 = (.ok (), loaded) :=
    loadProgram_eq_ok_iff.mpr (Or.inr ⟨by decide, _, hblock, rfl⟩)
  have hspares : Throughout (Spares 0) loaded ops := by decide
  have hdead : gone.isLive 1 = false := by decide
  have hwithholds : Throughout (Withholds 1) gone [.write 1 0 5, .allocate 10] := by decide
  have hagain : gone.allocate 3 = (.ok 1, again) :=
    allocate_eq_ok_iff.mpr ⟨by decide, by decide, by decide, rfl⟩
  obtain ⟨-, -, -, hcopy⟩ := performAll_isolates [7] 9 none [.allocate 2, .write 1 1 99] 1
  obtain ⟨-, hrefused, hzeros, -⟩ :=
    performAll_isolates [7] 9 none [.allocate 2, .write 1 1 99, .reclaim 1] 1
  obtain ⟨b, hb, hkept⟩ := hcopy loaded (by decide) hload
  obtain rfl : _ = b := Option.some.inj (hblock.symm.trans hb)
  exact ⟨⟨hload, hspares, (hkept ops).2 hspares⟩,
    ⟨hdead, hwithholds, (hrefused _ hdead hwithholds).2.1⟩, hagain,
    (hzeros 3 again hagain).2 1 (by decide)⟩

end UniversalMachine.Heap
