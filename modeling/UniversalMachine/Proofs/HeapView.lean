import UniversalMachine.Proofs.HeapInvariant

/-! The blocks behind each change of a heap.
A change touches the block it names and no other, and an allocation names a block that was not
live. -/

namespace UniversalMachine.Heap

variable {h after : Heap} {index offset value size : Word}

theorem toNat_ne {i j : Word} (hne : i ≠ j) : i.toNat ≠ j.toNat :=
  fun e => hne (UInt32.toNat_inj.mp e)

theorem read_eq_ok_iff {w : Word} :
    h.read index offset = .ok w ↔
      ∃ b, h.block? index = some b ∧ b[offset.toNat]? = some w := by
  rw [read]
  rcases h.block? index with _ | b
  · simp
  · rcases hw : b[offset.toNat]? with _ | v
    · simp [hw]
    · simp [hw]

theorem block?_store {b : Block} (hb : h.block? index = some b) (i : Word) :
    (h.store index offset value).block? i =
      if i = index then some (b.setIfInBounds offset.toNat value) else h.block? i := by
  have hslot := block?_eq_some_iff.mp hb
  by_cases hi : i = index
  · subst hi
    rw [if_pos rfl, block?_eq_some_iff, store, Array.getElem?_modify, if_pos rfl, hslot]
    rfl
  · rw [if_neg hi, block?, store, Array.getElem?_modify, if_neg (toNat_ne (Ne.symm hi)), block?]

theorem block?_release (hl : h.isLive index = true) (i : Word) :
    (h.release index).block? i = if i = index then none else h.block? i := by
  obtain ⟨b, hb⟩ := isLive_iff.mp hl
  obtain ⟨hlt, -⟩ := Array.getElem?_eq_some_iff.mp hb
  by_cases hi : i = index
  · subst hi
    rw [if_pos rfl, block?, release, Array.getElem?_setIfInBounds_self_of_lt hlt]
    rfl
  · rw [if_neg hi, block?, release, Array.getElem?_setIfInBounds_ne (toNat_ne (Ne.symm hi)), block?]

theorem block?_setProgram (hi : h.Invariant) (block : Block) (i : Word) :
    (h.setProgram block).block? i = if i = 0 then some block else h.block? i := by
  obtain ⟨b, hb⟩ := program_live_iff.mp hi.program_live
  obtain ⟨hlt, -⟩ := Array.getElem?_eq_some_iff.mp hb
  by_cases h0 : i = 0
  · subst h0
    rw [if_pos rfl, block?_eq_some_iff, setProgram]
    exact Array.getElem?_setIfInBounds_self_of_lt hlt
  · have hne : 0 ≠ i.toNat := toNat_ne (Ne.symm h0)
    rw [if_neg h0, block?, setProgram, Array.getElem?_setIfInBounds_ne hne, block?]

/-- An allocation gives an index that was not live, never 0, and makes a block of zeros there. -/
theorem block?_allocate (hi : h.Invariant) (ha : h.allocate size = (.ok index, after)) :
    index ≠ 0 ∧ h.block? index = none ∧ ∀ i, after.block? i =
      if i = index then some (Array.replicate size.toNat 0) else h.block? i := by
  obtain ⟨-, hroom, rfl, rfl⟩ := allocate_eq_ok_iff.mp ha
  rcases hf : h.free with _ | ⟨top, rest⟩
  · have hindex : h.nextIndex.toNat = h.slots.size := nextIndex_of_free_nil hf (hroom hf)
    have hslots : (h.addBlock size).slots = h.slots.push (some (Array.replicate size.toNat 0)) :=
      slots_addBlock_fresh hf size
    refine ⟨?_, ?_, ?_⟩
    · intro h0
      have hpos := hi.live_pos
      have hsum := hi.live_add_free
      rw [h0] at hindex
      change 0 = h.slots.size at hindex
      omega
    · rw [block?, hindex, Array.getElem?_eq_none (Nat.le_refl _)]
      rfl
    · intro i
      by_cases hne : i = h.nextIndex
      · subst hne
        rw [if_pos rfl, block?_eq_some_iff, hslots, hindex, Array.getElem?_push_size]
      · have hsize : i.toNat ≠ h.slots.size := hindex ▸ toNat_ne hne
        rw [if_neg hne, block?, hslots, Array.getElem?_push, if_neg hsize, block?]
  · have hindex : h.nextIndex = top := by
      rw [nextIndex, hf]
    have hmem : top ∈ h.free := hf ▸ List.mem_cons_self
    have hlt := hi.free_lt_size hmem
    have hempty := (hi.free_iff top.toNat).mp ⟨top, hmem, rfl⟩
    have hslots := slots_addBlock_reused hf size
    rw [hindex]
    refine ⟨?_, ?_, ?_⟩
    · intro h0
      exact hi.zero_not_free (h0 ▸ hmem)
    · rw [block?, hempty]
      rfl
    · intro i
      by_cases hne : i = top
      · subst hne
        rw [if_pos rfl, block?_eq_some_iff, hslots, Array.getElem?_setIfInBounds_self_of_lt hlt]
      · rw [if_neg hne, block?, hslots,
          Array.getElem?_setIfInBounds_ne (toNat_ne (Ne.symm hne)), block?]

end UniversalMachine.Heap
