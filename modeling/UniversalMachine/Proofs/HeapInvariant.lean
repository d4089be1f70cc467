import UniversalMachine.Heap
import Mathlib.Tactic.ByContra

/-! The bookkeeping of the heap.
The free stack, the count of live blocks, the peak and the counters all follow from which slots are
empty, after every sequence of calls, failed ones included. -/

namespace UniversalMachine.Heap

/-- A call on the heap. -/
inductive Operation where
  | allocate (size : Word)
  | read (index offset : Word)
  | write (index offset value : Word)
  | reclaim (index : Word)
  | loadProgram (index : Word)
  deriving DecidableEq, Repr

/-- The heap behind a call. -/
def perform (h : Heap) : Operation → Heap
  | .allocate size => (h.allocate size).2
  | .read _ _ => h
  | .write index offset value => (h.write index offset value).2
  | .reclaim index => (h.reclaim index).2
  | .loadProgram index => (h.loadProgram index).2

/-- The heap behind a sequence of calls. -/
def performAll (h : Heap) (ops : List Operation) : Heap := ops.foldl perform h

structure Invariant (h : Heap) : Prop where
  program_live : h.isLive 0 = true
  free_nodup : h.free.Nodup
  free_iff : ∀ n : Nat, (∃ index ∈ h.free, index.toNat = n) ↔ h.slots[n]? = some none
  live_eq_count : h.live = h.slots.countP Option.isSome
  live_add_free : h.live + h.free.length = h.slots.size
  allocations_eq : h.stats.allocations + 1 = h.stats.reclamations + h.live
  size_eq_peak : h.slots.size = h.stats.peak
  size_le : h.slots.size ≤ UInt32.size

theorem isLive_iff {h : Heap} {index : Word} :
    h.isLive index = true ↔ ∃ b, h.slots[index.toNat]? = some (some b) := by
  rw [isLive, block?]
  rcases h.slots[index.toNat]? with _ | _ | b <;> simp

theorem program_live_iff {h : Heap} :
    h.isLive 0 = true ↔ ∃ b, h.slots[0]? = some (some b) := isLive_iff

theorem block?_eq_some_iff {h : Heap} {index : Word} {b : Block} :
    h.block? index = some b ↔ h.slots[index.toNat]? = some (some b) := by
  rw [block?]
  rcases h.slots[index.toNat]? with _ | _ | c <;> simp

section Counting

variable {slots : Array (Option Block)} {n : Nat}

theorem countP_setIfInBounds (hn : n < slots.size) (slot : Option Block) :
    (slots.setIfInBounds n slot).countP Option.isSome + (if slots[n].isSome then 1 else 0) =
      slots.countP Option.isSome + if slot.isSome then 1 else 0 := by
  have hset : slots.setIfInBounds n slot = slots.set n slot hn := by
    simp [Array.setIfInBounds, hn]
  have hpos : slots[n].isSome = true → 0 < slots.countP Option.isSome := fun h =>
    Array.countP_pos_iff.mpr ⟨slots[n], Array.getElem_mem hn, h⟩
  rw [hset, Array.countP_set]
  split
  · rename_i h
    have := hpos h
    omega
  · omega

end Counting

theorem Invariant.free_lt_size {h : Heap} (hi : h.Invariant) {index : Word}
    (hf : index ∈ h.free) : index.toNat < h.slots.size := by
  have he := (hi.free_iff index.toNat).mp ⟨index, hf, rfl⟩
  exact (Array.getElem?_eq_some_iff.mp he).1

theorem Invariant.zero_not_free {h : Heap} (hi : h.Invariant) : (0 : Word) ∉ h.free := by
  intro hf
  obtain ⟨b, hb⟩ := program_live_iff.mp hi.program_live
  have he := (hi.free_iff 0).mp ⟨0, hf, rfl⟩
  rw [he] at hb
  cases hb

theorem Invariant.live_pos {h : Heap} (hi : h.Invariant) : 1 ≤ h.live := by
  obtain ⟨b, hb⟩ := program_live_iff.mp hi.program_live
  obtain ⟨hlt, hb⟩ := Array.getElem?_eq_some_iff.mp hb
  rw [hi.live_eq_count]
  exact Array.countP_pos_iff.mpr ⟨_, Array.getElem_mem hlt, by rw [hb]; rfl⟩

/-- With an empty free stack no slot is empty. -/
theorem Invariant.isSome_of_free_nil {h : Heap} (hi : h.Invariant) (hf : h.free = []) {n : Nat}
    (hn : n < h.slots.size) : h.slots[n].isSome = true := by
  by_contra hnone
  have he : h.slots[n]? = some none := by
    rw [Array.getElem?_eq_getElem hn]
    simpa using hnone
  obtain ⟨index, hm, -⟩ := (hi.free_iff n).mpr he
  rw [hf] at hm
  cases hm

theorem ofProgram_invariant (p : Program) (limit : Word) (granted : Option Nat) :
    (ofProgram p limit granted).Invariant := by
  constructor
  · rfl
  · exact List.nodup_nil
  · intro n
    rcases n with _ | n <;> simp [ofProgram]
  · rfl
  · rfl
  · rfl
  · rfl
  · change 1 ≤ UInt32.size
    decide

/-- What a heap holds in its blocks does not enter its bookkeeping, only which slots are empty. -/
theorem Invariant.of_occupancy {h after : Heap} (hi : h.Invariant)
    (hslots : after.slots.map Option.isSome = h.slots.map Option.isSome)
    (hfree : after.free = h.free) (hlive : after.live = h.live)
    (hstats : after.stats.allocations = h.stats.allocations ∧
      after.stats.reclamations = h.stats.reclamations ∧ after.stats.peak = h.stats.peak) :
    after.Invariant := by
  have hget : ∀ n : Nat, (after.slots[n]?).map Option.isSome = (h.slots[n]?).map Option.isSome := by
    intro n
    rw [← Array.getElem?_map, ← Array.getElem?_map, hslots]
  have hsize : after.slots.size = h.slots.size := by
    simpa using congrArg Array.size hslots
  have hcount : after.slots.countP Option.isSome = h.slots.countP Option.isSome := by
    have hc := congrArg (Array.countP id) hslots
    rwa [Array.countP_map, Array.countP_map, Function.id_comp] at hc
  obtain ⟨ha, hr, hp⟩ := hstats
  refine ⟨?_, hfree ▸ hi.free_nodup, ?_, ?_, ?_, ?_, ?_, ?_⟩
  · obtain ⟨b, hb⟩ := program_live_iff.mp hi.program_live
    have h0 := hget 0
    rw [hb] at h0
    rw [program_live_iff]
    rcases hslot : after.slots[0]? with _ | _ | c
    · rw [hslot] at h0
      cases h0
    · rw [hslot] at h0
      cases h0
    · exact ⟨c, rfl⟩
  · intro n
    have hn := hget n
    rw [hfree, hi.free_iff n]
    generalize after.slots[n]? = new at hn
    generalize h.slots[n]? = old at hn
    rcases new with _ | _ | c <;> rcases old with _ | _ | d <;> simp at hn ⊢
  · rw [hlive, hi.live_eq_count, hcount]
  · rw [hlive, hfree, hsize]
    exact hi.live_add_free
  · rw [ha, hr, hlive]
    exact hi.allocations_eq
  · rw [hsize, hp]
    exact hi.size_eq_peak
  · rw [hsize]
    exact hi.size_le

theorem store_invariant {h : Heap} (hi : h.Invariant) (index offset value : Word) :
    (h.store index offset value).Invariant := by
  refine hi.of_occupancy ?_ rfl rfl ⟨rfl, rfl, rfl⟩
  apply Array.ext_getElem?
  intro n
  rw [store, Array.getElem?_map, Array.getElem?_map, Array.getElem?_modify]
  split
  · rcases h.slots[n]? with _ | _ | b <;> rfl
  · rfl

theorem setProgram_invariant {h : Heap} (hi : h.Invariant) (block : Block) :
    (h.setProgram block).Invariant := by
  obtain ⟨b, hb⟩ := program_live_iff.mp hi.program_live
  refine hi.of_occupancy ?_ rfl rfl ⟨rfl, rfl, rfl⟩
  apply Array.ext_getElem?
  intro n
  rw [setProgram, Array.getElem?_map, Array.getElem?_map, Array.getElem?_setIfInBounds]
  split
  · rename_i hn
    subst hn
    obtain ⟨hlt, -⟩ := Array.getElem?_eq_some_iff.mp hb
    rw [if_pos hlt, hb]
    rfl
  · rfl

/-- The top of a stack only matters to its own slot. -/
theorem exists_mem_cons_of_ne {index : Word} {rest : List Word} {n : Nat} (hn : index.toNat ≠ n) :
    (∃ other ∈ index :: rest, other.toNat = n) ↔ ∃ other ∈ rest, other.toNat = n := by
  constructor
  · rintro ⟨other, ho, e⟩
    rcases List.mem_cons.mp ho with rfl | ho
    · exact absurd e hn
    · exact ⟨other, ho, e⟩
  · rintro ⟨other, ho, e⟩
    exact ⟨other, List.mem_cons_of_mem index ho, e⟩

/-- The index that the next allocation gives. -/
def nextIndex (h : Heap) : Word :=
  match h.free with
  | index :: _ => index
  | [] => .ofNat h.slots.size

/-- The heap with a block of zeros at the next index. -/
def addBlock (h : Heap) (size : Word) : Heap :=
  let block : Block := Array.replicate size.toNat 0
  { h with
    slots :=
      match h.free with
      | index :: _ => h.slots.setIfInBounds index.toNat (some block)
      | [] => h.slots.push (some block)
    free := h.free.tail
    live := h.live + 1
    stats := { h.stats with
      allocations := h.stats.allocations + 1
      peak := max h.stats.peak (h.live + 1) } }

section AddBlock

variable {h : Heap} {index : Word} {rest : List Word}

theorem slots_addBlock_reused (hf : h.free = index :: rest) (size : Word) :
    (h.addBlock size).slots =
      h.slots.setIfInBounds index.toNat (some (Array.replicate size.toNat 0)) := by
  simp [addBlock, hf]

theorem slots_addBlock_fresh (hf : h.free = []) (size : Word) :
    (h.addBlock size).slots = h.slots.push (some (Array.replicate size.toNat 0)) := by
  simp [addBlock, hf]

theorem free_addBlock (size : Word) : (h.addBlock size).free = h.free.tail := rfl

theorem nextIndex_of_free_nil (hf : h.free = []) (hroom : h.slots.size < UInt32.size) :
    h.nextIndex.toNat = h.slots.size := by
  rw [nextIndex, hf]
  exact UInt32.toNat_ofNat_of_lt' hroom

/-- Taking an index from the free stack fills an empty slot, so no slot is added. -/
theorem addBlock_invariant_reused (hi : h.Invariant) (hf : h.free = index :: rest) (size : Word) :
    (h.addBlock size).Invariant := by
  have hmem : index ∈ h.free := hf ▸ List.mem_cons_self
  have hlt := hi.free_lt_size hmem
  have hempty : h.slots[index.toNat]? = some none := (hi.free_iff _).mp ⟨index, hmem, rfl⟩
  have hne : index.toNat ≠ 0 := by
    intro e
    have hzero : index = 0 := UInt32.toNat_inj.mp e
    exact hi.zero_not_free (hzero ▸ hmem)
  have hslots := slots_addBlock_reused hf size
  have hrest : (h.addBlock size).free = rest := by
    rw [free_addBlock, hf, List.tail_cons]
  have hnodup := hi.free_nodup
  rw [hf, List.nodup_cons] at hnodup
  have hlen := hi.live_add_free
  rw [hf, List.length_cons] at hlen
  have hpeak := hi.size_eq_peak
  refine ⟨?_, hrest ▸ hnodup.2, ?_, ?_, ?_, ?_, ?_, ?_⟩
  · obtain ⟨b, hb⟩ := program_live_iff.mp hi.program_live
    rw [program_live_iff, hslots, Array.getElem?_setIfInBounds_ne hne]
    exact ⟨b, hb⟩
  · intro n
    rw [hrest, hslots, Array.getElem?_setIfInBounds]
    by_cases hn : index.toNat = n
    · subst hn
      simp only [if_true, hlt]
      constructor
      · rintro ⟨other, ho, e⟩
        exact absurd (UInt32.toNat_inj.mp e ▸ ho) hnodup.1
      · intro e
        cases e
    · rw [if_neg hn, ← hi.free_iff n, hf]
      exact (exists_mem_cons_of_ne hn).symm
  · have hc := countP_setIfInBounds hlt (some (Array.replicate size.toNat 0))
    rw [(Array.getElem?_eq_some_iff.mp hempty).2, ← hslots, ← hi.live_eq_count] at hc
    exact hc.symm
  · rw [hrest, hslots, Array.size_setIfInBounds]
    change h.live + 1 + rest.length = h.slots.size
    omega
  · have ha := hi.allocations_eq
    change h.stats.allocations + 1 + 1 = h.stats.reclamations + (h.live + 1)
    omega
  · rw [hslots, Array.size_setIfInBounds]
    change h.slots.size = max h.stats.peak (h.live + 1)
    omega
  · rw [hslots, Array.size_setIfInBounds]
    exact hi.size_le

/-- A new index is given only when all slots are full, so the number of slots is the new peak. -/
theorem addBlock_invariant_fresh (hi : h.Invariant) (hf : h.free = [])
    (hroom : h.slots.size < UInt32.size) (size : Word) : (h.addBlock size).Invariant := by
  have hslots := slots_addBlock_fresh hf size
  have hfree : (h.addBlock size).free = [] := by
    rw [free_addBlock, hf, List.tail_nil]
  have hlen := hi.live_add_free
  rw [hf, List.length_nil] at hlen
  have hpeak := hi.size_eq_peak
  have hpos := hi.live_pos
  refine ⟨?_, hfree ▸ List.nodup_nil, ?_, ?_, ?_, ?_, ?_, ?_⟩
  · obtain ⟨b, hb⟩ := program_live_iff.mp hi.program_live
    obtain ⟨hlt, -⟩ := Array.getElem?_eq_some_iff.mp hb
    rw [program_live_iff, hslots, Array.getElem?_push_lt hlt]
    exact ⟨b, by rw [← hb, Array.getElem?_eq_getElem hlt]⟩
  · intro n
    rw [hfree, hslots, Array.getElem?_push]
    have hn := hi.free_iff n
    rw [hf] at hn
    split
    · simp
    · exact hn
  · rw [hslots, Array.countP_push, ← hi.live_eq_count]
    rfl
  · rw [hfree, hslots, Array.size_push]
    change h.live + 1 + 0 = h.slots.size + 1
    omega
  · have ha := hi.allocations_eq
    change h.stats.allocations + 1 + 1 = h.stats.reclamations + (h.live + 1)
    omega
  · rw [hslots, Array.size_push]
    change h.slots.size + 1 = max h.stats.peak (h.live + 1)
    omega
  · rw [hslots, Array.size_push]
    omega

end AddBlock

theorem release_invariant {h : Heap} (hi : h.Invariant) {index : Word} (hne : index ≠ 0)
    (hl : h.isLive index = true) : (h.release index).Invariant := by
  obtain ⟨b, hb⟩ := isLive_iff.mp hl
  obtain ⟨hlt, hblock⟩ := Array.getElem?_eq_some_iff.mp hb
  have hne0 : index.toNat ≠ 0 := fun e => hne (UInt32.toNat_inj.mp e)
  have hcount := countP_setIfInBounds hlt none
  rw [hblock, ← hi.live_eq_count] at hcount
  simp only [Option.isSome_some, Option.isSome_none, if_true, Bool.false_eq_true,
    if_false] at hcount
  refine ⟨?_, ?_, ?_, ?_, ?_, ?_, ?_, ?_⟩
  · obtain ⟨c, hc⟩ := program_live_iff.mp hi.program_live
    rw [program_live_iff, release, Array.getElem?_setIfInBounds_ne hne0]
    exact ⟨c, hc⟩
  · refine List.nodup_cons.mpr ⟨?_, hi.free_nodup⟩
    intro hf
    have he := (hi.free_iff _).mp ⟨index, hf, rfl⟩
    rw [hb] at he
    cases he
  · intro n
    rw [release, Array.getElem?_setIfInBounds]
    by_cases hn : index.toNat = n
    · subst hn
      simp only [if_true, hlt, iff_true]
      exact ⟨index, List.mem_cons_self, rfl⟩
    · rw [if_neg hn, ← hi.free_iff n]
      exact exists_mem_cons_of_ne hn
  · change h.live - 1 = (h.slots.setIfInBounds index.toNat none).countP Option.isSome
    omega
  · have hsum := hi.live_add_free
    rw [release, List.length_cons, Array.size_setIfInBounds]
    change h.live - 1 + (h.free.length + 1) = h.slots.size
    omega
  · have ha := hi.allocations_eq
    change h.stats.allocations + 1 = h.stats.reclamations + 1 + (h.live - 1)
    omega
  · rw [release, Array.size_setIfInBounds]
    exact hi.size_eq_peak
  · rw [release, Array.size_setIfInBounds]
    exact hi.size_le

section Calls

variable {h after : Heap} {index offset value size : Word}

/-- An allocation is refused for its size, for want of memory or for want of an index, and else it
adds a block. -/
theorem allocate_eq (h : Heap) (size : Word) :
    h.allocate size =
      if h.limit < size then (.error (.allocationTooLarge size h.limit), h)
      else if !h.hasMemory size then (.error (.outOfMemory size), h)
      else if h.free = [] ∧ UInt32.size ≤ h.slots.size then (.error .indicesExhausted, h)
      else (.ok h.nextIndex, h.addBlock size) := by
  rw [allocate]
  split
  · rfl
  · split
    · rfl
    · cases hf : h.free with
      | nil =>
        -- nothing is popped from an empty stack
        have htail : h.free.tail = h.free := by rw [hf, List.tail_nil]
        have hpopped : h.popFree = (none, h) := by
          rw [popFree, htail, List.head?_eq_none_iff.mpr hf]
        rw [hpopped]
        simp only [true_and]
        split
        · rfl
        · rw [nextIndex, addBlock, hf]
          simp [pushSlot, countAllocation, hf]
      | cons index rest =>
        have hpopped : h.popFree = (some index, { h with free := rest }) := by
          rw [popFree, hf]
          rfl
        rw [hpopped, nextIndex, addBlock, hf, if_neg fun hfull => List.cons_ne_nil _ _ hfull.1]
        rfl

theorem allocate_eq_ok_iff :
    h.allocate size = (.ok index, after) ↔
      (size ≤ h.limit ∧ h.hasMemory size = true) ∧ (h.free = [] → h.slots.size < UInt32.size) ∧
        index = h.nextIndex ∧ after = h.addBlock size := by
  rw [allocate_eq]
  split
  · rename_i hlimit
    constructor
    · intro e
      cases e
    · rintro ⟨⟨hle, -⟩, -⟩
      exact absurd hlimit (UInt32.not_lt.mpr hle)
  · rename_i hlimit
    split
    · rename_i hmemory
      constructor
      · intro e
        cases e
      · rintro ⟨⟨-, hgranted⟩, -⟩
        rw [hgranted] at hmemory
        cases hmemory
    · rename_i hmemory
      split
      · rename_i hfull
        constructor
        · intro e
          cases e
        · rintro ⟨-, hroom, -⟩
          exact absurd (hroom hfull.1) (Nat.not_lt.mpr hfull.2)
      · rename_i hfull
        have hroom : h.free = [] → h.slots.size < UInt32.size := fun hf =>
          Nat.lt_of_not_le fun hle => hfull ⟨hf, hle⟩
        constructor
        · intro e
          cases e
          exact ⟨⟨UInt32.not_lt.mp hlimit, by simpa using hmemory⟩, hroom, rfl, rfl⟩
        · rintro ⟨-, -, rfl, rfl⟩
          rfl

theorem write_eq_ok_iff :
    h.write index offset value = (.ok (), after) ↔
      (∃ old, h.read index offset = .ok old) ∧ after = h.store index offset value := by
  rw [write]
  rcases h.read index offset with e | old
  · simp
  · simp [eq_comm]

theorem reclaim_eq_ok_iff :
    h.reclaim index = (.ok (), after) ↔
      index ≠ 0 ∧ h.isLive index = true ∧ after = h.release index := by
  rw [reclaim]
  by_cases hzero : index = 0
  · simp [hzero]
  · rw [if_neg hzero]
    cases h.isLive index <;> simp [hzero, eq_comm]

theorem loadProgram_eq_ok_iff :
    h.loadProgram index = (.ok (), after) ↔
      index = 0 ∧ after = h ∨
        index ≠ 0 ∧ ∃ block, h.block? index = some block ∧ after = h.setProgram block := by
  rw [loadProgram]
  by_cases h0 : index = 0
  · simp [h0, eq_comm]
  · rcases h.block? index with _ | block
    · simp [h0]
    · simp [h0, eq_comm]

/-- A host that does not run out of memory has some for every block. -/
theorem hasMemory_of_none (hgranted : h.granted = none) (size : Word) :
    h.hasMemory size = true := by
  rw [hasMemory, hgranted]

/-- The bounds set at the start, the largest block and what the host grants, stay as they are. -/
def SameBounds (h after : Heap) : Prop := after.limit = h.limit ∧ after.granted = h.granted

theorem allocate_bounds (ha : h.allocate size = (.ok index, after)) : h.SameBounds after := by
  obtain ⟨-, -, -, rfl⟩ := allocate_eq_ok_iff.mp ha
  exact ⟨rfl, rfl⟩

theorem write_bounds (hw : h.write index offset value = (.ok (), after)) : h.SameBounds after := by
  obtain ⟨-, rfl⟩ := write_eq_ok_iff.mp hw
  exact ⟨rfl, rfl⟩

theorem reclaim_bounds (hr : h.reclaim index = (.ok (), after)) : h.SameBounds after := by
  obtain ⟨-, -, rfl⟩ := reclaim_eq_ok_iff.mp hr
  exact ⟨rfl, rfl⟩

theorem loadProgram_bounds (hl : h.loadProgram index = (.ok (), after)) : h.SameBounds after := by
  rcases loadProgram_eq_ok_iff.mp hl with ⟨-, rfl⟩ | ⟨-, block, -, rfl⟩
  · exact ⟨rfl, rfl⟩
  · exact ⟨rfl, rfl⟩

section Atomicity

variable {e : HeapError}

theorem allocate_of_error (he : (h.allocate size).1 = .error e) :
    h.allocate size = (.error e, h) := by
  rw [allocate_eq] at he ⊢
  split at he
  · rename_i hlimit
    rw [if_pos hlimit, ← he]
  · rename_i hlimit
    rw [if_neg hlimit]
    split at he
    · rename_i hmemory
      rw [if_pos hmemory, ← he]
    · rename_i hmemory
      rw [if_neg hmemory]
      split at he
      · rename_i hfull
        rw [if_pos hfull, ← he]
      · cases he

theorem write_of_error (he : (h.write index offset value).1 = .error e) :
    h.write index offset value = (.error e, h) := by
  rw [write] at he ⊢
  split at he
  · rw [← he]
  · cases he

theorem reclaim_of_error (he : (h.reclaim index).1 = .error e) :
    h.reclaim index = (.error e, h) := by
  rw [reclaim] at he ⊢
  split at he
  · rename_i hzero
    rw [if_pos hzero, ← he]
  · rename_i hzero
    rw [if_neg hzero]
    split at he
    · cases he
    · rename_i hdead
      rw [if_neg hdead, ← he]

theorem loadProgram_of_error (he : (h.loadProgram index).1 = .error e) :
    h.loadProgram index = (.error e, h) := by
  rw [loadProgram] at he ⊢
  split at he
  · cases he
  · rename_i hzero
    rw [if_neg hzero]
    split at he
    · rw [← he]
    · cases he

/-- The heap behind a failed call is the heap before it. -/
theorem eq_of_error {α : Type} {call : Except HeapError α × Heap}
    (hatomic : call.1 = .error e → call = (.error e, h)) (hcall : call = (.error e, after)) :
    after = h := by
  have he := hatomic (congrArg Prod.fst hcall)
  rw [hcall] at he
  exact congrArg Prod.snd he

end Atomicity

theorem allocate_invariant (hi : h.Invariant) (ha : h.allocate size = (.ok index, after)) :
    after.Invariant := by
  obtain ⟨-, hroom, -, rfl⟩ := allocate_eq_ok_iff.mp ha
  rcases hf : h.free with _ | ⟨top, rest⟩
  · exact addBlock_invariant_fresh hi hf (hroom hf) size
  · exact addBlock_invariant_reused hi hf size

theorem write_invariant (hi : h.Invariant) (hw : h.write index offset value = (.ok (), after)) :
    after.Invariant := by
  obtain ⟨-, rfl⟩ := write_eq_ok_iff.mp hw
  exact store_invariant hi index offset value

theorem reclaim_invariant (hi : h.Invariant) (hr : h.reclaim index = (.ok (), after)) :
    after.Invariant := by
  obtain ⟨hne, hl, rfl⟩ := reclaim_eq_ok_iff.mp hr
  exact release_invariant hi hne hl

theorem loadProgram_invariant (hi : h.Invariant) (hl : h.loadProgram index = (.ok (), after)) :
    after.Invariant := by
  rcases loadProgram_eq_ok_iff.mp hl with ⟨-, rfl⟩ | ⟨-, block, -, rfl⟩
  · exact hi
  · exact setProgram_invariant hi block

end Calls

/-- What a call can do: it fails or only reads, and the heap is as before, or it is one of the four
calls that change a heap, and succeeds. -/
inductive Performed (h : Heap) : Operation → Heap → Prop where
  | unchanged {op : Operation} : Performed h op h
  | allocated {size index : Word} {after : Heap} : h.allocate size = (.ok index, after) →
      Performed h (.allocate size) after
  | written {index offset value : Word} {after : Heap} :
      h.write index offset value = (.ok (), after) → Performed h (.write index offset value) after
  | reclaimed {index : Word} {after : Heap} : h.reclaim index = (.ok (), after) →
      Performed h (.reclaim index) after
  | loaded {index : Word} {after : Heap} : h.loadProgram index = (.ok (), after) →
      Performed h (.loadProgram index) after

theorem perform_performed (h : Heap) (op : Operation) : Performed h op (h.perform op) := by
  cases op with
  | allocate size =>
    rw [perform]
    cases hr : (h.allocate size).1 with
    | error e =>
      rw [allocate_of_error hr]
      exact .unchanged
    | ok index => exact .allocated (Prod.ext hr rfl)
  | read index offset => exact .unchanged
  | write index offset value =>
    rw [perform]
    cases hr : (h.write index offset value).1 with
    | error e =>
      rw [write_of_error hr]
      exact .unchanged
    | ok done => exact .written (Prod.ext hr rfl)
  | reclaim index =>
    rw [perform]
    cases hr : (h.reclaim index).1 with
    | error e =>
      rw [reclaim_of_error hr]
      exact .unchanged
    | ok done => exact .reclaimed (Prod.ext hr rfl)
  | loadProgram index =>
    rw [perform]
    cases hr : (h.loadProgram index).1 with
    | error e =>
      rw [loadProgram_of_error hr]
      exact .unchanged
    | ok done => exact .loaded (Prod.ext hr rfl)

theorem perform_invariant {h : Heap} (hi : h.Invariant) (op : Operation) :
    (h.perform op).Invariant := by
  have hp := perform_performed h op
  generalize h.perform op = after at hp ⊢
  cases hp with
  | unchanged => exact hi
  | allocated ha => exact allocate_invariant hi ha
  | written hw => exact write_invariant hi hw
  | reclaimed hr => exact reclaim_invariant hi hr
  | loaded hl => exact loadProgram_invariant hi hl

theorem performAll_invariant {h : Heap} (hi : h.Invariant) (ops : List Operation) :
    (h.performAll ops).Invariant := by
  induction ops generalizing h with
  | nil => exact hi
  | cons op ops ih => exact ih (perform_invariant hi op)

/-- An index that was never handed out is given only when all the smaller ones are live. -/
theorem Invariant.smaller_live {h after : Heap} (hi : h.Invariant) {size index : Word}
    (ha : h.allocate size = (.ok index, after)) (hnew : h.slots.size ≤ index.toNat) :
    index.toNat = h.slots.size ∧ ∀ smaller : Word, smaller < index → h.isLive smaller = true := by
  obtain ⟨-, hroom, rfl, -⟩ := allocate_eq_ok_iff.mp ha
  rcases hf : h.free with _ | ⟨top, rest⟩
  · have hindex := nextIndex_of_free_nil hf (hroom hf)
    refine ⟨hindex, ?_⟩
    intro smaller hlt
    have hin : smaller.toNat < h.slots.size := hindex ▸ UInt32.lt_iff_toNat_lt.mp hlt
    have hsome := hi.isSome_of_free_nil hf hin
    obtain ⟨b, hb⟩ := Option.isSome_iff_exists.mp hsome
    exact isLive_iff.mpr ⟨b, by rw [Array.getElem?_eq_getElem hin, hb]⟩
  · have htop : h.nextIndex = top := by
      rw [nextIndex, hf]
    have hlt : top.toNat < h.slots.size := hi.free_lt_size (hf ▸ List.mem_cons_self)
    rw [htop] at hnew
    exact absurd hlt (Nat.not_lt.mpr hnew)

/-- After any calls on any host, failed ones included, the free stack, the count of live blocks, the
counters and the peak are what the empty slots say. So the top of the free stack is always an index
of a slot, and a reclamation always has a live block to count down. -/
theorem performAll_bookkeeping (p : Program) (limit : Word) (granted : Option Nat)
    (ops : List Operation) :
    let h := (ofProgram p limit granted).performAll ops
    h.isLive 0 = true ∧
    (h.free.Nodup ∧ 0 ∉ h.free ∧
      ∀ n : Nat, (∃ index ∈ h.free, index.toNat = n) ↔ h.slots[n]? = some none) ∧
    (h.live = h.slots.countP Option.isSome ∧ h.live = h.slots.size - h.free.length ∧ 1 ≤ h.live) ∧
    (h.stats.allocations = h.stats.reclamations + h.live - 1 ∧ h.slots.size = h.stats.peak) ∧
    (∀ size index after, h.allocate size = (.ok index, after) → h.slots.size ≤ index.toNat →
      index.toNat = h.slots.size ∧ ∀ smaller : Word, smaller < index → h.isLive smaller = true) ∧
    (∀ index ∈ h.free, index.toNat < h.slots.size) ∧
    ∀ index after, h.reclaim index = (.ok (), after) → after.live + 1 = h.live := by
  intro h
  have hi : h.Invariant := performAll_invariant (ofProgram_invariant p limit granted) ops
  have hpos := hi.live_pos
  have hsum := hi.live_add_free
  have hcounters := hi.allocations_eq
  refine ⟨hi.program_live, ⟨hi.free_nodup, hi.zero_not_free, hi.free_iff⟩,
    ⟨hi.live_eq_count, by omega, hpos⟩, ⟨by omega, hi.size_eq_peak⟩, ?_, ?_, ?_⟩
  · intro size index after ha hnew
    exact hi.smaller_live ha hnew
  · intro index hf
    exact hi.free_lt_size hf
  · intro index after hr
    obtain ⟨-, -, rfl⟩ := reclaim_eq_ok_iff.mp hr
    exact Nat.sub_add_cancel hpos

theorem performAll_bookkeeping_reuse :
    let full := (ofProgram [7] 5).performAll [.allocate 2]
    let h := (ofProgram [7] 5 (some 2)).performAll
      [.allocate 2, .allocate 3, .reclaim 1, .reclaim 1, .write 2 9 4, .allocate 6, .allocate 4,
        .loadProgram 2]
    (full.allocate 3 = (.ok 2, full.addBlock 3) ∧ full.slots.size ≤ (2 : Word).toNat ∧
      ∀ smaller : Word, smaller < 2 → full.isLive smaller = true) ∧
    (h.free = [1] ∧ (1 : Word).toNat < h.slots.size) ∧
    h.reclaim 2 = (.ok (), h.release 2) ∧ (h.release 2).live + 1 = h.live := by
  intro full h
  have hfull := performAll_bookkeeping [7] 5 none [.allocate 2]
  have hh := performAll_bookkeeping [7] 5 (some 2)
    [.allocate 2, .allocate 3, .reclaim 1, .reclaim 1, .write 2 9 4, .allocate 6, .allocate 4,
      .loadProgram 2]
  obtain ⟨-, -, -, -, hfresh, -, -⟩ := hfull
  obtain ⟨-, -, -, -, -, hin, hlive⟩ := hh
  have hnew : full.allocate 3 = (.ok 2, full.addBlock 3) :=
    allocate_eq_ok_iff.mpr ⟨by decide, by decide, by decide, rfl⟩
  have hfree : h.free = [1] := by decide
  have hgone : h.reclaim 2 = (.ok (), h.release 2) :=
    reclaim_eq_ok_iff.mpr ⟨by decide, by decide, rfl⟩
  have hsize : full.slots.size ≤ (2 : Word).toNat := by decide
  exact ⟨⟨hnew, hsize, (hfresh 3 2 _ hnew hsize).2⟩,
    ⟨hfree, hin 1 (by decide)⟩, hgone, hlive 2 _ hgone⟩

end UniversalMachine.Heap
