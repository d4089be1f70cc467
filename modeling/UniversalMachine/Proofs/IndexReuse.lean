import UniversalMachine.Proofs.BlockIsolation

/-! The order in which indices are given out. All indices that a heap can still give stand in one
row: the free ones from the top of their stack, then those that were never handed out. A reclamation
puts its index in front, an allocation takes the first, and no other call touches the row. -/

namespace UniversalMachine.Heap

/-- Whether a call frees or takes an index. -/
def Operation.movesIndex : Operation → Bool
  | allocate _ | reclaim _ => true
  | read _ _ | write _ _ _ | loadProgram _ => false

/-- What the reclamations and allocations among some calls answer, in their order: an allocation
gives the index of its block. -/
def indexAnswers (h : Heap) : List Operation → List (Except HeapError (Option Word))
  | [] => []
  | .allocate size :: ops =>
    (h.allocate size).1.map some :: indexAnswers (h.perform (.allocate size)) ops
  | .reclaim index :: ops =>
    (h.reclaim index).1.map (fun _ => none) :: indexAnswers (h.perform (.reclaim index)) ops
  | op :: ops => indexAnswers (h.perform op) ops

/-- The indices from `n` on, smallest first. -/
def indicesFrom (n : Nat) : List Word := (List.range' n (UInt32.size - n)).map UInt32.ofNat

/-- The indices that a heap can still give, in the order in which it gives them. -/
def supply (h : Heap) : List Word := h.free ++ indicesFrom h.slots.size

variable {h after : Heap} {index size : Word} {op : Operation} {ops : List Operation}

section Supply

theorem indicesFrom_eq_cons {n : Nat} (hroom : n < UInt32.size) :
    indicesFrom n = UInt32.ofNat n :: indicesFrom (n + 1) := by
  obtain ⟨room, hsize⟩ := Nat.exists_eq_add_of_lt hroom
  have hall : UInt32.size - n = room + 1 := by omega
  have hrest : UInt32.size - (n + 1) = room := by omega
  rw [indicesFrom, indicesFrom, hall, hrest, List.range'_succ, List.map_cons]

theorem indicesFrom_eq_nil {n : Nat} (hfull : UInt32.size ≤ n) : indicesFrom n = [] := by
  rw [indicesFrom, Nat.sub_eq_zero_of_le hfull]
  rfl

theorem supply_of_size (hfree : after.free = h.free) (hsize : after.slots.size = h.slots.size) :
    after.supply = h.supply := by
  rw [supply, supply, hfree, hsize]

theorem supply_release (h : Heap) (index : Word) :
    (h.release index).supply = index :: h.supply := by
  rw [supply, release, Array.size_setIfInBounds]
  rfl

/-- An allocation that can be made takes the first index of the row. -/
theorem supply_eq_cons (hroom : h.free = [] → h.slots.size < UInt32.size) (size : Word) :
    h.supply = h.nextIndex :: (h.addBlock size).supply := by
  cases hfree : h.free with
  | nil =>
    have hsize : (h.addBlock size).slots.size = h.slots.size + 1 := by
      rw [slots_addBlock_fresh hfree, Array.size_push]
    simp only [supply, free_addBlock, nextIndex, hfree, hsize, List.tail_nil, List.nil_append]
    exact indicesFrom_eq_cons (hroom hfree)
  | cons top rest =>
    have hsize : (h.addBlock size).slots.size = h.slots.size := by
      rw [slots_addBlock_reused hfree, Array.size_setIfInBounds]
    simp only [supply, free_addBlock, nextIndex, hfree, hsize, List.tail_cons, List.cons_append]

theorem supply_eq_nil (hfree : h.free = []) (hfull : UInt32.size ≤ h.slots.size) :
    h.supply = [] := by
  rw [supply, hfree, indicesFrom_eq_nil hfull, List.nil_append]

end Supply

section Calls

theorem perform_bounds (h : Heap) (op : Operation) : h.SameBounds (h.perform op) := by
  have hp := perform_performed h op
  generalize h.perform op = after at hp
  cases hp with
  | unchanged => exact ⟨rfl, rfl⟩
  | allocated ha => exact allocate_bounds ha
  | written hw => exact write_bounds hw
  | reclaimed hr => exact reclaim_bounds hr
  | loaded hl => exact loadProgram_bounds hl

theorem performAll_bounds (h : Heap) (ops : List Operation) :
    h.SameBounds (h.performAll ops) := by
  induction ops generalizing h with
  | nil => exact ⟨rfl, rfl⟩
  | cons op ops ih =>
    obtain ⟨hlimit, hgranted⟩ := perform_bounds h op
    obtain ⟨hlimit', hgranted'⟩ := ih (h.perform op)
    exact ⟨hlimit'.trans hlimit, hgranted'.trans hgranted⟩

/-- A call that moves no index leaves the row as it is, and the blocks live or not as they were. -/
theorem Performed.of_not_movesIndex (hp : Performed h op after) (hi : h.Invariant)
    (hop : op.movesIndex = false) :
    after.supply = h.supply ∧ ∀ i, after.isLive i = h.isLive i := by
  cases hp with
  | unchanged => exact ⟨rfl, fun i => rfl⟩
  | allocated ha => cases hop
  | reclaimed hr => cases hop
  | @written index offset value after hw =>
    obtain ⟨⟨old, hread⟩, rfl⟩ := write_eq_ok_iff.mp hw
    obtain ⟨b, hb, -⟩ := read_eq_ok_iff.mp hread
    refine ⟨?_, ?_⟩
    · exact supply_of_size rfl Array.size_modify
    · intro i
      rw [isLive, isLive, block?_store hb]
      by_cases hindex : i = index
      · rw [if_pos hindex, hindex, hb]
        rfl
      · rw [if_neg hindex]
  | @loaded index after hl =>
    rcases loadProgram_eq_ok_iff.mp hl with ⟨-, rfl⟩ | ⟨-, block, -, rfl⟩
    · exact ⟨rfl, fun i => rfl⟩
    · refine ⟨?_, ?_⟩
      · exact supply_of_size rfl Array.size_setIfInBounds
      · intro i
        rw [isLive, isLive, block?_setProgram hi]
        by_cases hzero : i = 0
        · have hprogram := hi.program_live
          rw [if_pos hzero, hzero]
          exact hprogram.symm
        · rw [if_neg hzero]

theorem indexAnswers_of_not_movesIndex (hop : op.movesIndex = false) :
    h.indexAnswers (op :: ops) = (h.perform op).indexAnswers ops := by
  cases op with
  | allocate size => cases hop
  | reclaim index => cases hop
  | read index offset => rfl
  | write index offset value => rfl
  | loadProgram index => rfl

theorem indexAnswers_reclaim (hne : index ≠ 0) (hlive : h.isLive index = true)
    (ops : List Operation) :
    h.indexAnswers (.reclaim index :: ops) = .ok none :: (h.release index).indexAnswers ops ∧
      h.perform (.reclaim index) = h.release index := by
  have hr : h.reclaim index = (.ok (), h.release index) :=
    reclaim_eq_ok_iff.mpr ⟨hne, hlive, rfl⟩
  have hperform : h.perform (.reclaim index) = h.release index := by
    rw [perform, hr]
  refine ⟨?_, hperform⟩
  rw [indexAnswers, hperform, hr]
  rfl

/-- An allocation within the limit gives the first index of the row, if there is one. -/
theorem indexAnswers_allocate (hgranted : h.granted = none) (hsize : size ≤ h.limit)
    (ops : List Operation) :
    (∃ index after, h.supply = index :: after.supply ∧ h.perform (.allocate size) = after ∧
      h.indexAnswers (.allocate size :: ops) = .ok (some index) :: after.indexAnswers ops) ∨
    h.supply = [] ∧ h.perform (.allocate size) = h ∧
      h.indexAnswers (.allocate size :: ops) = .error .indicesExhausted :: h.indexAnswers ops := by
  cases hr : (h.allocate size).1 with
  | ok index =>
    obtain ⟨after, ha⟩ : ∃ after, h.allocate size = (.ok index, after) := ⟨_, Prod.ext hr rfl⟩
    have hperform : h.perform (.allocate size) = after := by
      rw [perform, ha]
    obtain ⟨-, hroom, rfl, rfl⟩ := allocate_eq_ok_iff.mp ha
    refine Or.inl ⟨_, _, supply_eq_cons hroom size, hperform, ?_⟩
    rw [indexAnswers, hperform, ha]
    rfl
  | error e =>
    have ha := allocate_of_error hr
    have hperform : h.perform (.allocate size) = h := by
      rw [perform, ha]
    rcases (allocate_eq_error_iff hgranted).mp hr with ⟨hlarge, -⟩ | ⟨-, hfree, hfull, rfl⟩
    · exact absurd hlarge (UInt32.not_lt.mpr hsize)
    · refine Or.inr ⟨supply_eq_nil hfree hfull, hperform, ?_⟩
      rw [indexAnswers, hperform, ha]
      rfl

end Calls

section Histories

/-- Live blocks are all reclaimed, and their indices go in front of the row, the last one first. -/
theorem indexAnswers_reclaims (hi : h.Invariant) {indices : List Word} (hnodup : indices.Nodup)
    (hlive : ∀ index ∈ indices, index ≠ 0 ∧ h.isLive index = true)
    (hops : ops.filter Operation.movesIndex = indices.map .reclaim) :
    h.indexAnswers ops = indices.map (fun _ => .ok none) ∧
      (h.performAll ops).supply = indices.reverse ++ h.supply := by
  -- over the calls, in any heap: a reclamation uses up the first index, the others none
  induction ops generalizing h indices with
  | nil =>
    obtain rfl := List.map_eq_nil_iff.mp hops.symm
    exact ⟨rfl, rfl⟩
  | cons op ops ih =>
    have hnext : (h.perform op).Invariant := perform_invariant hi op
    by_cases hop : op.movesIndex = true
    · rw [List.filter_cons_of_pos hop] at hops
      obtain ⟨index, rest, rfl, rfl, hrest⟩ := List.map_eq_cons_iff.mp hops.symm
      obtain ⟨hne, hfirst⟩ := hlive index List.mem_cons_self
      obtain ⟨hanswers, hperform⟩ := indexAnswers_reclaim hne hfirst ops
      obtain ⟨hfresh, hnodup⟩ := List.nodup_cons.mp hnodup
      rw [hperform] at hnext
      have hothers : ∀ i ∈ rest, i ≠ 0 ∧ (h.release index).isLive i = true := by
        intro i hmem
        obtain ⟨hzero, hi⟩ := hlive i (List.mem_cons_of_mem index hmem)
        have hother : i ≠ index := fun e => hfresh (e ▸ hmem)
        refine ⟨hzero, ?_⟩
        rw [isLive, block?_release hfirst, if_neg hother]
        exact hi
      obtain ⟨hbehind, hsupply⟩ := ih hnext hnodup hothers hrest.symm
      have hall : h.performAll (.reclaim index :: ops) = (h.release index).performAll ops :=
        congrArg (performAll · ops) hperform
      refine ⟨?_, ?_⟩
      · rw [hanswers, hbehind]
        rfl
      · rw [hall, hsupply, supply_release, List.reverse_cons, List.append_assoc]
        rfl
    · have hstill : op.movesIndex = false := Bool.eq_false_iff.mpr hop
      obtain ⟨hsupply, hsame⟩ := (perform_performed h op).of_not_movesIndex hi hstill
      rw [List.filter_cons_of_neg hop] at hops
      have hkept : ∀ index ∈ indices, index ≠ 0 ∧ (h.perform op).isLive index = true := by
        intro index hmem
        rw [hsame index]
        exact hlive index hmem
      obtain ⟨hbehind, hrow⟩ := ih hnext hnodup hkept hops
      refine ⟨?_, ?_⟩
      · rw [indexAnswers_of_not_movesIndex hstill]
        exact hbehind
      · rw [← hsupply]
        exact hrow

/-- Allocations within the limit give the indices of the row one by one, and fail behind its end. -/
theorem indexAnswers_allocates (hi : h.Invariant) (hgranted : h.granted = none) {sizes : List Word}
    (hsizes : ∀ size ∈ sizes, size ≤ h.limit)
    (hops : ops.filter Operation.movesIndex = sizes.map .allocate) :
    h.indexAnswers ops = (h.supply.take sizes.length).map (fun index => .ok (some index)) ++
      List.replicate (sizes.length - h.supply.length) (.error .indicesExhausted) := by
  induction ops generalizing h sizes with
  | nil =>
    obtain rfl := List.map_eq_nil_iff.mp hops.symm
    simp [indexAnswers]
  | cons op ops ih =>
    have hnext : (h.perform op).Invariant := perform_invariant hi op
    obtain ⟨hlimit, hmemory⟩ := perform_bounds h op
    have hlimit : ∀ size ≤ h.limit, size ≤ (h.perform op).limit := by
      intro size hsize
      rw [hlimit]
      exact hsize
    have hmemory := hmemory.trans hgranted
    by_cases hop : op.movesIndex = true
    · rw [List.filter_cons_of_pos hop] at hops
      obtain ⟨size, rest, rfl, rfl, hrest⟩ := List.map_eq_cons_iff.mp hops.symm
      obtain ⟨hsize, hothers⟩ := List.forall_mem_cons.mp hsizes
      have hbehind :=
        ih hnext hmemory (fun other hmem => hlimit other (hothers other hmem)) hrest.symm
      rcases indexAnswers_allocate hgranted hsize ops with
        ⟨index, after, hsupply, hperform, hanswers⟩ | ⟨hsupply, hperform, hanswers⟩
      · rw [hperform] at hbehind
        rw [hanswers, hbehind, hsupply, List.length_cons, List.length_cons, List.take_succ_cons,
          Nat.succ_sub_succ]
        rfl
      · rw [hperform] at hbehind
        rw [hanswers, hbehind, hsupply, List.length_cons]
        simp [List.replicate_succ]
    · have hstill : op.movesIndex = false := Bool.eq_false_iff.mpr hop
      obtain ⟨hsupply, -⟩ := (perform_performed h op).of_not_movesIndex hi hstill
      rw [List.filter_cons_of_neg hop] at hops
      have hbehind := ih hnext hmemory (fun size hmem => hlimit size (hsizes size hmem)) hops
      rw [indexAnswers_of_not_movesIndex hstill, hbehind, hsupply]

end Histories

/-- The last index freed is the first reused. In every heap that calls lead to, distinct live blocks
other than the program can all be reclaimed. Allocations within the limit then give their indices,
the last first, the indices that were free before, and the indices that were never handed out from
the smallest on, until there are no more. Calls in between that free and take no index, failed ones
included, change nothing about that. -/
theorem last_freed_first_reused (p : Program) (limit : Word)
    (history reclaims allocations : List Operation) (indices sizes : List Word) :
    let h := (ofProgram p limit).performAll history
    let order := indices.reverse ++ h.free ++ indicesFrom h.slots.size
    indices.Nodup → (∀ index ∈ indices, index ≠ 0 ∧ h.isLive index = true) →
    reclaims.filter Operation.movesIndex = indices.map .reclaim →
    allocations.filter Operation.movesIndex = sizes.map .allocate →
    (∀ size ∈ sizes, size ≤ limit) →
    h.indexAnswers reclaims = indices.map (fun _ => .ok none) ∧
    (h.performAll reclaims).indexAnswers allocations =
      (order.take sizes.length).map (fun index => .ok (some index)) ++
        List.replicate (sizes.length - order.length) (.error .indicesExhausted) := by
  intro h order hnodup hlive hreclaims hallocations hsizes
  have hi : h.Invariant := performAll_invariant (ofProgram_invariant p limit none) history
  obtain ⟨hanswers, hsupply⟩ := indexAnswers_reclaims hi hnodup hlive hreclaims
  have horder : (h.performAll reclaims).supply = order :=
    hsupply.trans (List.append_assoc _ _ _).symm
  obtain ⟨hlimit₁, hgranted₁⟩ := performAll_bounds (ofProgram p limit) history
  obtain ⟨hlimit₂, hgranted₂⟩ := performAll_bounds h reclaims
  have hlimit : (h.performAll reclaims).limit = limit := hlimit₂.trans hlimit₁
  have hgranted : (h.performAll reclaims).granted = none := hgranted₂.trans hgranted₁
  have hgiven := indexAnswers_allocates (performAll_invariant hi reclaims) hgranted
    (fun size hmem => hlimit ▸ hsizes size hmem) hallocations
  rw [horder] at hgiven
  exact ⟨hanswers, hgiven⟩

/-- Index 2 is free already when 3 and 1 are reclaimed. -/
theorem last_freed_first_reused_interleaved :
    let h := (ofProgram [7] 5).performAll [.allocate 2, .allocate 2, .allocate 2, .reclaim 2]
    let reclaims : List Operation :=
      [.write 1 0 9, .reclaim 3, .loadProgram 1, .read 3 0, .reclaim 1]
    let allocations : List Operation :=
      [.allocate 5, .loadProgram 1, .allocate 0, .write 3 0 4, .allocate 1, .allocate 1]
    h.free = [2] ∧ h.indexAnswers reclaims = [.ok none, .ok none] ∧
      (h.performAll reclaims).indexAnswers allocations =
        [.ok (some 1), .ok (some 3), .ok (some 2), .ok (some 4)] := by
  intro h reclaims allocations
  have hfree : h.free = [2] := by decide
  have hsize : h.slots.size = 4 := by decide
  have hlive : ∀ index ∈ ([3, 1] : List Word), index ≠ 0 ∧ h.isLive index = true :=
    List.forall_mem_cons.mpr ⟨by decide, List.forall_mem_singleton.mpr (by decide)⟩
  obtain ⟨hfreed, hgiven⟩ := last_freed_first_reused [7] 5
    [.allocate 2, .allocate 2, .allocate 2, .reclaim 2] reclaims allocations [3, 1] [5, 0, 1, 1]
    (by decide) hlive (by decide) (by decide) (by simp)
  obtain ⟨others, hfresh⟩ : ∃ others, indicesFrom h.slots.size = 4 :: others := by
    rw [hsize]
    exact ⟨_, indicesFrom_eq_cons (by decide)⟩
  have horder :
      [3, 1].reverse ++ h.free ++ indicesFrom h.slots.size = 1 :: 3 :: 2 :: 4 :: others := by
    rw [hfree, hfresh]
    rfl
  rw [horder] at hgiven
  refine ⟨hfree, hfreed, hgiven.trans ?_⟩
  simp

end UniversalMachine.Heap
