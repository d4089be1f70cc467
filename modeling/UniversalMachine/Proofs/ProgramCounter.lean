import UniversalMachine.Proofs.BlockIsolation
import UniversalMachine.Proofs.CycleBudget
import UniversalMachine.Proofs.TraceRows

/-! The place in the program never wraps around.
A block is made within the limit on blocks, and only the program that the machine starts with may be
larger. So block 0 has at all times fewer words than there are places, and a machine that runs off
its end finds itself behind the last word, not at the first. -/

namespace UniversalMachine

namespace Heap

variable {h after : Heap} {op : Operation} {words : Nat} {limit : Word}

/-- Blocks are within the limit, all but the program of so many words that the heap began with. -/
structure Sized (words : Nat) (limit : Word) (h : Heap) : Prop where
  invariant : h.Invariant
  limit_eq : h.limit = limit
  size_le : ∀ (index : Word) (b : Block), h.block? index = some b →
    b.size ≤ limit.toNat ∨ index = 0 ∧ h.stats.loads = 0 ∧ b.size = words

theorem ofProgram_sized (p : Program) (limit : Word) :
    (ofProgram p limit).Sized p.length limit where
  invariant := ofProgram_invariant p limit none
  limit_eq := rfl
  size_le index b hb := by
    obtain ⟨hlt, hslot⟩ := Array.getElem?_eq_some_iff.mp (block?_eq_some_iff.mp hb)
    have hzero : index.toNat = 0 := by
      simp only [ofProgram, List.size_toArray, List.length_singleton] at hlt
      omega
    obtain rfl : index = 0 := UInt32.toNat_inj.mp hzero
    obtain rfl : p.toArray = b := Option.some.inj hslot
    exact .inr ⟨rfl, rfl, List.size_toArray⟩

/-- A call on the heap keeps the sizes: an allocation looks at the limit, a write keeps the size of
its block, and a load copies a block that has been allocated. -/
theorem Sized.performed (hs : h.Sized words limit) (hp : Performed h op after) :
    after.Sized words limit := by
  cases hp with
  | unchanged => exact hs
  | @allocated size index after ha =>
    obtain ⟨-, -, hblocks⟩ := block?_allocate hs.invariant ha
    refine ⟨allocate_invariant hs.invariant ha, (allocate_bounds ha).1.trans hs.limit_eq, ?_⟩
    obtain ⟨⟨hle, -⟩, -, -, rfl⟩ := allocate_eq_ok_iff.mp ha
    intro i b hb
    rw [hblocks i] at hb
    split at hb
    · cases hb
      rw [Array.size_replicate, ← hs.limit_eq]
      exact .inl (UInt32.le_iff_toNat_le.mp hle)
    · exact hs.size_le i b hb
  | @written index offset value after hw =>
    refine ⟨write_invariant hs.invariant hw, (write_bounds hw).1.trans hs.limit_eq, ?_⟩
    obtain ⟨⟨old, hread⟩, rfl⟩ := write_eq_ok_iff.mp hw
    obtain ⟨c, hc, -⟩ := read_eq_ok_iff.mp hread
    intro i b hb
    rw [block?_store hc] at hb
    split at hb
    · rename_i hi
      cases hb
      rw [Array.size_setIfInBounds, hi]
      exact hs.size_le index c hc
    · exact hs.size_le i b hb
  | @reclaimed index after hr =>
    refine ⟨reclaim_invariant hs.invariant hr, (reclaim_bounds hr).1.trans hs.limit_eq, ?_⟩
    obtain ⟨-, hlive, rfl⟩ := reclaim_eq_ok_iff.mp hr
    intro i b hb
    rw [block?_release hlive] at hb
    split at hb
    · cases hb
    · exact hs.size_le i b hb
  | @loaded index after hl =>
    refine ⟨loadProgram_invariant hs.invariant hl, (loadProgram_bounds hl).1.trans hs.limit_eq, ?_⟩
    rcases loadProgram_eq_ok_iff.mp hl with ⟨-, rfl⟩ | ⟨hindex, block, hblock, rfl⟩
    · exact hs.size_le
    · -- what is not block 0 is within the limit, so the counter of loads plays no part
      have hfits {j : Word} {c : Block} (hj : j ≠ 0) (hc : h.block? j = some c) :
          c.size ≤ limit.toNat :=
        (hs.size_le j c hc).resolve_right fun hzero => hj hzero.1
      intro i b hb
      rw [block?_setProgram hs.invariant] at hb
      split at hb
      · cases hb
        exact .inl (hfits hindex hblock)
      · rename_i hi
        exact .inl (hfits hi hb)

theorem Sized.perform (hs : h.Sized words limit) (op : Operation) :
    (h.perform op).Sized words limit :=
  hs.performed (perform_performed h op)

theorem Sized.program_size_le (hs : h.Sized words limit) :
    h.program.size ≤ max words limit.toNat := by
  obtain ⟨b, hb⟩ := Option.isSome_iff_exists.mp hs.invariant.program_live
  rw [program, hb, Option.getD_some]
  rcases hs.size_le 0 b hb with hle | ⟨-, -, heq⟩
  · omega
  · omega

/-- Only a load changes the size of the program. -/
theorem Performed.program_size (hp : Performed h op after) (hi : h.Invariant)
    (hop : ∀ index, op ≠ .loadProgram index) : after.program.size = h.program.size := by
  cases hp with
  | unchanged => rfl
  | allocated ha =>
    obtain ⟨hne, -, hblocks⟩ := block?_allocate hi ha
    rw [program, program, hblocks 0, if_neg (Ne.symm hne)]
  | @written index offset value after hw =>
    obtain ⟨⟨old, hread⟩, rfl⟩ := write_eq_ok_iff.mp hw
    obtain ⟨c, hc, -⟩ := read_eq_ok_iff.mp hread
    rw [program, program, block?_store hc]
    by_cases hzero : 0 = index
    · rw [if_pos hzero, hzero, hc, Option.getD_some, Option.getD_some, Array.size_setIfInBounds]
    · rw [if_neg hzero]
  | reclaimed hr =>
    obtain ⟨hne, hlive, rfl⟩ := reclaim_eq_ok_iff.mp hr
    rw [program, program, block?_release hlive, if_neg (Ne.symm hne)]
  | loaded hl => exact absurd rfl (hop _)

end Heap

namespace Machine

variable {m : Machine} {i : Instruction} {w : Word} {p : Program} {config : Config}
  {words : Nat} {limit : Word}

section Calls

/-- The call that an instruction makes on the heap. -/
def heapCall? (i : Instruction) (m : Machine) : Option Heap.Operation :=
  match i with
  | .arrayIndex _ b c => some (.read (m.reg b) (m.reg c))
  | .arrayAmendment a b c => some (.write (m.reg a) (m.reg b) (m.reg c))
  | .allocation _ c => some (.allocate (m.reg c))
  | .abandonment c => some (.reclaim (m.reg c))
  | .loadProgram b _ => some (.loadProgram (m.reg b))
  | _ => none

theorem heap_report (m : Machine) (e : Event) : (m.report e).heap = m.heap := by
  obtain ⟨log, hlog⟩ := report_eq m e
  rw [hlog]

/-- An instruction leaves the heap to which its call leads. -/
theorem execute_heap (i : Instruction) (origin : Word) (m : Machine) :
    (execute i origin m).1.heap = m.heap.performAll (heapCall? i m).toList := by
  cases i with
  | addition a b c | multiplication a b c | notAnd a b c | halt | orthography a value => rfl
  | conditionalMove a b c | division a b c | arrayIndex a b c | input c =>
    rw [execute]
    split
    · rfl
    · rfl
  | arrayAmendment a b c =>
    change _ = (m.heap.write (m.reg a) (m.reg b) (m.reg c)).2
    rw [execute]
    rcases m.heap.write (m.reg a) (m.reg b) (m.reg c) with ⟨e | done, heap⟩
    · rfl
    · rfl
  | allocation b c =>
    change _ = (m.heap.allocate (m.reg c)).2
    rw [execute]
    rcases m.heap.allocate (m.reg c) with ⟨e | index, heap⟩
    · rfl
    · exact heap_report _ _
  | abandonment c =>
    change _ = (m.heap.reclaim (m.reg c)).2
    rw [execute]
    rcases m.heap.reclaim (m.reg c) with ⟨e | done, heap⟩
    · rfl
    · exact heap_report _ _
  | output c =>
    rw [execute]
    split
    · rfl
    · split
      · rfl
      · rfl
  | loadProgram b c =>
    change _ = (m.heap.loadProgram (m.reg b)).2
    rw [execute]
    split
    · rename_i hzero
      rw [Heap.loadProgram, if_pos hzero]
    · rcases m.heap.loadProgram (m.reg b) with ⟨e | done, heap⟩
      · rfl
      · exact heap_report _ _

theorem advance_heap (hf : m.fetch = .ok (w, i)) :
    m.advance.1.heap = m.heap.performAll (heapCall? i m).toList := by
  have hcall : heapCall? i (m.enter w i) = heapCall? i m := by
    cases i <;> simp only [heapCall?, enter_reg]
  obtain ⟨-, -, hheap, -⟩ := close_keeps (execute i m.pc (m.enter w i))
  rw [advance_eq_close hf, hheap, execute_heap, enter_heap, hcall]

theorem step_heap (m : Machine) :
    m.step.heap = m.heap ∨
      ∃ w i, m.decoded? = some (w, i) ∧
        m.step.heap = m.heap.performAll (heapCall? i m).toList := by
  have hcall := step_call m
  generalize m.decoded? = d, m.stepFault? = result, m.step = after at hcall ⊢
  cases hcall with
  | idle _ | spent _ _ | unfetched _ _ _ | refused _ _ _ => exact .inl rfl
  | @executed w i _ _ hf _ => exact .inr ⟨w, i, rfl, advance_heap hf⟩

theorem step_sized (hs : m.heap.Sized words limit) : m.step.heap.Sized words limit := by
  rcases step_heap m with hsame | ⟨w, i, -, hcall⟩
  · rw [hsame]
    exact hs
  · rw [hcall]
    cases heapCall? i m with
    | none => exact hs
    | some op => exact hs.perform op

theorem steps_sized (k : Nat) (hs : m.heap.Sized words limit) :
    (steps k m).heap.Sized words limit := by
  induction k with
  | zero => exact hs
  | succ k ih =>
    rw [steps_succ]
    exact step_sized ih

/-- Without a load the program keeps its size and the machine goes on at the next place, be it that
the instruction faults. -/
theorem step_of_not_load (hi : m.heap.Invariant) (hd : m.decoded? = some (w, i))
    (hload : ∀ b c, i ≠ .loadProgram b c) :
    m.step.pc = m.pc + 1 ∧ m.step.heap.program.size = m.heap.program.size := by
  have hnext (following : Word) (file : Registers) : i.next following file = following := by
    cases i with
    | loadProgram b c => exact absurd rfl (hload b c)
    | _ => rfl
  have hop : ∀ op, heapCall? i m = some op → ∀ index, op ≠ .loadProgram index := by
    intro op hcall index hop
    cases i with
    | loadProgram b c => exact hload b c rfl
    | _ => simp [heapCall?, hop] at hcall
  have hcall := step_call m
  rw [hd] at hcall
  generalize m.stepFault? = result, m.step = after at hcall ⊢
  cases hcall with
  | refused _ _ _ => exact ⟨rfl, rfl⟩
  | executed _ _ hf hok =>
    obtain ⟨hpc, -⟩ := advance_frame hf hok
    refine ⟨hpc.trans (hnext _ _), ?_⟩
    rw [advance_heap hf]
    cases hc : heapCall? i m with
    | none => rfl
    | some op => exact (Heap.perform_performed m.heap op).program_size hi (hop op hc)

end Calls

section Ends

theorem fetch_at_end (hend : m.heap.program.size ≤ m.pc.toNat) :
    m.fetch = .error (.pcOutOfRange m.pc m.heap.program.size) :=
  fetch_eq_error_iff.mpr (.inl ⟨hend, rfl⟩)

theorem stepFault?_at_end (hrun : m.status = .running) (hlimit : m.exhausted = false)
    (hend : m.heap.program.size ≤ m.pc.toNat) :
    m.stepFault? = some (.pcOutOfRange m.pc m.heap.program.size) := by
  rw [stepFault?_eq hrun hlimit, fetch_at_end hend]

theorem steps_at_end (hrun : m.status = .running) (hlimit : m.exhausted = false)
    (hend : m.heap.program.size ≤ m.pc.toNat) (k : Nat) :
    steps (k + 1) m = m.stop := by
  rw [steps, step_of_running hrun hlimit, advance_of_fetch_error (fetch_at_end hend)]
  exact steps_of_stopped k (isStopped_status _)

/-- Behind the last word the machine stops for good, and both a step and a run tell why. -/
theorem reported_at_end (hrun : m.status = .running) (hlimit : m.exhausted = false)
    (hend : m.heap.program.size ≤ m.pc.toNat) :
    m.stepFault? = some (.pcOutOfRange m.pc m.heap.program.size) ∧
      (∀ k, steps (k + 1) m = m.stop) ∧
      ∀ fuel, ∃ after,
        m.run (fuel + 1) = some (.error (.pcOutOfRange m.pc m.heap.program.size), after) := by
  refine ⟨stepFault?_at_end hrun hlimit hend, steps_at_end hrun hlimit hend, fun fuel => ?_⟩
  -- the log in which the run is announced is all that its first machine differs in
  obtain ⟨log, hlog⟩ := announce_eq m
  have hfault := stepFault?_at_end (m := { m with log := log }) hrun hlimit hend
  rw [run, hlog, settle_eq_steps, faultWithin, hfault, Option.some_or]
  exact ⟨_, rfl⟩

end Ends

/-- The machines to which calls lead from the start of a program, on any console and with any change
of the console between the calls. -/
inductive Attained (p : Program) (config : Config) : Machine → Prop where
  | boot (c : Console) : Attained p config (.boot p c config)
  | step {m : Machine} : Attained p config m → Attained p config m.step
  | run {m after : Machine} {fuel : Nat} {result : Except Fault Outcome} :
      Attained p config m → m.run fuel = some (result, after) → Attained p config after
  | takeRows {m : Machine} : Attained p config m → Attained p config m.takeRows.2
  | console {m : Machine} (c : Console) : Attained p config m →
      Attained p config { m with console := c }

theorem Attained.steps (h : Attained p config m) (k : Nat) :
    Attained p config (Machine.steps k m) := by
  induction k with
  | zero => exact h
  | succ k ih =>
    rw [steps_succ]
    exact ih.step

theorem Attained.sized (h : Attained p config m) :
    m.heap.Sized p.length config.maxBlockWords := by
  induction h with
  | boot c => exact Heap.ofProgram_sized p config.maxBlockWords
  | step _ ih => exact step_sized ih
  | @run before after fuel result _ hr ih =>
    obtain ⟨start, rows, log, rfl⟩ := run_eq hr
    rw [settle_eq_steps]
    exact steps_sized fuel ih
  | takeRows _ ih | console _ _ ih => exact ih

/-- Blocks other than the first program are within the limit, so that block 0 never has as many
words as there are places. Where there is a word to fetch, the place behind it is the next number.
Without a load a machine therefore goes on to the next word or stands right behind the last one, and
there it stops and says so. -/
theorem pc_never_wraps (p : Program) (config : Config) (m : Machine)
    (hp : p.length < UInt32.size) (h : Attained p config m) :
    (∀ index b, m.heap.block? index = some b → index ≠ 0 ∨ m.heap.stats.loads ≠ 0 →
      b.size ≤ config.maxBlockWords.toNat) ∧
    m.heap.program.size ≤ max p.length config.maxBlockWords.toNat ∧
    m.heap.program.size < UInt32.size ∧
    (∀ w, m.heap.program[m.pc.toNat]? = some w →
      m.pc.toNat + 1 < UInt32.size ∧ (m.pc + 1).toNat = m.pc.toNat + 1) ∧
    (∀ w i, m.decoded? = some (w, i) → (∀ b c, i ≠ .loadProgram b c) →
      m.step.pc.toNat = m.pc.toNat + 1 ∧ m.step.pc.toNat ≤ m.step.heap.program.size) ∧
    (m.status = .running → m.exhausted = false → m.heap.program.size ≤ m.pc.toNat →
      m.stepFault? = some (.pcOutOfRange m.pc m.heap.program.size) ∧
      (∀ k, steps (k + 1) m = m.stop) ∧
      ∀ fuel, ∃ after,
        m.run (fuel + 1) = some (.error (.pcOutOfRange m.pc m.heap.program.size), after)) := by
  have hsized := h.sized
  have hsize := hsized.program_size_le
  have hplaces : m.heap.program.size < UInt32.size := by
    have hlimit := config.maxBlockWords.toNat_lt_size
    omega
  have hfetched {w : Word} (hw : m.heap.program[m.pc.toNat]? = some w) :
      m.pc.toNat < m.heap.program.size := (Array.getElem?_eq_some_iff.mp hw).1
  have hexact {w : Word} (hw : m.heap.program[m.pc.toNat]? = some w) :
      (m.pc + 1).toNat = m.pc.toNat + 1 := by
    have hlt := hfetched hw
    rw [UInt32.toNat_add]
    apply Nat.mod_eq_of_lt
    exact Nat.lt_of_le_of_lt hlt hplaces
  refine ⟨?_, hsize, hplaces, ?_, ?_, reported_at_end⟩
  · intro index b hb hother
    apply (hsized.size_le index b hb).resolve_right
    rintro ⟨hzero, hloads, -⟩
    rcases hother with hne | hne
    · exact hne hzero
    · exact hne hloads
  · intro w hw
    exact ⟨Nat.lt_of_le_of_lt (hfetched hw) hplaces, hexact hw⟩
  · intro w i hd hload
    obtain ⟨-, -, hf⟩ := decoded?_eq_some_iff.mp hd
    obtain ⟨hw, -⟩ := fetch_eq_ok_iff.mp hf
    obtain ⟨hpc, hsame⟩ := step_of_not_load hsized.invariant hd hload
    rw [hpc, hsame, hexact hw]
    exact ⟨rfl, hfetched hw⟩

/-- A program that makes a block of one word its program and runs off the end of it. -/
theorem pc_never_wraps_loaded :
    let p : Program := [0xD4000001, 0x8000000A, 0xC0000008]
    let start := boot p (.ofBytes []) { maxBlockWords := 1 }
    let last := steps 3 start
    (p.length < UInt32.size ∧ Attained p { maxBlockWords := 1 } last) ∧
      last.heap.stats.loads ≠ 0 ∧ last.heap.program.size ≤ 3 ∧
      last.decoded? = some (0, .conditionalMove 0 0 0) ∧
      last.step.pc.toNat = last.pc.toNat + 1 ∧
      (∀ k, (steps (k + 1) last.step).pc = 1) ∧
      last.step.stepFault? = some (.pcOutOfRange 1 1) ∧
      ∃ after, last.step.run 1 = some (.error (.pcOutOfRange 1 1), after) := by
  intro p start last
  have hp : p.length < UInt32.size := by decide
  have hlast : Attained p { maxBlockWords := 1 } last := (Attained.boot (.ofBytes [])).steps 3
  have hd : last.decoded? = some (0, .conditionalMove 0 0 0) := by decide
  obtain ⟨-, hsize, -, -, hmoves, -⟩ := pc_never_wraps p { maxBlockWords := 1 } last hp hlast
  obtain ⟨-, -, -, -, -, hends⟩ :=
    pc_never_wraps p { maxBlockWords := 1 } last.step hp hlast.step
  obtain ⟨hfault, hstays, hruns⟩ := hends (by decide) (by decide) (by decide)
  have hpc : last.step.pc = 1 := by decide
  have hsizes : last.step.heap.program.size = 1 := by decide
  rw [hpc, hsizes] at hfault hruns
  refine ⟨⟨hp, hlast⟩, by decide, hsize, hd, (hmoves _ _ hd fun b c e => ?_).1, fun k => ?_,
    hfault, hruns 0⟩
  · cases e
  · rw [hstays k]
    exact hpc

end Machine

end UniversalMachine
