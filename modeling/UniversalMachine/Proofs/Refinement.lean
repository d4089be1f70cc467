import UniversalMachine.Proofs.AbstractMachine
import UniversalMachine.Proofs.Codec
import UniversalMachine.Proofs.HeapView
import UniversalMachine.Proofs.Stepping

/-! The machine refines the abstract Universal Machine.
Every step that ends in no fault is one abstract step between what the machine stands for before
and after it, so every run that ends in no fault is a sequence of abstract steps. -/

namespace UniversalMachine

/-- The live blocks of a heap as a partial map. -/
def Heap.memory (h : Heap) (hl : h.isLive 0 = true) : Abstract.Memory where
  lookup index := (h.block? index).map Array.toList
  program_present := by
    rw [Option.isSome_map]
    exact hl

namespace Heap

variable {h after : Heap} (hl : h.isLive 0 = true) (hl' : after.isLive 0 = true)

theorem lookup_memory (i : Word) :
    (h.memory hl).lookup i = (h.block? i).map Array.toList := rfl

theorem lookup_memory_eq_some {index : Word} {block : Block} (hb : h.block? index = some block) :
    (h.memory hl).lookup index = some block.toList := by
  rw [lookup_memory, hb]
  rfl

theorem lookup_ofProgram {p : Program} {limit : Word} (hp : (ofProgram p limit).isLive 0 = true)
    (i : Word) :
    ((ofProgram p limit).memory hp).lookup i = Function.update (fun _ => none) 0 (some p) i := by
  rw [lookup_memory, Function.update_apply]
  split
  · rename_i h0
    subst h0
    rfl
  · rename_i h0
    have hout : (#[some p.toArray] : Array (Option Block)).size ≤ i.toNat :=
      Nat.one_le_iff_ne_zero.mpr (toNat_ne h0)
    rw [block?, ofProgram, Array.getElem?_eq_none hout]
    rfl

theorem memory_program : (h.memory hl).program = h.program.toList := by
  obtain ⟨block, hb⟩ := Option.isSome_iff_exists.mp hl
  apply Option.some.inj
  rw [Abstract.Memory.program, Option.some_get, lookup_memory_eq_some hl hb, program, hb]
  rfl

theorem memory_bind {index : Word} {block : Block}
    (hb : ∀ i, after.block? i = if i = index then some block else h.block? i) :
    after.memory hl' = (h.memory hl).bind index block.toList := by
  apply Abstract.Memory.ext
  funext i
  rw [Abstract.Memory.lookup_bind, lookup_memory, hb i, lookup_memory]
  split
  · rfl
  · rfl

theorem memory_unbind {index : Word} (hne : index ≠ 0)
    (hb : ∀ i, after.block? i = if i = index then none else h.block? i) :
    after.memory hl' = (h.memory hl).unbind index hne := by
  apply Abstract.Memory.ext
  funext i
  rw [Abstract.Memory.lookup_unbind, lookup_memory, hb i, lookup_memory]
  split
  · rfl
  · rfl

end Heap

section Decoding

/-- The operands of an instruction are those that a word names. -/
def Instruction.ReadFrom (w : Word) : Instruction → Prop
  | .conditionalMove a b c | .arrayIndex a b c | .arrayAmendment a b c | .addition a b c
  | .multiplication a b c | .division a b c | .notAnd a b c =>
    a = Abstract.registerA w ∧ b = Abstract.registerB w ∧ c = Abstract.registerC w
  | .halt => True
  | .allocation b c | .loadProgram b c => b = Abstract.registerB w ∧ c = Abstract.registerC w
  | .abandonment c | .output c | .input c => c = Abstract.registerC w
  | .orthography a value => a = Abstract.target w ∧ value = Abstract.literal w

theorem Opcode.code_of_ofCode? {n : Nat} {op : Opcode} (h : Opcode.ofCode? n = some op) :
    op.code.toNat = n := by
  have hall : ∀ (k : Nat) (hk : k < all.length), (all.get ⟨k, hk⟩).code.toNat = k := by decide
  obtain ⟨hn, hop⟩ := List.getElem?_eq_some_iff.mp h
  rw [← hop]
  exact hall n hn

theorem Instruction.readFrom_of_decode {w : Word} {i : Instruction} (h : decode w = .ok i) :
    Abstract.operator w = i.opcode.code.toNat ∧ i.ReadFrom w := by
  have ha : Register.ofBits w.fieldA = Abstract.registerA w :=
    Register.ofBits_eq (Word.fieldA_toNat w)
  have hb : Register.ofBits w.fieldB = Abstract.registerB w :=
    Register.ofBits_eq (Word.fieldB_toNat w)
  have hc : Register.ofBits w.fieldC = Abstract.registerC w :=
    Register.ofBits_eq (Word.fieldC_toNat w)
  have ht : Register.ofBits w.orthographyField = Abstract.target w :=
    Register.ofBits_eq (Word.orthographyField_toNat w)
  have hv : w.immediate = Abstract.literal w := by
    rw [← UInt32.toNat_inj, Word.immediate_toNat, Abstract.literal, UInt32.toNat_ofNat']
    exact (Nat.mod_eq_of_lt (Nat.lt_of_lt_of_le (Nat.mod_lt _ (by decide)) (by decide))).symm
  rw [decode, ha, hb, hc, ht, hv] at h
  rw [Abstract.operator, ← Word.opcodeField_toNat]
  rcases hop : Opcode.ofCode? w.opcodeField.toNat with _ | op
  · rw [hop] at h
    cases h
  · rw [hop] at h
    rw [← Opcode.code_of_ofCode? hop]
    cases op <;> cases h <;> simp [opcode, ReadFrom]

end Decoding

section Arithmetic

variable (x y : Word)

theorem Word.add_eq_ofNat : x + y = UInt32.ofNat (x.toNat + y.toNat) := by
  rw [UInt32.ofNat_add, UInt32.ofNat_toNat, UInt32.ofNat_toNat]

theorem Word.mul_eq_ofNat : x * y = UInt32.ofNat (x.toNat * y.toNat) := by
  rw [UInt32.ofNat_mul, UInt32.ofNat_toNat, UInt32.ofNat_toNat]

theorem Word.div_eq_ofNat : x / y = UInt32.ofNat (x.toNat / y.toNat) := by
  rw [← UInt32.toNat_div, UInt32.ofNat_toNat]

end Arithmetic

namespace Machine

/-- The abstract state that a machine stands for. -/
def abstraction (m : Machine) (hl : m.heap.isLive 0 = true) : Abstract.State where
  registers := m.reg
  finger := m.pc
  memory := m.heap.memory hl
  input := m.console.unread
  output := m.console.delivered

variable {m after : Machine} {w origin : Word} {i : Instruction}

theorem abstraction_setReg {r : Register} {value : Word}
    (hl : (m.setReg r value).heap.isLive 0 = true) :
    (m.setReg r value).abstraction hl = (m.abstraction hl).set r value := by
  have hreg : (m.setReg r value).reg = Function.update m.reg r value := by
    funext s
    rw [Function.update_apply]
    split
    · rename_i hs
      subst hs
      exact Registers.read_write_same m.registers s value
    · rename_i hs
      exact Registers.read_write_of_ne m.registers value (Ne.symm hs)
  exact Abstract.State.ext hreg rfl rfl rfl rfl

theorem abstraction_heap {heap : Heap} {memory : Abstract.Memory} {log : Array Event}
    (hl : m.heap.isLive 0 = true) (hl' : heap.isLive 0 = true) (hmem : heap.memory hl' = memory) :
    abstraction { m with heap := heap, log := log } hl' =
      { m.abstraction hl with memory := memory } :=
  Abstract.State.ext rfl rfl hmem rfl rfl

section Effects

variable (hl : m.heap.isLive 0 = true) (hl' : after.heap.isLive 0 = true)

theorem effect_arrayAmendment (hop : Abstract.operator w = 2)
    (he : execute (.arrayAmendment (Abstract.registerA w) (Abstract.registerB w)
      (Abstract.registerC w)) origin m = (after, none)) :
    Abstract.Effect w (m.abstraction hl) (after.abstraction hl') := by
  rw [execute] at he
  split at he
  · rename_i heap hw
    obtain ⟨⟨old, hr⟩, rfl⟩ := Heap.write_eq_ok_iff.mp hw
    obtain ⟨block, hb, hold⟩ := Heap.read_eq_ok_iff.mp hr
    cases he
    obtain ⟨hlt, -⟩ := Array.getElem?_eq_some_iff.mp hold
    rw [abstraction_heap hl hl' (Heap.memory_bind hl hl' (Heap.block?_store hb)),
      Array.toList_setIfInBounds]
    exact .arrayAmendment hop (Heap.lookup_memory_eq_some hl hb) hlt
  · cases he

theorem effect_allocation (hm : m.Sound) (hop : Abstract.operator w = 8)
    (he : execute (.allocation (Abstract.registerB w) (Abstract.registerC w)) origin m =
      (after, none)) :
    Abstract.Effect w (m.abstraction hl) (after.abstraction hl') := by
  rw [execute] at he
  split at he
  · rename_i index heap ha
    obtain ⟨hne, hnone, hblocks⟩ := Heap.block?_allocate hm.heap ha
    have hlive : heap.isLive 0 = true := (Heap.allocate_invariant hm.heap ha).program_live
    have hlookup : (m.heap.memory hl).lookup index = none := by
      rw [Heap.lookup_memory, hnone]
      rfl
    obtain ⟨log, hlog⟩ := report_eq { m with heap := heap }
      (.allocated index (m.reg (Abstract.registerC w)))
    rw [hlog] at he
    cases he
    rw [abstraction_setReg, abstraction_heap hl hlive (Heap.memory_bind hl hlive hblocks),
      Array.toList_replicate]
    exact .allocation hop hne hlookup
  · cases he

theorem effect_abandonment (hm : m.Sound) (hop : Abstract.operator w = 9)
    (he : execute (.abandonment (Abstract.registerC w)) origin m = (after, none)) :
    Abstract.Effect w (m.abstraction hl) (after.abstraction hl') := by
  rw [execute] at he
  split at he
  · rename_i heap hr
    have hlive : heap.isLive 0 = true := (Heap.reclaim_invariant hm.heap hr).program_live
    obtain ⟨hne, hindex, rfl⟩ := Heap.reclaim_eq_ok_iff.mp hr
    obtain ⟨block, hb⟩ := Option.isSome_iff_exists.mp hindex
    obtain ⟨log, hlog⟩ := report_eq { m with heap := m.heap.release (m.reg (Abstract.registerC w)) }
      (.reclaimed (m.reg (Abstract.registerC w)))
    rw [hlog] at he
    cases he
    rw [abstraction_heap hl hlive (Heap.memory_unbind hl hlive hne (Heap.block?_release hindex))]
    exact .abandonment hne hop (Heap.lookup_memory_eq_some hl hb)
  · cases he

theorem effect_output (hm : m.Sound) (hop : Abstract.operator w = 10)
    (he : execute (.output (Abstract.registerC w)) origin m = (after, none)) :
    Abstract.Effect w (m.abstraction hl) (after.abstraction hl') := by
  rw [execute, hm.console.write_eq] at he
  split at he
  · cases he
  · rename_i hrange
    have hle : (m.reg (Abstract.registerC w)).toNat ≤ 255 :=
      UInt32.le_iff_toNat_le.mp (UInt32.not_lt.mp hrange)
    cases he
    have hstate : abstraction { m with console := { m.console with
        output := ⟨[], [], m.console.output.flushing,
          m.console.output.delivered.push (m.reg (Abstract.registerC w)).toUInt8,
          if m.console.output.flushing then m.console.output.flushCalls + 1
          else m.console.output.flushCalls, m.console.output.written + 1⟩ } } hl =
        { m.abstraction hl with
          output := m.console.delivered ++ [(m.reg (Abstract.registerC w)).toUInt8] } :=
      Abstract.State.ext rfl rfl rfl rfl Array.toList_push
    rw [hstate]
    exact .output hop hle

theorem effect_input (hm : m.Sound) (hop : Abstract.operator w = 11)
    (he : execute (.input (Abstract.registerC w)) origin m = (after, none)) :
    Abstract.Effect w (m.abstraction hl) (after.abstraction hl') := by
  rcases hu : m.console.unread with _ | ⟨b, rest⟩
  · rw [execute, hm.console.read_end hu] at he
    cases he
    rw [abstraction_setReg]
    have hstate : abstraction { m with console := { m.console with
        input := ⟨[], true, m.console.input.taken⟩ } } hl' = m.abstraction hl :=
      Abstract.State.ext rfl rfl rfl hu.symm rfl
    rw [hstate]
    exact .inputEnd hop hu
  · rw [execute, hm.console.read_byte hu] at he
    cases he
    rw [abstraction_setReg]
    have hstate : abstraction { m with console := { m.console with
        input := ⟨rest.map ReadOutcome.byte, false, m.console.input.taken + 1⟩ } } hl' =
        { m.abstraction hl with input := rest } :=
      Abstract.State.ext rfl rfl rfl (Console.filterMap_byte rest) rfl
    rw [hstate]
    exact .inputByte hop hu

theorem effect_loadProgram (hm : m.Sound) (hop : Abstract.operator w = 12)
    (he : execute (.loadProgram (Abstract.registerB w) (Abstract.registerC w)) origin m =
      (after, none)) :
    Abstract.Effect w (m.abstraction hl) (after.abstraction hl') := by
  rw [execute] at he
  split at he
  · rename_i h0
    cases he
    exact .jump hop h0
  · rename_i hne
    split at he
    · rename_i heap hload
      have hlive : heap.isLive 0 = true := (Heap.loadProgram_invariant hm.heap hload).program_live
      rcases Heap.loadProgram_eq_ok_iff.mp hload with ⟨h0, -⟩ | ⟨-, block, hb, rfl⟩
      · exact absurd h0 hne
      · have hmem := Heap.memory_bind hl hlive (Heap.block?_setProgram hm.heap block)
        obtain ⟨log, hlog⟩ := report_eq
          { m with heap := m.heap.setProgram block, pc := m.reg (Abstract.registerC w) }
          (.loaded (m.reg (Abstract.registerB w)) (m.heap.setProgram block).program.size)
        rw [hlog] at he
        have hstate : abstraction { m with
            heap := m.heap.setProgram block
            pc := m.reg (Abstract.registerC w)
            log := log } hlive =
            { m.abstraction hl with
              memory := (m.heap.memory hl).bind 0 block.toList
              finger := m.reg (Abstract.registerC w) } :=
          Abstract.State.ext rfl rfl hmem rfl rfl
        cases he
        rw [hstate]
        exact .loadProgram hop hne (Heap.lookup_memory_eq_some hl hb)
    · cases he

/-- An instruction that ends in no fault does what the table says of its word. -/
theorem execute_effect (hm : m.Sound) (hd : Instruction.decode w = .ok i)
    (he : execute i origin m = (after, none)) :
    Abstract.Effect w (m.abstraction hl) (after.abstraction hl') := by
  obtain ⟨hop, hfields⟩ := Instruction.readFrom_of_decode hd
  cases i with
  | conditionalMove a b c =>
    obtain ⟨rfl, rfl, rfl⟩ := hfields
    rw [execute] at he
    split at he
    · rename_i hc
      cases he
      exact .notMoved hop hc
    · rename_i hc
      cases he
      rw [abstraction_setReg]
      exact .moved hop hc
  | arrayIndex a b c =>
    obtain ⟨rfl, rfl, rfl⟩ := hfields
    rw [execute] at he
    split at he
    · rename_i value hr
      obtain ⟨block, hb, hv⟩ := Heap.read_eq_ok_iff.mp hr
      cases he
      rw [abstraction_setReg]
      exact .arrayIndex hop (Heap.lookup_memory_eq_some hl hb) (Array.getElem?_toList ▸ hv)
    · cases he
  | arrayAmendment a b c =>
    obtain ⟨rfl, rfl, rfl⟩ := hfields
    exact effect_arrayAmendment hl hl' hop he
  | addition a b c =>
    obtain ⟨rfl, rfl, rfl⟩ := hfields
    cases he
    rw [abstraction_setReg, Word.add_eq_ofNat]
    exact .addition hop
  | multiplication a b c =>
    obtain ⟨rfl, rfl, rfl⟩ := hfields
    cases he
    rw [abstraction_setReg, Word.mul_eq_ofNat]
    exact .multiplication hop
  | division a b c =>
    obtain ⟨rfl, rfl, rfl⟩ := hfields
    rw [execute] at he
    split at he
    · cases he
    · rename_i hc
      cases he
      rw [abstraction_setReg, Word.div_eq_ofNat]
      exact .division hop hc
  | notAnd a b c =>
    obtain ⟨rfl, rfl, rfl⟩ := hfields
    cases he
    rw [abstraction_setReg]
    exact .notAnd hop
  | halt =>
    cases he
    exact .halt hop
  | allocation b c =>
    obtain ⟨rfl, rfl⟩ := hfields
    exact effect_allocation hl hl' hm hop he
  | abandonment c =>
    obtain rfl := hfields
    exact effect_abandonment hl hl' hm hop he
  | output c =>
    obtain rfl := hfields
    exact effect_output hl hl' hm hop he
  | input c =>
    obtain rfl := hfields
    exact effect_input hl hl' hm hop he
  | loadProgram b c =>
    obtain ⟨rfl, rfl⟩ := hfields
    exact effect_loadProgram hl hl' hm hop he
  | orthography a value =>
    obtain ⟨rfl, rfl⟩ := hfields
    cases he
    rw [abstraction_setReg]
    exact .orthography hop

end Effects

theorem eq_halt_iff_of_decode (hd : Instruction.decode w = .ok i) :
    i = .halt ↔ Abstract.operator w = 7 := by
  obtain ⟨hop, -⟩ := Instruction.readFrom_of_decode hd
  rw [hop]
  cases i <;> simp [Instruction.opcode, Opcode.code]

section Steps

variable (hl : m.heap.isLive 0 = true) (hl' : m.step.heap.isLive 0 = true)

theorem step_effect (hm : m.Sound) (hrun : m.status = .running) (hlimit : m.exhausted = false)
    (hok : m.stepFault? = none) :
    ∃ w, (m.abstraction hl).memory.program[(m.abstraction hl).finger.toNat]? = some w ∧
      Abstract.Effect w { m.abstraction hl with finger := m.pc + 1 } (m.step.abstraction hl') ∧
      m.step.status = if Abstract.operator w = 7 then .halted else .running := by
  obtain ⟨w, i, rows, log, after, hf, he, hstep⟩ := step_of_no_fault hrun hlimit hok
  obtain ⟨hw, hd⟩ := fetch_eq_ok_iff.mp hf
  have hstart : Sound { m with pc := m.pc + 1, rows := rows, log := log } :=
    ⟨hm.heap, hm.console, hm.granted⟩
  have hstatus := execute_status i m.pc { m with pc := m.pc + 1, rows := rows, log := log }
  rw [he] at hstatus
  generalize m.step = next at hstep hl'
  subst hstep
  have heffect : Abstract.Effect w
      (abstraction { m with pc := m.pc + 1, rows := rows, log := log } hl)
      (after.abstraction hl') := execute_effect _ _ hstart hd he
  refine ⟨w, ?_, heffect, ?_⟩
  · rw [← hw, ← Array.getElem?_toList]
    exact congrArg (·[m.pc.toNat]?) (Heap.memory_program hl)
  · refine hstatus.trans ?_
    change (if i = .halt then .halted else m.status) = _
    simp only [eq_halt_iff_of_decode hd, hrun]

theorem step_abstract_step (hm : m.Sound) (hrun : m.status = .running)
    (hlimit : m.exhausted = false) (hok : m.stepFault? = none) :
    Abstract.Step (m.abstraction hl) (m.step.abstraction hl') := by
  obtain ⟨w, hw, heffect, -⟩ := step_effect hl hl' hm hrun hlimit hok
  exact .intro w hw heffect

theorem step_steps (hm : m.Sound) (hok : m.step.status ≠ .faulted) :
    m.status ≠ .faulted ∧ Abstract.Steps (m.abstraction hl) (m.step.abstraction hl') := by
  by_cases hs : m.status.isStopped = true
  · have hstep := step_of_stopped hs
    generalize m.step = next at hstep hl' hok
    subst hstep
    exact ⟨hok, .refl⟩
  · have hrun := Status.eq_running hs
    refine ⟨fun hfaulted => Status.noConfusion (hrun.symm.trans hfaulted), ?_⟩
    by_cases hlimit : m.exhausted = true
    · have hstep := step_of_exhausted hrun hlimit
      generalize m.step = next at hstep hl' hok
      subst hstep
      exact .refl
    · rw [Bool.not_eq_true] at hlimit
      cases hfault : m.stepFault? with
      | none => exact .single (step_abstract_step hl hl' hm hrun hlimit hfault)
      | some fault => exact absurd (step_of_fault hfault).2.2 hok

theorem steps_steps {k : Nat} (hm : m.Sound) (hs : (steps k m).heap.isLive 0 = true)
    (hok : (steps k m).status ≠ .faulted) :
    m.status ≠ .faulted ∧ Abstract.Steps (m.abstraction hl) ((steps k m).abstraction hs) := by
  induction k generalizing m with
  | zero => exact ⟨hok, .refl⟩
  | succ k ih =>
    have hnext := (step_sound hm).heap.program_live
    obtain ⟨hstep, hrest⟩ := ih hnext (step_sound hm) hs hok
    obtain ⟨hfirst, hone⟩ := step_steps hl hnext hm hstep
    exact ⟨hfirst, hone.trans hrest⟩

end Steps

theorem abstraction_boot {p : Program} {input : Bytes} {config : Config}
    (hl : (boot p (.ofBytes input) config).heap.isLive 0 = true) :
    (boot p (.ofBytes input) config).abstraction hl = Abstract.initial p input := by
  apply Abstract.State.ext
  · funext r
    exact Vector.getElem_replicate r.isLt
  · rfl
  · apply Abstract.Memory.ext
    funext i
    exact Heap.lookup_ofProgram hl i
  · exact Console.unread_ofBytes input
  · rfl

/-- A run that ends in no fault is a sequence of abstract steps from the start of its program. -/
theorem Reachable.steps {p : Program} {input : Bytes} {config : Config}
    (h : Reachable p input config m) (hl : m.heap.isLive 0 = true)
    (hok : m.status ≠ .faulted) :
    Abstract.Steps (Abstract.initial p input) (m.abstraction hl) := by
  induction h with
  | boot =>
    rw [abstraction_boot hl]
    exact .refl
  | step hr ih =>
    have hlive := hr.sound.heap.program_live
    obtain ⟨hfirst, hone⟩ := step_steps hlive hl hr.sound hok
    exact (ih hlive hfirst).trans hone
  | takeRows hr ih => exact ih hl hok
  | @run before after fuel result hr he ih =>
    obtain ⟨start, rows, log, rfl⟩ := run_eq_steps he
    have hlive := hr.sound.heap.program_live
    have hstart : Sound { before with log := start } :=
      ⟨hr.sound.heap, hr.sound.console, hr.sound.granted⟩
    obtain ⟨hfirst, hrest⟩ := steps_steps hstart.heap.program_live hstart hl hok
    exact (ih hlive hfirst).trans hrest

/-- A step that ends in no fault is one abstract step, in whatever way its registers coincide, from
a state that abstract steps reach. It stops the machine exactly on a halt. -/
theorem step_refines {p : Program} {input : Bytes} {config : Config}
    (hr : Reachable p input config m) (hrun : m.status = .running) (hlimit : m.exhausted = false)
    (hok : m.stepFault? = none) :
    ∃ (hl : m.heap.isLive 0 = true) (hl' : m.step.heap.isLive 0 = true),
      Abstract.Steps (Abstract.initial p input) (m.abstraction hl) ∧
      Abstract.Step (m.abstraction hl) (m.step.abstraction hl') ∧
      (m.step.status = .halted ↔ (m.abstraction hl).AtHalt) := by
  have hm := hr.sound
  have hl := hm.heap.program_live
  have hl' := (step_sound hm).heap.program_live
  have hfine : m.status ≠ .faulted := by
    rw [hrun]
    exact Status.noConfusion
  obtain ⟨w, hw, -, hstatus⟩ := step_effect hl hl' hm hrun hlimit hok
  refine ⟨hl, hl', hr.steps hl hfine, step_abstract_step hl hl' hm hrun hlimit hok, ?_⟩
  rw [hstatus]
  constructor
  · intro hhalted
    by_cases h7 : Abstract.operator w = 7
    · exact ⟨w, hw, h7⟩
    · rw [if_neg h7] at hhalted
      cases hhalted
  · rintro ⟨v, hv, h7⟩
    rw [hw] at hv
    cases hv
    rw [if_pos h7]

theorem step_refines_aliased :
    let m := (boot [0xD2000003, 0x80000009] (.ofBytes []) {}).step
    (m.status = .running ∧ m.exhausted = false ∧ m.stepFault? = none) ∧
    m.reg 1 = 3 ∧ m.step.reg 1 = 1 ∧
    ∃ (hl : m.heap.isLive 0 = true) (hl' : m.step.heap.isLive 0 = true),
      Abstract.Step (m.abstraction hl) (m.step.abstraction hl') := by
  intro m
  have hr : Reachable [0xD2000003, 0x80000009] [] {} m := .step .boot
  have hrun : m.status = .running := by decide
  have hlimit : m.exhausted = false := by decide
  have hok : m.stepFault? = none := by decide
  obtain ⟨hl, hl', -, hstep, -⟩ := step_refines hr hrun hlimit hok
  exact ⟨⟨hrun, hlimit, hok⟩, by decide, by decide, hl, hl', hstep⟩

end Machine

end UniversalMachine
