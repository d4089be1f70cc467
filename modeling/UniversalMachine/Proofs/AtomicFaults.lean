import UniversalMachine.Proofs.FaultTable

/-! Faults are atomic.
An instruction that faults has changed nothing but the console, and the console only where the
instruction asked something of it. All that a call of `step` can do follows: it rests, stops for
the budget, stops on a fault, or executes one instruction. -/

namespace UniversalMachine.Machine

variable {m : Machine} {i : Instruction} {w origin : Word} {fault : Fault}

section Instructions

theorem execute_of_fault (h : (execute i origin m).2 = some fault) :
    (execute i origin m).1 = { m with console := (m.console.serve (request i m)).2 } := by
  cases i with
  | conditionalMove a b c | addition a b c | multiplication a b c | notAnd a b c | halt
  | orthography a value => cases h
  | arrayIndex a b c =>
    cases hr : m.heap.read (m.reg b) (m.reg c) with
    | ok value => simp [execute, hr] at h
    | error e => simp [execute, hr, request, Console.serve]
  | arrayAmendment a b c =>
    rcases hw : m.heap.write (m.reg a) (m.reg b) (m.reg c) with ⟨e | done, heap⟩
    · simp [execute_arrayAmendment, hw, request, Console.serve]
    · simp [execute, hw] at h
  | division a b c =>
    by_cases hc : m.reg c = 0
    · simp [execute, hc, request, Console.serve]
    · simp [execute, hc] at h
  | allocation b c =>
    rcases ha : m.heap.allocate (m.reg c) with ⟨e | index, heap⟩
    · simp [execute_allocation, ha, request, Console.serve]
    · simp [execute, ha] at h
  | abandonment c =>
    rcases hr : m.heap.reclaim (m.reg c) with ⟨e | done, heap⟩
    · simp [execute_abandonment, hr, request, Console.serve]
    · simp [execute, hr] at h
  | output c =>
    by_cases hrange : Word.maxOutput < m.reg c
    · simp [execute, hrange, request, Console.serve]
    · rcases hw : m.console.write (m.reg c).toUInt8 with ⟨result, console⟩
      cases result with
      | ok u => simp [execute, hrange, hw] at h
      | error failure => simp [execute, hrange, hw, request, Console.serve]
  | input c =>
    rcases hr : m.console.read with ⟨result, console⟩
    cases result with
    | ok value => simp [execute, hr] at h
    | error failure => simp [execute, hr, request, Console.serve]
  | loadProgram b c =>
    by_cases hb : m.reg b = 0
    · simp [execute, hb] at h
    · rcases hl : m.heap.loadProgram (m.reg b) with ⟨e | done, heap⟩
      · simp [execute_loadProgram, hb, hl, request, Console.serve]
      · simp [execute, hb, hl] at h

/-- Only an input, or the output of a byte, asks something of the console. -/
theorem request_cases (i : Instruction) (m : Machine) :
    request i m = .nothing ∨ (∃ c, i = .input c) ∨ ∃ c, i = .output c ∧ (m.reg c).toNat ≤ 255 := by
  cases i with
  | input c => exact .inr (.inl ⟨c, rfl⟩)
  | output c =>
    by_cases hrange : Word.maxOutput < m.reg c
    · exact .inl (if_pos hrange)
    · exact .inr (.inr ⟨c, rfl, UInt32.le_iff_toNat_le.mp (UInt32.not_lt.mp hrange)⟩)
  | _ => exact .inl rfl

end Instructions

section Calls

/-- The word that the next step decodes, with its instruction. -/
def decoded? (m : Machine) : Option (Word × Instruction) :=
  if m.halted || m.exhausted then none else m.fetch.toOption

theorem decoded?_eq_some_iff :
    m.decoded? = some (w, i) ↔
      m.status = .running ∧ m.exhausted = false ∧ m.fetch = .ok (w, i) := by
  rw [decoded?, status_eq_running_iff]
  cases m.halted <;> cases m.exhausted <;> cases m.fetch <;> simp [Except.toOption]

/-- What a call of `step` can do: the word it decodes, the fault it gives, the machine behind it. -/
inductive Call (m : Machine) : Option (Word × Instruction) → Option Fault → Machine → Prop where
  | idle : m.status.isStopped = true → Call m none none m
  | spent : m.status = .running → m.exhausted = true →
      Call m none none (m.halt .cycleLimit)
  | unfetched {fault : Fault} : m.status = .running → m.exhausted = false →
      m.fetch = .error fault → Call m none (some fault) m.stop
  -- the console is left open: a device may have been asked before it failed
  | refused {w : Word} {i : Instruction} {fault : Fault} {console : Console} {log : Array Event} :
      m.status = .running → m.exhausted = false → m.fetch = .ok (w, i) →
      Call m (some (w, i)) (some fault) { m.stop with
        pc := m.pc + 1
        console := console
        rows := m.rowsWith w
        log := log }
  | executed {w : Word} {i : Instruction} : m.status = .running → m.exhausted = false →
      m.fetch = .ok (w, i) → (execute i m.pc (m.enter w i)).2 = none →
      Call m (some (w, i)) none m.advance.1

theorem advance_of_refused (hf : m.fetch = .ok (w, i))
    (hfault : (execute i m.pc (m.enter w i)).2 = some fault) :
    ∃ console log, m.advance = ({ m.stop with
      pc := m.pc + 1
      console := console
      rows := m.rowsWith w
      log := log }, some fault) := by
  have hframe := execute_of_fault hfault
  obtain ⟨log, henter⟩ := enter_eq m w i
  rw [advance_eq_close hf]
  generalize execute i m.pc (m.enter w i) = r at hframe hfault
  obtain ⟨after, result⟩ := r
  obtain rfl : result = some fault := hfault
  obtain rfl : after = _ := hframe
  exact ⟨(m.console.serve (request i (m.enter w i))).2, log, by simp only [close, henter, stop]⟩

theorem step_call (m : Machine) : Call m m.decoded? m.stepFault? m.step := by
  by_cases hs : m.status.isStopped = true
  · have hd : m.decoded? = none := by simp [decoded?, ← isStopped_status, hs]
    rw [hd, stepFault?_of_stopped hs, step_of_stopped hs]
    exact .idle hs
  have hrun := Status.eq_running hs
  by_cases hlimit : m.exhausted = true
  · have hd : m.decoded? = none := by simp [decoded?, hlimit]
    have hfault : m.stepFault? = none := by
      rw [stepFault?, tick_of_exhausted hrun hlimit]
    rw [hd, hfault, step_of_exhausted hrun hlimit]
    exact .spent hrun hlimit
  rw [Bool.not_eq_true] at hlimit
  have hd : m.decoded? = m.fetch.toOption := by simp [decoded?, ← isStopped_status, hs, hlimit]
  rw [hd, stepFault?_eq hrun hlimit, step_of_running hrun hlimit]
  rcases hf : m.fetch with fault | ⟨w, i⟩
  · rw [advance_of_fetch_error hf]
    exact .unfetched hrun hlimit hf
  · simp only [Except.toOption]
    cases hresult : (execute i m.pc (m.enter w i)).2 with
    | none => exact .executed hrun hlimit hf hresult
    | some fault =>
      obtain ⟨console, log, hadvance⟩ := advance_of_refused hf hresult
      rw [hadvance]
      exact .refused hrun hlimit hf

end Calls

/-- A fault of an instruction leaves all but the console as it was, and the console too unless the
instruction reads, or writes a byte. A call that faults therefore stops the machine and keeps its
registers, heap and count; it moves the place on, and adds the row of the instruction to a trace,
only if it had decoded the instruction. -/
theorem fault_atomic (m : Machine) :
    (∀ (i : Instruction) (origin : Word) (after : Machine) (fault : Fault),
      execute i origin m = (after, some fault) →
        after = { m with console := after.console } ∧
          (after.console = m.console ∨ (∃ c, i = .input c) ∨
            ∃ c, i = .output c ∧ (m.reg c).toNat ≤ 255)) ∧
    ∀ fault : Fault, m.stepFault? = some fault →
      m.step.registers = m.registers ∧ m.step.heap = m.heap ∧ m.step.cycles = m.cycles ∧
      m.step.halted = true ∧ m.step.reason = none ∧
      (∀ e, m.fetch = .error e → m.step.pc = m.pc ∧ m.step.rows = m.rows) ∧
      ∀ w i, m.fetch = .ok (w, i) → m.step.pc = m.pc + 1 ∧
        m.step.rows =
          if m.config.recordRows then m.rows.push ⟨.ofNat m.cycles, m.pc, w, m.registers⟩
          else m.rows := by
  constructor
  · intro i origin after fault h
    have hframe : after = _ := h ▸ execute_of_fault (congrArg Prod.snd h)
    subst hframe
    refine ⟨rfl, ?_⟩
    rcases request_cases i m with hnothing | hasks
    · simp [hnothing, Console.serve]
    · exact .inr hasks
  · intro fault hfault
    have hcall := step_call m
    rw [hfault] at hcall
    generalize m.decoded? = d, m.step = after at hcall ⊢
    cases hcall with
    | unfetched hrun _ hf =>
      refine ⟨rfl, rfl, rfl, rfl, (status_eq_iff.mp hrun).2, fun _ _ => ⟨rfl, rfl⟩, ?_⟩
      intro w i hok
      simp [hf] at hok
    | refused hrun _ hf =>
      refine ⟨rfl, rfl, rfl, rfl, (status_eq_iff.mp hrun).2, ?_, ?_⟩
      · intro e herror
        simp [hf] at herror
      · intro w i hok
        obtain ⟨rfl, rfl⟩ := Prod.mk.inj (Except.ok.inj (hf.symm.trans hok))
        exact ⟨rfl, rfl⟩

/-- The second instruction writes a byte that the device does not take. If it asked for a block
instead, of a host without memory, an index that is free would stay free. -/
theorem fault_atomic_output :
    let c : Console := ⟨.ofBytes [], .ofDevice [.nothing] []⟩
    let m := (boot [0xD2000041, 0xA0000001] c { recordRows := true }).step
    let after := (execute (.output 1) 1 m).1
    let starved : Machine :=
      { m with heap := ⟨#[some #[], none], [1], 1, 99, some 1, ⟨1, 1, 2, 0⟩⟩ }
    ((m.stepFault? = some (.device 1 .nothingWritten) ∧ m.pc = 1 ∧ m.reg 1 = 65) ∧
      after = { m with console := after.console } ∧ after.console ≠ m.console ∧
      m.step.registers = m.registers ∧ m.step.heap = m.heap ∧ m.step.cycles = m.cycles ∧
      m.step.halted = true ∧ m.step.reason = none ∧ m.step.pc = m.pc + 1 ∧
      m.step.rows = m.rows.push ⟨.ofNat m.cycles, m.pc, 0xA0000001, m.registers⟩) ∧
    execute (.allocation 0 1) 1 starved = (starved, some (.heap 1 (.outOfMemory 65))) := by
  intro c m after starved
  obtain ⟨hexecute, hcall⟩ := fault_atomic m
  have hresult : (execute (.output 1) 1 m).2 = some (.device 1 .nothingWritten) := by decide
  have hrefused : execute (.output 1) 1 m = (after, some (.device 1 .nothingWritten)) := by
    rw [← hresult]
  have hframe := (hexecute _ _ _ _ hrefused).1
  have hfault : m.stepFault? = some (.device 1 .nothingWritten) := by decide
  have hfetch : m.fetch = .ok (0xA0000001, .output 1) := fetch_eq_ok_iff.mpr ⟨by decide, rfl⟩
  obtain ⟨hregisters, hheap, hcycles, hhalted, hreason, -, hdecoded⟩ := hcall _ hfault
  obtain ⟨hpc, hrows⟩ := hdecoded _ _ hfetch
  have hstarved : (execute (.allocation 0 1) 1 starved).2 = some (.heap 1 (.outOfMemory 65)) := by
    decide
  obtain ⟨unfed, hunfed⟩ : ∃ unfed, execute (.allocation 0 1) 1 starved =
      (unfed, some (.heap 1 (.outOfMemory 65))) := ⟨_, Prod.ext rfl hstarved⟩
  obtain ⟨hkept, hconsole⟩ := (fault_atomic starved).1 _ _ _ _ hunfed
  have hsame : unfed = starved := by
    rcases hconsole with hquiet | ⟨r, hinput⟩ | ⟨r, houtput, -⟩
    · rw [hkept, hquiet]
    · cases hinput
    · cases houtput
  exact ⟨⟨⟨hfault, by decide, by decide⟩, hframe, by decide, hregisters, hheap, hcycles,
    hhalted, hreason, hpc, hrows.trans (if_pos (by decide))⟩, hsame ▸ hunfed⟩

end UniversalMachine.Machine
