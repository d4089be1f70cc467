import UniversalMachine.Proofs.Halting

/-! The trace is faithful.
Row `i` tells of the machine as it was before its `i`-th call, with the word that the call decoded.
Two rows in succession are therefore joined by what the instruction of the first one does. -/

namespace UniversalMachine

namespace Instruction

/-- The register that an instruction writes. -/
def destination? : Instruction → Option Register
  | conditionalMove a _ _ | arrayIndex a _ _ | addition a _ _ | multiplication a _ _
  | division a _ _ | notAnd a _ _ | orthography a _ => some a
  | allocation b _ => some b
  | input c => some c
  | arrayAmendment .. | halt | abandonment _ | output _ | loadProgram .. => none

/-- Where the machine goes on, if `following` is the place behind the instruction. -/
def next (i : Instruction) (following : Word) (file : Registers) : Word :=
  match i with
  | loadProgram _ c => file.read c
  | _ => following

end Instruction

namespace Machine

variable {m after : Machine} {i : Instruction} {w origin : Word} {k : Nat}

section Frames

theorem reg_setReg_of_ne (m : Machine) {a r : Register} (value : Word) (h : some a ≠ some r) :
    (m.setReg a value).reg r = m.reg r :=
  Registers.read_write_of_ne m.registers value fun e => h (congrArg some e)

theorem pc_report (m : Machine) (e : Event) : (m.report e).pc = m.pc := by
  obtain ⟨log, hlog⟩ := report_eq m e
  rw [hlog]

theorem reg_report (m : Machine) (e : Event) (r : Register) : (m.report e).reg r = m.reg r := by
  obtain ⟨log, hlog⟩ := report_eq m e
  rw [hlog]
  rfl

/-- An instruction without a fault writes its destination alone. Only a load moves the place. -/
theorem execute_frame (h : execute i origin m = (after, none)) :
    after.pc = i.next m.pc m.registers ∧
      ∀ r, i.destination? ≠ some r → after.reg r = m.reg r := by
  cases i with
  | conditionalMove a b c =>
    by_cases hc : m.reg c = 0
    · obtain rfl : m = after := by simpa [execute, hc] using h
      exact ⟨rfl, fun _ _ => rfl⟩
    · obtain rfl : m.setReg a _ = after := by simpa [execute, hc] using h
      exact ⟨rfl, fun r hr => reg_setReg_of_ne m _ hr⟩
  | arrayIndex a b c =>
    cases hr : m.heap.read (m.reg b) (m.reg c) with
    | ok value =>
      obtain rfl : m.setReg a value = after := by simpa [execute, hr] using h
      exact ⟨rfl, fun r hr => reg_setReg_of_ne m _ hr⟩
    | error e => simp [execute, hr] at h
  | arrayAmendment a b c =>
    rcases hw : m.heap.write (m.reg a) (m.reg b) (m.reg c) with ⟨e | done, heap⟩
    · simp [execute, hw] at h
    · obtain rfl : { m with heap := heap } = after := by simpa [execute, hw] using h
      exact ⟨rfl, fun _ _ => rfl⟩
  | addition a b c | multiplication a b c | notAnd a b c =>
    cases h
    exact ⟨rfl, fun r hr => reg_setReg_of_ne m _ hr⟩
  | division a b c =>
    by_cases hc : m.reg c = 0
    · simp [execute, hc] at h
    · obtain rfl : m.setReg a _ = after := by simpa [execute, hc] using h
      exact ⟨rfl, fun r hr => reg_setReg_of_ne m _ hr⟩
  | halt =>
    cases h
    exact ⟨rfl, fun _ _ => rfl⟩
  | allocation b c =>
    rcases ha : m.heap.allocate (m.reg c) with ⟨e | index, heap⟩
    · simp [execute, ha] at h
    · obtain rfl : (report { m with heap := heap } _).setReg b index = after := by
        simpa [execute, ha] using h
      refine ⟨pc_report _ _, fun r hr => ?_⟩
      rw [reg_setReg_of_ne _ _ hr, reg_report]
      rfl
  | abandonment c =>
    rcases hr : m.heap.reclaim (m.reg c) with ⟨e | done, heap⟩
    · simp [execute, hr] at h
    · obtain rfl : report { m with heap := heap } _ = after := by simpa [execute, hr] using h
      exact ⟨pc_report _ _, fun r _ => reg_report _ _ r⟩
  | output c =>
    by_cases hrange : Word.maxOutput < m.reg c
    · simp [execute, hrange] at h
    · rcases hw : m.console.write (m.reg c).toUInt8 with ⟨result, console⟩
      cases result with
      | ok u =>
        obtain rfl : { m with console := console } = after := by
          simpa [execute, hrange, hw] using h
        exact ⟨rfl, fun _ _ => rfl⟩
      | error failure => simp [execute, hrange, hw] at h
  | input c =>
    rcases hr : m.console.read with ⟨result, console⟩
    cases result with
    | ok value =>
      obtain rfl : setReg { m with console := console } c value = after := by
        simpa [execute, hr] using h
      exact ⟨rfl, fun r hr => reg_setReg_of_ne _ _ hr⟩
    | error failure => simp [execute, hr] at h
  | loadProgram b c =>
    by_cases hb : m.reg b = 0
    · obtain rfl : { m with pc := m.reg c } = after := by simpa [execute, hb] using h
      exact ⟨rfl, fun _ _ => rfl⟩
    · rcases hl : m.heap.loadProgram (m.reg b) with ⟨e | done, heap⟩
      · simp [execute, hb, hl] at h
      · obtain rfl : report { m with heap := heap, pc := m.reg c } _ = after := by
          simpa [execute, hb, hl] using h
        exact ⟨pc_report _ _, fun r _ => reg_report _ _ r⟩
  | orthography a value =>
    cases h
    exact ⟨rfl, fun r hr => reg_setReg_of_ne m _ hr⟩

theorem advance_frame (hf : m.fetch = .ok (w, i))
    (hok : (execute i m.pc (m.enter w i)).2 = none) :
    m.advance.1.pc = i.next (m.pc + 1) m.registers ∧
      ∀ r, i.destination? ≠ some r → m.advance.1.reg r = m.reg r := by
  obtain ⟨log, henter⟩ := enter_eq m w i
  have hframe : execute i m.pc (m.enter w i) = ((execute i m.pc (m.enter w i)).1, none) := by
    rw [← hok]
  have hafter := execute_frame hframe
  rw [advance_eq_close hf, hframe]
  rw [henter] at hafter ⊢
  exact hafter

end Frames

section Rows

/-- The row that the next step adds to a trace. -/
def row? (m : Machine) : Option TraceRow :=
  m.decoded?.map fun d => ⟨.ofNat m.cycles, m.pc, d.1, m.registers⟩

/-- The row tells of the `n`-th instruction, which the machine is about to execute. -/
structure Recorded (n : Nat) (m : Machine) (row : TraceRow) : Prop where
  cycle : row.cycle = .ofNat n
  pc : row.pc = m.pc
  registers : row.registers = m.registers
  word : m.heap.program[m.pc.toNat]? = some row.instruction
  decodes : ∃ i, Instruction.decode row.instruction = .ok i
  running : m.status = .running
  allowed : m.exhausted = false

theorem recorded_iff (row : TraceRow) : Recorded m.cycles m row ↔ m.row? = some row := by
  constructor
  · rintro ⟨hcycle, hpc, hregisters, hword, ⟨i, hd⟩, hrun, hlimit⟩
    have hdecoded := decoded?_eq_some_iff.mpr ⟨hrun, hlimit, fetch_eq_ok_iff.mpr ⟨hword, hd⟩⟩
    simp [row?, hdecoded, ← hcycle, ← hpc, ← hregisters]
  · intro h
    obtain ⟨⟨w, i⟩, hdecoded, rfl⟩ := Option.map_eq_some_iff.mp h
    obtain ⟨hrun, hlimit, hf⟩ := decoded?_eq_some_iff.mp hdecoded
    obtain ⟨hw, hd⟩ := fetch_eq_ok_iff.mp hf
    exact ⟨rfl, rfl, rfl, hw, ⟨i, hd⟩, hrun, hlimit⟩

theorem step_rows (hrecord : m.config.recordRows = true) :
    m.step.rows = m.rows ++ m.row?.toArray := by
  have hcall := step_call m
  rw [row?]
  generalize m.decoded? = d, m.stepFault? = result, m.step = after at hcall ⊢
  cases hcall with
  | idle _ | spent _ _ | unfetched _ _ _ => simp [halt, stop]
  | refused _ _ _ => simp [rowsWith, hrecord]
  | executed _ _ hf _ => simp [advance_rows hf, rowsWith, hrecord]

theorem executed_of_running (hs : m.step.status = .running) :
    ∃ w i, m.status = .running ∧ m.fetch = .ok (w, i) ∧
      (execute i m.pc (m.enter w i)).2 = none ∧ m.step = m.advance.1 ∧ m.row?.isSome = true := by
  have hcall := step_call m
  rw [row?]
  generalize m.decoded? = d, m.stepFault? = result, m.step = after at hcall hs ⊢
  cases hcall with
  | idle hstopped => simp [hs, Status.isStopped] at hstopped
  | spent _ _ | unfetched _ _ _ | refused _ _ _ => cases status_eq_running_iff.mp hs
  | @executed w i hrun _ hf hok => exact ⟨w, i, hrun, hf, hok, rfl, rfl⟩

end Rows

section Runs

/-- A machine that is about to begin its trace. -/
structure AtTraceStart (m : Machine) : Prop where
  recording : m.config.recordRows = true
  cycles : m.cycles = 0
  rows : m.rows = #[]

variable {start : Machine}

theorem AtTraceStart.step_rows (h : AtTraceStart start) (k : Nat) :
    (steps k start).step.rows = (steps k start).rows ++ (steps k start).row?.toArray := by
  apply Machine.step_rows
  rw [(steps_settings k start).1, h.recording]

/-- Until the machine stops, every call executes one instruction and keeps one row. -/
theorem steps_of_running (h : AtTraceStart start) (hs : (steps k start).status = .running) :
    (steps k start).cycles = k ∧ (steps k start).rows.size = k := by
  induction k with
  | zero => exact ⟨h.cycles, congrArg Array.size h.rows⟩
  | succ k ih =>
    rw [steps_succ] at hs ⊢
    obtain ⟨w, i, hrun, hf, hok, hstep, hrow⟩ := executed_of_running hs
    obtain ⟨hcycles, hsize⟩ := ih hrun
    obtain ⟨row, hrow⟩ := Option.isSome_iff_exists.mp hrow
    have hgain : (steps k start).step.rows.size = k + 1 := by
      simp [h.step_rows k, hrow, hsize]
    refine ⟨?_, hgain⟩
    rw [hstep, (advance_of_executed hrun hf hok).2.1, hcycles]

/-- Row `i` is the row of call `i`. -/
theorem steps_rows_getElem? (h : AtTraceStart start) (k i : Nat) :
    (steps k start).rows[i]? = if i < k then (steps i start).row? else none := by
  induction k with
  | zero => simp [steps, h.rows]
  | succ k ih =>
    rw [steps_succ, h.step_rows k]
    have hsplit : (if i < k + 1 then (steps i start).row? else none) =
        if i = k then (steps k start).row? else (steps k start).rows[i]? := by
      by_cases hi : i = k
      · simp [hi]
      · have hiff : i < k + 1 ↔ i < k := by omega
        simp [hi, hiff, ih]
    rw [hsplit]
    cases hrow : (steps k start).row? with
    | none =>
      by_cases hi : i = k
      · subst hi
        simp [ih]
      · simp [hi]
    | some row =>
      -- a call that decodes a word finds the machine running, behind one row for each call
      have hrun := ((recorded_iff row).mpr hrow).running
      simp [Array.getElem?_push, (steps_of_running h hrun).2]

theorem recorded_steps_iff (h : AtTraceStart start) (i : Nat) (row : TraceRow) :
    Recorded i (steps i start) row ↔ (steps i start).row? = some row := by
  have hcount (hs : (steps i start).status = .running) : (steps i start).cycles = i :=
    (steps_of_running h hs).1
  rw [← recorded_iff]
  constructor
  · intro hrow
    rwa [hcount hrow.running]
  · intro hrow
    rwa [hcount hrow.running] at hrow

theorem rows_of_no_fault (h : AtTraceStart start)
    (hok : ∀ j < k, (steps j start).stepFault? = none) :
    (steps k start).rows.size = (steps k start).cycles := by
  induction k with
  | zero => simp [steps, h.cycles, h.rows]
  | succ k ih =>
    have hsame := ih fun j hj => hok j (Nat.lt_succ_of_lt hj)
    have hrows := h.step_rows k
    have hcall := step_call (steps k start)
    rw [hok k (Nat.lt_succ_self k)] at hcall
    rw [steps_succ]
    rw [row?] at hrows
    generalize (steps k start).decoded? = d, (steps k start).step = after at hcall hrows ⊢
    cases hcall with
    | idle _ | spent _ _ => exact hsame
    | executed hrun _ hf hexecuted =>
      rw [(advance_of_executed hrun hf hexecuted).2.1, hrows]
      simp [hsame]

theorem rows_of_fault (h : AtTraceStart start) {j : Nat} (hj : j < k)
    (hfault : (steps j start).stepFault?.isSome = true) :
    (steps k start).rows.size =
      match (steps j start).fetch with
      | .error _ => (steps k start).cycles
      | .ok _ => (steps k start).cycles + 1 := by
  obtain ⟨fault, hresult⟩ := Option.isSome_iff_exists.mp hfault
  have hearlier : ∀ i < j, (steps i start).stepFault? = none := by
    intro i hi
    by_contra hne
    have heq := stepFault?_unique (Option.isSome_iff_ne_none.mpr hne) hfault
    omega
  have hsame := rows_of_no_fault h hearlier
  have hlast : steps k start = (steps j start).step := by
    rw [← steps_succ]
    apply steps_eq_of_stopped _ hj
    simp [steps_of_stepFault hresult (Nat.lt_succ_self j), Status.isStopped]
  have hrows := h.step_rows j
  have hcall := step_call (steps j start)
  rw [hlast]
  rw [hresult] at hcall
  rw [row?] at hrows
  generalize (steps j start).decoded? = d, (steps j start).step = after at hcall hrows ⊢
  cases hcall with
  | unfetched _ _ hf => simpa [hf, stop] using hsame
  | refused _ _ hf =>
    rw [hrows]
    simp [hf, hsame, stop]

end Runs

/-- The trace of a machine that records one, over every number of calls and on every console. It
has one row for each call that decoded a word, in order, which tells of the machine before that
call. It is as long as the count of cycles, or by one longer behind an instruction that faulted. Of
two rows in succession, the second is at the place to which the instruction of the first leads, and
has the same registers but for the destination of that instruction. -/
theorem steps_trace (p : Program) (c : Console) (config : Config)
    (hrecord : config.recordRows = true) (k : Nat) :
    let start := boot p c config
    let m := steps k start
    (∀ i row, m.rows[i]? = some row ↔ i < k ∧ Recorded i (steps i start) row) ∧
    ((∀ j < k, (steps j start).stepFault? = none) → m.rows.size = m.cycles) ∧
    (∀ j < k, (steps j start).stepFault?.isSome = true →
      m.rows.size =
        match (steps j start).fetch with
        | .error _ => m.cycles
        | .ok _ => m.cycles + 1) ∧
    ∀ i r s, m.rows[i]? = some r → m.rows[i + 1]? = some s →
      ∃ instruction, Instruction.decode r.instruction = .ok instruction ∧
        s.pc = instruction.next (r.pc + 1) r.registers ∧
        ∀ x, instruction.destination? ≠ some x → s.registers.read x = r.registers.read x := by
  intro start m
  have hstart : AtTraceStart start := ⟨hrecord, rfl, rfl⟩
  have hiff (i : Nat) (row : TraceRow) :
      m.rows[i]? = some row ↔ i < k ∧ Recorded i (steps i start) row := by
    have hrow : m.rows[i]? = _ := steps_rows_getElem? hstart k i
    rw [hrow, recorded_steps_iff hstart]
    by_cases hi : i < k <;> simp [hi]
  refine ⟨hiff, rows_of_no_fault hstart, fun j hj => rows_of_fault hstart hj, ?_⟩
  intro i r s hr hs
  have hfirst := ((hiff i r).mp hr).2
  have hsecond := ((hiff (i + 1) s).mp hs).2
  rw [steps_succ] at hsecond
  obtain ⟨w, instruction, -, hf, hok, hstep, -⟩ := executed_of_running hsecond.running
  obtain ⟨hw, hd⟩ := fetch_eq_ok_iff.mp hf
  obtain rfl : w = r.instruction := Option.some.inj (hw.symm.trans hfirst.word)
  obtain ⟨hpc, hregisters⟩ := advance_frame hf hok
  rw [hstep] at hsecond
  refine ⟨instruction, hd, ?_, ?_⟩
  · rw [hsecond.pc, hpc, hfirst.pc, hfirst.registers]
  · intro x hx
    rw [hsecond.registers, hfirst.registers]
    exact hregisters x hx

/-- The program writes over its third word, which is then recorded as it was executed, and its
fourth divides by zero. -/
theorem steps_trace_rewritten :
    let p : Program := [0xD2000002, 0x20000009, 0x70000000, 0x50000000]
    let start := boot p (.ofBytes []) { recordRows := true }
    let m := steps 4 start
    let row : TraceRow := ⟨2, 2, 2, Registers.zero.write 1 2⟩
    (start.config.recordRows = true ∧ (steps 3 start).stepFault?.isSome = true) ∧
      m.rows[2]? = some row ∧ Recorded 2 (steps 2 start) row ∧ m.rows.size = m.cycles + 1 ∧
      ∃ next, m.rows[3]? = some next ∧ next.pc = row.pc + 1 := by
  intro p start m row
  have hfault : (steps 3 start).stepFault?.isSome = true := by decide
  have hfetch : (steps 3 start).fetch = .ok (0x50000000, .division 0 0 0) :=
    fetch_eq_ok_iff.mpr ⟨by decide, rfl⟩
  have hrow : m.rows[2]? = some row := by decide
  have hlast : m.rows[3]? = some ⟨3, 3, 0x50000000, Registers.zero.write 1 2⟩ := by decide
  obtain ⟨hrows, -, hsize, hnext⟩ := steps_trace p (.ofBytes []) { recordRows := true } rfl 4
  have hlength := hsize 3 (by decide) hfault
  rw [hfetch] at hlength
  obtain ⟨instruction, hd, hpc, -⟩ := hnext 2 _ _ hrow hlast
  have hword : row.instruction = Instruction.encode (.conditionalMove 0 0 2) := by decide
  have hmove : Instruction.decode row.instruction = .ok (.conditionalMove 0 0 2) := by
    rw [hword]
    exact Instruction.decode_encode trivial
  obtain rfl : _ = instruction := Except.ok.inj (hmove.symm.trans hd)
  exact ⟨⟨rfl, hfault⟩, hrow, ((hrows 2 row).mp hrow).2, hlength, _, hlast, hpc⟩

end Machine

end UniversalMachine
