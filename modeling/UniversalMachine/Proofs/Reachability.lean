import UniversalMachine.Machine.Run
import UniversalMachine.Proofs.HeapInvariant

/-! The machines that a program reaches on an input held in memory.
Their heap keeps its invariant, and their console neither fails nor loses a byte. -/

namespace UniversalMachine

def ReadOutcome.byte? : ReadOutcome → Option UInt8
  | .byte b => some b
  | _ => none

namespace Console

/-- The bytes that the input device still holds. -/
def unread (c : Console) : Bytes := c.input.device.filterMap ReadOutcome.byte?

structure InMemory (c : Console) : Prop where
  device_eq : c.input.device = c.unread.map ReadOutcome.byte
  ended : c.input.ended = true → c.unread = []
  writes_eq : c.output.writes = []
  flushes_eq : c.output.flushes = []

theorem filterMap_byte (bytes : Bytes) :
    (bytes.map ReadOutcome.byte).filterMap ReadOutcome.byte? = bytes := by
  induction bytes with
  | nil => rfl
  | cons b rest ih => rw [List.map_cons, List.filterMap_cons, ih]; rfl

theorem unread_ofBytes (bytes : Bytes) : (ofBytes bytes).unread = bytes := filterMap_byte bytes

theorem inMemory_ofBytes (bytes : Bytes) (flushing : Bool) :
    ((ofBytes bytes).setFlushing flushing).InMemory := by
  have hunread : ((ofBytes bytes).setFlushing flushing).unread = bytes := unread_ofBytes bytes
  refine ⟨?_, ?_, rfl, rfl⟩
  · rw [hunread]
    rfl
  · intro hended
    cases hended

variable {c : Console}

theorem InMemory.read_byte (hc : c.InMemory) {b : UInt8} {rest : Bytes}
    (hu : c.unread = b :: rest) :
    c.read = (.ok b.toUInt32, { c with
      input := ⟨rest.map ReadOutcome.byte, false, c.input.taken + 1⟩ }) := by
  have hdevice := hc.device_eq
  have hended : c.input.ended = false := by
    rw [Bool.eq_false_iff]
    intro he
    rw [hc.ended he] at hu
    cases hu
  rw [hu] at hdevice
  obtain ⟨⟨device, ended, taken⟩, output⟩ := c
  subst hdevice hended
  rfl

theorem InMemory.read_end (hc : c.InMemory) (hu : c.unread = []) :
    c.read = (.ok Word.endOfInput, { c with input := ⟨[], true, c.input.taken⟩ }) := by
  have hdevice := hc.device_eq
  rw [hu] at hdevice
  obtain ⟨⟨device, ended, taken⟩, output⟩ := c
  subst hdevice
  cases ended
  · rfl
  · rfl

theorem InMemory.write_eq (hc : c.InMemory) (b : UInt8) :
    c.write b = (.ok (), { c with
      output := ⟨[], [], c.output.flushing, c.output.delivered.push b,
        if c.output.flushing then c.output.flushCalls + 1 else c.output.flushCalls,
        c.output.written + 1⟩ }) := by
  have hwrites := hc.writes_eq
  have hflushes := hc.flushes_eq
  obtain ⟨input, ⟨writes, flushes, flushing, delivered, flushCalls, written⟩⟩ := c
  subst hwrites hflushes
  cases flushing
  · rfl
  · rfl

theorem InMemory.read_inMemory (hc : c.InMemory) : c.read.2.InMemory := by
  rcases hu : c.unread with _ | ⟨b, rest⟩
  · rw [hc.read_end hu]
    exact ⟨rfl, fun _ => rfl, hc.writes_eq, hc.flushes_eq⟩
  · rw [hc.read_byte hu]
    refine ⟨?_, ?_, hc.writes_eq, hc.flushes_eq⟩
    · exact congrArg _ (filterMap_byte rest).symm
    · intro hended
      cases hended

theorem InMemory.write_inMemory (hc : c.InMemory) (b : UInt8) : (c.write b).2.InMemory := by
  rw [hc.write_eq b]
  exact ⟨hc.device_eq, hc.ended, rfl, rfl⟩

end Console

/-- Whether a machine has stopped, and how. -/
inductive Status where
  | running
  | halted
  | outOfCycles
  | faulted
  deriving DecidableEq, Repr

namespace Status

def isStopped : Status → Bool
  | running => false
  | _ => true

def reason? : Status → Option HaltReason
  | halted => some .halt
  | outOfCycles => some .cycleLimit
  | _ => none

theorem eq_running {s : Status} (hs : ¬ s.isStopped = true) : s = .running := by
  cases s with
  | running => rfl
  | _ => exact absurd rfl hs

end Status

namespace Machine

/-- What the flag and the reason of a machine say together. -/
def status (m : Machine) : Status :=
  match m.halted, m.reason with
  | false, _ => .running
  | true, some .halt => .halted
  | true, some .cycleLimit => .outOfCycles
  | true, none => .faulted

/-- The status is the flag and the reason: no two states of them have the same. -/
theorem status_eq_iff {m : Machine} {s : Status} :
    m.status = s ↔ m.halted = s.isStopped ∧ m.reason = s.reason? := by
  have hreason := m.reason_eq_none
  rw [status]
  cases hhalted : m.halted with
  | false =>
    rw [hreason hhalted]
    cases s <;> simp [Status.isStopped, Status.reason?]
  | true =>
    rcases m.reason with _ | _ | _ <;> cases s <;> simp [Status.isStopped, Status.reason?]

theorem isStopped_status (m : Machine) : m.status.isStopped = m.halted :=
  (status_eq_iff.mp rfl).1.symm

theorem reason?_status (m : Machine) : m.status.reason? = m.reason :=
  (status_eq_iff.mp rfl).2.symm

theorem status_eq_running_iff {m : Machine} : m.status = .running ↔ m.halted = false := by
  rw [status_eq_iff]
  exact ⟨fun h => h.1, fun h => ⟨h, m.reason_eq_none h⟩⟩

theorem status_congr {m n : Machine} (hhalted : m.halted = n.halted)
    (hreason : m.reason = n.reason) : m.status = n.status := by
  rw [status, status, hhalted, hreason]

theorem status_stop {m : Machine} (hrun : m.status = .running) : m.stop.status = .faulted :=
  status_eq_iff.mpr ⟨rfl, (status_eq_iff.mp hrun).2⟩

/-- The machines to which calls lead from the start of a program: steps, whole runs, and taking the
trace. -/
inductive Reachable (p : Program) (input : Bytes) (config : Config) : Machine → Prop where
  | boot : Reachable p input config (boot p (.ofBytes input) config)
  | step {m : Machine} : Reachable p input config m → Reachable p input config m.step
  | takeRows {m : Machine} : Reachable p input config m → Reachable p input config m.takeRows.2
  | run {m after : Machine} {fuel : Nat} {result : Except Fault Outcome} :
      Reachable p input config m → m.run fuel = some (result, after) →
      Reachable p input config after

structure Sound (m : Machine) : Prop where
  heap : m.heap.Invariant
  console : m.console.InMemory
  granted : m.heap.granted = none

variable {m : Machine}

/-- A report changes the log only. -/
theorem report_eq (m : Machine) (e : Event) : ∃ log, m.report e = { m with log := log } := by
  rw [report]
  split
  · exact ⟨m.log.push e, rfl⟩
  · exact ⟨m.log, rfl⟩

theorem Sound.report (hm : m.Sound) (e : Event) : (m.report e).Sound := by
  obtain ⟨log, hlog⟩ := report_eq m e
  rw [hlog]
  exact ⟨hm.heap, hm.console, hm.granted⟩

theorem boot_sound (p : Program) (input : Bytes) (config : Config) :
    (boot p (.ofBytes input) config).Sound :=
  ⟨Heap.ofProgram_invariant p config.maxBlockWords none,
    Console.inMemory_ofBytes input config.flushOutput, rfl⟩

/-! A call on the heap that fails leaves the machine as it was. -/

theorem execute_arrayAmendment (m : Machine) (a b c : Register) (origin : Word) :
    execute (.arrayAmendment a b c) origin m =
      match m.heap.write (m.reg a) (m.reg b) (m.reg c) with
      | (.ok (), heap) => ({ m with heap := heap }, none)
      | (.error e, _) => (m, some (.heap origin e)) := by
  rw [execute]
  rcases hcall : m.heap.write (m.reg a) (m.reg b) (m.reg c) with ⟨e | done, heap⟩
  · rw [Heap.eq_of_error Heap.write_of_error hcall]
  · rfl

theorem execute_allocation (m : Machine) (b c : Register) (origin : Word) :
    execute (.allocation b c) origin m =
      match m.heap.allocate (m.reg c) with
      | (.ok index, heap) =>
        (({ m with heap := heap }.report (.allocated index (m.reg c))).setReg b index, none)
      | (.error e, _) => (m, some (.heap origin e)) := by
  rw [execute]
  rcases hcall : m.heap.allocate (m.reg c) with ⟨e | index, heap⟩
  · rw [Heap.eq_of_error Heap.allocate_of_error hcall]
  · rfl

theorem execute_abandonment (m : Machine) (c : Register) (origin : Word) :
    execute (.abandonment c) origin m =
      match m.heap.reclaim (m.reg c) with
      | (.ok (), heap) => ({ m with heap := heap }.report (.reclaimed (m.reg c)), none)
      | (.error e, _) => (m, some (.heap origin e)) := by
  rw [execute]
  rcases hcall : m.heap.reclaim (m.reg c) with ⟨e | done, heap⟩
  · rw [Heap.eq_of_error Heap.reclaim_of_error hcall]
  · rfl

theorem execute_loadProgram (m : Machine) (b c : Register) (origin : Word) :
    execute (.loadProgram b c) origin m =
      if m.reg b = 0 then ({ m with pc := m.reg c }, none)
      else
        match m.heap.loadProgram (m.reg b) with
        | (.ok (), heap) =>
          ({ m with heap := heap, pc := m.reg c }.report
            (.loaded (m.reg b) heap.program.size), none)
        | (.error e, _) => (m, some (.heap origin e)) := by
  rw [execute]
  split
  · rfl
  · rcases hcall : m.heap.loadProgram (m.reg b) with ⟨e | done, heap⟩
    · rw [Heap.eq_of_error Heap.loadProgram_of_error hcall]
    · rfl

theorem execute_sound (hm : m.Sound) (i : Instruction) (origin : Word) :
    (execute i origin m).1.Sound := by
  cases i with
  | addition a b c | multiplication a b c | notAnd a b c | halt | orthography a value =>
    exact ⟨hm.heap, hm.console, hm.granted⟩
  | conditionalMove a b c | division a b c =>
    rw [execute]
    split
    · exact hm
    · exact ⟨hm.heap, hm.console, hm.granted⟩
  | arrayIndex a b c =>
    rw [execute]
    split
    · exact ⟨hm.heap, hm.console, hm.granted⟩
    · exact hm
  | arrayAmendment a b c =>
    rw [execute_arrayAmendment]
    split
    · rename_i hw
      exact ⟨Heap.write_invariant hm.heap hw, hm.console,
        (Heap.write_bounds hw).2.trans hm.granted⟩
    · exact hm
  | allocation b c =>
    rw [execute_allocation]
    split
    · rename_i index heap ha
      have hafter : Sound { m with heap := heap } :=
        ⟨Heap.allocate_invariant hm.heap ha, hm.console,
          (Heap.allocate_bounds ha).2.trans hm.granted⟩
      have hreport := hafter.report (.allocated index (m.reg c))
      exact ⟨hreport.heap, hreport.console, hreport.granted⟩
    · exact hm
  | abandonment c =>
    rw [execute_abandonment]
    split
    · rename_i heap hr
      have hafter : Sound { m with heap := heap } :=
        ⟨Heap.reclaim_invariant hm.heap hr, hm.console,
          (Heap.reclaim_bounds hr).2.trans hm.granted⟩
      exact hafter.report _
    · exact hm
  | output c =>
    have hwrite := hm.console.write_inMemory (m.reg c).toUInt8
    rw [execute]
    split
    · exact hm
    · split
      · rename_i hw
        rw [hw] at hwrite
        exact ⟨hm.heap, hwrite, hm.granted⟩
      · rename_i hw
        rw [hw] at hwrite
        exact ⟨hm.heap, hwrite, hm.granted⟩
  | input c =>
    have hread := hm.console.read_inMemory
    rw [execute]
    split
    · rename_i hr
      rw [hr] at hread
      exact ⟨hm.heap, hread, hm.granted⟩
    · rename_i hr
      rw [hr] at hread
      exact ⟨hm.heap, hread, hm.granted⟩
  | loadProgram b c =>
    rw [execute_loadProgram]
    split
    · exact ⟨hm.heap, hm.console, hm.granted⟩
    · split
      · rename_i heap hl
        have hafter : Sound { m with heap := heap, pc := m.reg c } :=
          ⟨Heap.loadProgram_invariant hm.heap hl, hm.console,
            (Heap.loadProgram_bounds hl).2.trans hm.granted⟩
        exact hafter.report _
      · exact hm

/-- Only a halt instruction changes the status. -/
theorem execute_status (i : Instruction) (origin : Word) (m : Machine) :
    (execute i origin m).1.status = if i = .halt then .halted else m.status := by
  have hreport (n : Machine) (e : Event) : (n.report e).status = n.status := by
    obtain ⟨log, hlog⟩ := report_eq n e
    rw [hlog]
    rfl
  cases i with
  | addition a b c | multiplication a b c | notAnd a b c | halt | orthography a value => rfl
  | conditionalMove a b c | arrayIndex a b c | arrayAmendment a b c | division a b c | input c =>
    rw [execute]
    split
    · rfl
    · rfl
  | allocation b c | abandonment c =>
    rw [execute]
    split
    · exact hreport _ _
    · rfl
  | output c =>
    rw [execute]
    split
    · rfl
    · split
      · rfl
      · rfl
  | loadProgram b c =>
    rw [execute]
    split
    · rfl
    · split
      · exact hreport _ _
      · rfl

/-- The trace behind an instruction that is about to be executed. -/
def rowsWith (m : Machine) (w : Word) : Array TraceRow :=
  if m.config.recordRows then m.rows.push ⟨UInt64.ofNat m.cycles, m.pc, w, m.registers⟩
  else m.rows

/-- Observation changes the log and the trace only. -/
theorem observe_eq (m : Machine) (w : Word) (i : Instruction) :
    ∃ log, m.observe w i = { m with rows := m.rowsWith w, log := log } := by
  have hreport : ∃ log, (if m.config.logInstructions then
      m.report (.executing m.cycles m.pc i) else m) = { m with log := log } := by
    split
    · exact report_eq m _
    · exact ⟨m.log, rfl⟩
  obtain ⟨log, hlog⟩ := hreport
  refine ⟨log, ?_⟩
  rw [observe, hlog, rowsWith]
  dsimp only
  split
  · rfl
  · rfl

theorem fetch_eq_ok_iff {w : Word} {i : Instruction} :
    m.fetch = .ok (w, i) ↔
      m.heap.program[m.pc.toNat]? = some w ∧ Instruction.decode w = .ok i := by
  rw [fetch]
  split
  · rename_i hnone
    simp [hnone]
  · rename_i v hv
    rw [hv]
    split
    · rename_i e hd
      constructor
      · intro hok
        cases hok
      · rintro ⟨hw, hok⟩
        cases hw
        rw [hd] at hok
        cases hok
    · rename_i j hd
      constructor
      · intro hok
        cases hok
        exact ⟨rfl, hd⟩
      · rintro ⟨hw, hok⟩
        cases hw
        rw [hd] at hok
        cases hok
        rfl

/-- What a step does with the instruction it has fetched. -/
theorem advance_of_fetch {w : Word} {i : Instruction} (hf : m.fetch = .ok (w, i)) :
    ∃ rows log, m.advance =
      match execute i m.pc { m with pc := m.pc + 1, rows := rows, log := log } with
      | (after, none) => ({ after with cycles := after.cycles + 1 }, none)
      | (after, some fault) => (after.stop, some fault) := by
  obtain ⟨log, hobserve⟩ := observe_eq m w i
  refine ⟨m.rowsWith w, log, ?_⟩
  rw [advance, hf]
  exact congrArg (fun start : Machine =>
    match execute i m.pc { start with pc := m.pc + 1 } with
    | (after, none) => ({ after with cycles := after.cycles + 1 }, none)
    | (after, some fault) => (after.stop, some fault)) hobserve

theorem advance_sound (hm : m.Sound) : m.advance.1.Sound := by
  rcases hf : m.fetch with fault | ⟨w, i⟩
  · rw [advance, hf]
    exact ⟨hm.heap, hm.console, hm.granted⟩
  · obtain ⟨rows, log, hadvance⟩ := advance_of_fetch hf
    have hstart : Sound { m with pc := m.pc + 1, rows := rows, log := log } :=
      ⟨hm.heap, hm.console, hm.granted⟩
    have hexec := execute_sound hstart i m.pc
    rw [hadvance]
    split
    · rename_i he
      rw [he] at hexec
      exact ⟨hexec.heap, hexec.console, hexec.granted⟩
    · rename_i he
      rw [he] at hexec
      exact ⟨hexec.heap, hexec.console, hexec.granted⟩

theorem tick_of_stopped (hs : m.status.isStopped = true) : m.tick = (m, none) := by
  rw [tick, if_pos (m.isStopped_status ▸ hs)]

theorem tick_of_exhausted (hrun : m.status = .running) (hlimit : m.exhausted = true) :
    m.tick = (m.halt .cycleLimit, none) := by
  rw [tick, (status_eq_iff.mp hrun).1, hlimit]
  rfl

theorem tick_of_running (hrun : m.status = .running) (hlimit : m.exhausted = false) :
    m.tick = m.advance := by
  rw [tick, (status_eq_iff.mp hrun).1, hlimit]
  rfl

/-- A step that ends in no fault executes the instruction at the current place. -/
theorem step_of_no_fault (hrun : m.status = .running) (hlimit : m.exhausted = false)
    (hok : m.stepFault? = none) :
    ∃ w i rows log after, m.fetch = .ok (w, i) ∧
      execute i m.pc { m with pc := m.pc + 1, rows := rows, log := log } = (after, none) ∧
      m.step = { after with cycles := after.cycles + 1 } := by
  rw [step, tick_of_running hrun hlimit]
  rw [stepFault?, tick_of_running hrun hlimit] at hok
  rcases hf : m.fetch with fault | ⟨w, i⟩
  · rw [advance, hf] at hok
    cases hok
  · obtain ⟨rows, log, hadvance⟩ := advance_of_fetch hf
    rw [hadvance] at hok ⊢
    rcases he : execute i m.pc { m with pc := m.pc + 1, rows := rows, log := log } with
      ⟨after, _ | fault⟩
    · exact ⟨w, i, rows, log, after, rfl, he, rfl⟩
    · rw [he] at hok
      cases hok

theorem step_sound (hm : m.Sound) : m.step.Sound := by
  rw [step, tick]
  split
  · exact hm
  · split
    · exact ⟨hm.heap, hm.console, hm.granted⟩
    · exact advance_sound hm

theorem settle_sound (fuel : Nat) (hm : m.Sound) : (settle fuel m).1.Sound := by
  induction fuel generalizing m with
  | zero => exact hm
  | succ fuel ih =>
    have hstep := step_sound hm
    rw [settle]
    split
    · exact hm
    · rcases htick : m.tick with ⟨after, _ | fault⟩ <;> rw [step, htick] at hstep
      · exact ih hstep
      · exact hstep

theorem settle_of_stopped (fuel : Nat) (hs : m.status.isStopped = true) :
    settle fuel m = (m, none) := by
  cases fuel with
  | zero => rfl
  | succ fuel => rw [settle, if_pos (m.isStopped_status ▸ hs)]

theorem conclude_eq (m : Machine) :
    ∃ log, m.conclude =
      (⟨m.cycles, m.reason.getD .halt, m.heap.stats, m.rows.toList⟩,
        { m with rows := #[], log := log }) := by
  obtain ⟨log, hlog⟩ := report_eq m (.stopped m.cycles (m.reason.getD .halt))
  refine ⟨log, ?_⟩
  rw [conclude, hlog]
  rfl

theorem finish_eq {result : Except Fault Outcome} {after : Machine} {r : Machine × Option Fault}
    (hf : finish r = some (result, after)) :
    ∃ rows log, after = { r.1 with rows := rows, log := log } := by
  obtain ⟨m, _ | fault⟩ := r
  · rw [finish] at hf
    split at hf
    · cases hf
      obtain ⟨log, hlog⟩ := conclude_eq m
      exact ⟨#[], log, congrArg Prod.snd hlog⟩
    · cases hf
  · cases hf
    obtain ⟨log, hlog⟩ := report_eq m _
    exact ⟨m.rows, log, hlog⟩

/-- A run steps until the machine stops; what it adds to that is in the log and the trace. -/
theorem run_eq {result : Except Fault Outcome} {after : Machine} {fuel : Nat}
    (hr : m.run fuel = some (result, after)) :
    ∃ start rows log,
      after = { (settle fuel { m with log := start }).1 with rows := rows, log := log } := by
  obtain ⟨start, hstart⟩ := report_eq m (.started m.heap.program.size m.config.maxCycles)
  refine ⟨start, ?_⟩
  rw [run, announce, hstart] at hr
  exact finish_eq hr

theorem run_sound {result : Except Fault Outcome} {after : Machine} {fuel : Nat} (hm : m.Sound)
    (hr : m.run fuel = some (result, after)) : after.Sound := by
  obtain ⟨start, rows, log, rfl⟩ := run_eq hr
  have hstart : Sound { m with log := start } := ⟨hm.heap, hm.console, hm.granted⟩
  have hsettle := settle_sound fuel hstart
  exact ⟨hsettle.heap, hsettle.console, hsettle.granted⟩

theorem Reachable.sound {p : Program} {input : Bytes} {config : Config}
    (h : Reachable p input config m) : m.Sound := by
  induction h with
  | boot => exact boot_sound p input config
  | step _ ih => exact step_sound ih
  | takeRows _ ih => exact ⟨ih.heap, ih.console, ih.granted⟩
  | run _ hr ih => exact run_sound ih hr

end Machine

end UniversalMachine
