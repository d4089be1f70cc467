import UniversalMachine.Proofs.Reachability

/-! What one step may change.
An instruction makes at most one request of the console and leaves the configuration, the limit on
blocks, the count of cycles and the trace alone. The step around it keeps a row of the trace, counts
the instruction, or stops the machine. -/

namespace UniversalMachine

namespace Console

/-- What an instruction asks of the console. -/
inductive Request where
  | nothing
  | read
  | write (b : UInt8)

/-- The answer to a request, and the console behind it. -/
def serve (c : Console) : Request → Except Failure Word × Console
  | .nothing => (.ok 0, c)
  | .read => c.read
  | .write b => ((c.write b).1.map fun _ => 0, (c.write b).2)

end Console

namespace Machine

variable {m : Machine} {i : Instruction} {w : Word}

section Instructions

/-- What an instruction asks of the machine's console. A word that is no byte is not written. -/
def request (i : Instruction) (m : Machine) : Console.Request :=
  match i with
  | .output c => if Word.maxOutput < m.reg c then .nothing else .write (m.reg c).toUInt8
  | .input _ => .read
  | _ => .nothing

theorem execute_console (i : Instruction) (origin : Word) (m : Machine) :
    (execute i origin m).1.console = (m.console.serve (request i m)).2 := by
  have hreport (k : Machine) (e : Event) : (k.report e).console = k.console := by
    obtain ⟨log, hlog⟩ := report_eq k e
    rw [hlog]
  cases i with
  | addition a b c | multiplication a b c | notAnd a b c | halt | orthography a value => rfl
  | conditionalMove a b c | arrayIndex a b c | arrayAmendment a b c | division a b c =>
    rw [execute]
    split
    · rfl
    · rfl
  | allocation b c | abandonment c =>
    rw [execute]
    split
    · exact hreport _ _
    · rfl
  | output c =>
    rw [execute, request]
    split
    · rfl
    · rw [Console.serve]
      split
      · rename_i hw
        rw [hw]
      · rename_i hw
        rw [hw]
  | input c =>
    rw [execute, request, Console.serve]
    split
    · rename_i hr
      rw [hr]
      rfl
    · rename_i hr
      rw [hr]
  | loadProgram b c =>
    rw [execute_loadProgram]
    split
    · rfl
    · split
      · exact hreport _ _
      · rfl

/-- No instruction touches the configuration, the limit on blocks, the count of cycles or the
trace. -/
structure Keeps (m after : Machine) : Prop where
  config : after.config = m.config
  limit : after.heap.limit = m.heap.limit
  cycles : after.cycles = m.cycles
  rows : after.rows = m.rows

theorem Keeps.report {after : Machine} (h : m.Keeps after) (e : Event) :
    m.Keeps (after.report e) := by
  obtain ⟨log, hlog⟩ := report_eq after e
  rw [hlog]
  exact ⟨h.config, h.limit, h.cycles, h.rows⟩

theorem execute_keeps (i : Instruction) (origin : Word) (m : Machine) :
    m.Keeps (execute i origin m).1 := by
  have hsame : m.Keeps m := ⟨rfl, rfl, rfl, rfl⟩
  cases i with
  | addition a b c | multiplication a b c | notAnd a b c | halt | orthography a value =>
    exact ⟨rfl, rfl, rfl, rfl⟩
  | conditionalMove a b c | arrayIndex a b c | division a b c | input c =>
    rw [execute]
    split
    · exact ⟨rfl, rfl, rfl, rfl⟩
    · exact ⟨rfl, rfl, rfl, rfl⟩
  | arrayAmendment a b c =>
    rw [execute_arrayAmendment]
    split
    · rename_i hw
      exact ⟨rfl, (Heap.write_bounds hw).1, rfl, rfl⟩
    · exact hsame
  | allocation b c =>
    rw [execute_allocation]
    split
    · rename_i index heap ha
      have hafter : m.Keeps { m with heap := heap } := ⟨rfl, (Heap.allocate_bounds ha).1, rfl, rfl⟩
      have hreport := hafter.report (.allocated index (m.reg c))
      exact ⟨hreport.config, hreport.limit, hreport.cycles, hreport.rows⟩
    · exact hsame
  | abandonment c =>
    rw [execute_abandonment]
    split
    · rename_i heap hr
      have hafter : m.Keeps { m with heap := heap } := ⟨rfl, (Heap.reclaim_bounds hr).1, rfl, rfl⟩
      exact hafter.report _
    · exact hsame
  | output c =>
    rw [execute]
    split
    · exact hsame
    · split
      · exact ⟨rfl, rfl, rfl, rfl⟩
      · exact ⟨rfl, rfl, rfl, rfl⟩
  | loadProgram b c =>
    rw [execute_loadProgram]
    split
    · exact ⟨rfl, rfl, rfl, rfl⟩
    · split
      · rename_i heap hl
        have hafter : m.Keeps { m with heap := heap, pc := m.reg c } :=
          ⟨rfl, (Heap.loadProgram_bounds hl).1, rfl, rfl⟩
        exact hafter.report _
      · exact hsame

end Instructions

section Steps

def enter (m : Machine) (w : Word) (i : Instruction) : Machine :=
  { m.observe w i with pc := m.pc + 1 }

/-- What comes behind an instruction: it is counted, or its fault stops the machine. -/
def close : Machine × Option Fault → Machine × Option Fault
  | (after, none) => ({ after with cycles := after.cycles + 1 }, none)
  | (after, some fault) => (after.stop, some fault)

theorem advance_of_fetch_error {fault : Fault} (hf : m.fetch = .error fault) :
    m.advance = (m.stop, some fault) := by
  rw [advance, hf]

theorem advance_eq_close (hf : m.fetch = .ok (w, i)) :
    m.advance = close (execute i m.pc (m.enter w i)) := by
  rw [advance, hf]
  rfl

theorem enter_eq (m : Machine) (w : Word) (i : Instruction) :
    ∃ log, m.enter w i = { m with pc := m.pc + 1, rows := m.rowsWith w, log := log } := by
  obtain ⟨log, hlog⟩ := observe_eq m w i
  refine ⟨log, ?_⟩
  rw [enter, hlog]

theorem enter_heap (m : Machine) (w : Word) (i : Instruction) : (m.enter w i).heap = m.heap := by
  obtain ⟨log, henter⟩ := enter_eq m w i
  rw [henter]

theorem enter_reg (m : Machine) (w : Word) (i : Instruction) : (m.enter w i).reg = m.reg := by
  obtain ⟨log, henter⟩ := enter_eq m w i
  rw [henter]
  rfl

theorem close_keeps (r : Machine × Option Fault) :
    (close r).1.console = r.1.console ∧ (close r).1.config = r.1.config ∧
      (close r).1.heap = r.1.heap ∧ (close r).1.rows = r.1.rows ∧ (close r).2 = r.2 := by
  obtain ⟨after, _ | fault⟩ := r
  · exact ⟨rfl, rfl, rfl, rfl, rfl⟩
  · exact ⟨rfl, rfl, rfl, rfl, rfl⟩

theorem step_of_stopped (hs : m.status.isStopped = true) : m.step = m := by
  rw [step, tick_of_stopped hs]

theorem step_of_exhausted (hrun : m.status = .running) (hlimit : m.exhausted = true) :
    m.step = m.halt .cycleLimit := by
  rw [step, tick_of_exhausted hrun hlimit]

theorem step_of_running (hrun : m.status = .running) (hlimit : m.exhausted = false) :
    m.step = m.advance.1 := by
  rw [step, tick_of_running hrun hlimit]

theorem step_cases (m : Machine) :
    m.step = m ∨ m.step = m.halt .cycleLimit ∨ m.step = m.advance.1 := by
  by_cases hs : m.status.isStopped = true
  · exact .inl (step_of_stopped hs)
  · have hrun := Status.eq_running hs
    cases hlimit : m.exhausted with
    | true => exact .inr (.inl (step_of_exhausted hrun hlimit))
    | false => exact .inr (.inr (step_of_running hrun hlimit))

theorem advance_settings (m : Machine) :
    m.advance.1.config = m.config ∧ m.advance.1.heap.limit = m.heap.limit := by
  rcases hf : m.fetch with fault | ⟨w, i⟩
  · rw [advance_of_fetch_error hf]
    exact ⟨rfl, rfl⟩
  · obtain ⟨-, hconfig, hheap, -⟩ := close_keeps (execute i m.pc (m.enter w i))
    have hkeeps := execute_keeps i m.pc (m.enter w i)
    obtain ⟨log, henter⟩ := enter_eq m w i
    rw [advance_eq_close hf, hconfig, hheap, hkeeps.config, hkeeps.limit, henter]
    exact ⟨rfl, rfl⟩

/-- The trace gains the row of the instruction that was fetched, be it that it faults. -/
theorem advance_rows (hf : m.fetch = .ok (w, i)) : m.advance.1.rows = m.rowsWith w := by
  obtain ⟨-, -, -, hrows, -⟩ := close_keeps (execute i m.pc (m.enter w i))
  obtain ⟨log, henter⟩ := enter_eq m w i
  rw [advance_eq_close hf, hrows, (execute_keeps i m.pc (m.enter w i)).rows, henter]

theorem advance_of_executed (hrun : m.status = .running) (hf : m.fetch = .ok (w, i))
    (hok : (execute i m.pc (m.enter w i)).2 = none) :
    m.advance.1.status = (if i = .halt then .halted else .running) ∧
      m.advance.1.cycles = m.cycles + 1 ∧ m.advance.2 = none := by
  have hstatus := execute_status i m.pc (m.enter w i)
  have hcycles := (execute_keeps i m.pc (m.enter w i)).cycles
  obtain ⟨log, henter⟩ := enter_eq m w i
  have hstart : (m.enter w i).status = .running ∧ (m.enter w i).cycles = m.cycles := by
    rw [henter]
    exact ⟨hrun, rfl⟩
  rw [hstart.1] at hstatus
  rw [hstart.2] at hcycles
  rw [advance_eq_close hf]
  generalize execute i m.pc (m.enter w i) = r at hstatus hcycles hok ⊢
  obtain ⟨after, result⟩ := r
  obtain rfl : result = none := hok
  exact ⟨hstatus, congrArg (· + 1) hcycles, rfl⟩

theorem advance_of_fault {fault : Fault} (hrun : m.status = .running) (hf : m.fetch = .ok (w, i))
    (hfault : (execute i m.pc (m.enter w i)).2 = some fault) :
    m.advance.1.status = .faulted ∧ m.advance.1.cycles = m.cycles ∧ m.advance.2 = some fault := by
  have hstatus := execute_status i m.pc (m.enter w i)
  have hcycles := (execute_keeps i m.pc (m.enter w i)).cycles
  have hhalt : i ≠ .halt := by
    rintro rfl
    cases hfault
  obtain ⟨log, henter⟩ := enter_eq m w i
  have hstart : (m.enter w i).status = .running ∧ (m.enter w i).cycles = m.cycles := by
    rw [henter]
    exact ⟨hrun, rfl⟩
  rw [if_neg hhalt, hstart.1] at hstatus
  rw [hstart.2] at hcycles
  rw [advance_eq_close hf]
  generalize execute i m.pc (m.enter w i) = r at hstatus hcycles hfault ⊢
  obtain ⟨after, result⟩ := r
  obtain rfl : result = some fault := hfault
  exact ⟨status_stop hstatus, hcycles, rfl⟩

theorem step_settings (m : Machine) :
    m.step.config = m.config ∧ m.step.heap.limit = m.heap.limit := by
  rcases step_cases m with h | h | h
  · rw [h]
    exact ⟨rfl, rfl⟩
  · rw [h]
    exact ⟨rfl, rfl⟩
  · rw [h]
    exact advance_settings m

/-- A step makes one request of the console. -/
theorem step_console (m : Machine) : ∃ q, m.step.console = (m.console.serve q).2 := by
  rcases step_cases m with h | h | h
  · refine ⟨.nothing, ?_⟩
    rw [h]
    rfl
  · refine ⟨.nothing, ?_⟩
    rw [h]
    rfl
  · rw [h]
    rcases hf : m.fetch with fault | ⟨w, i⟩
    · refine ⟨.nothing, ?_⟩
      rw [advance_of_fetch_error hf]
      rfl
    · obtain ⟨hconsole, -⟩ := close_keeps (execute i m.pc (m.enter w i))
      obtain ⟨log, henter⟩ := enter_eq m w i
      refine ⟨request i (m.enter w i), ?_⟩
      rw [advance_eq_close hf, hconsole, execute_console, henter]

end Steps

section Runs

theorem steps_succ (k : Nat) (m : Machine) : steps (k + 1) m = (steps k m).step := by
  induction k generalizing m with
  | zero => rfl
  | succ k ih => exact ih m.step

theorem steps_add (j k : Nat) (m : Machine) : steps (j + k) m = steps k (steps j m) := by
  induction k with
  | zero => rfl
  | succ k ih => rw [← Nat.add_assoc, steps_succ, steps_succ, ih]

theorem steps_of_stopped (k : Nat) (hs : m.status.isStopped = true) : steps k m = m := by
  induction k with
  | zero => rfl
  | succ k ih => rw [steps_succ, ih, step_of_stopped hs]

theorem steps_eq_of_stopped {j k : Nat} (hs : (steps j m).status.isStopped = true) (hle : j ≤ k) :
    steps k m = steps j m := by
  obtain ⟨extra, rfl⟩ := Nat.exists_eq_add_of_le hle
  rw [steps_add, steps_of_stopped extra hs]

theorem stepFault?_of_stopped (hs : m.status.isStopped = true) : m.stepFault? = none := by
  rw [stepFault?, tick_of_stopped hs]

theorem advance_faulted_iff (hrun : m.status = .running) :
    m.advance.1.status = .faulted ↔ m.advance.2 ≠ none := by
  rcases hf : m.fetch with e | ⟨w, i⟩
  · rw [advance_of_fetch_error hf, status_stop hrun]
    simp
  · cases hresult : (execute i m.pc (m.enter w i)).2 with
    | none =>
      obtain ⟨hstatus, -, hnone⟩ := advance_of_executed hrun hf hresult
      rw [hstatus, hnone]
      split <;> simp
    | some e =>
      obtain ⟨hstatus, -, hsome⟩ := advance_of_fault hrun hf hresult
      rw [hstatus, hsome]
      simp

theorem step_of_fault {fault : Fault} (hfault : m.stepFault? = some fault) :
    m.status = .running ∧ m.exhausted = false ∧ m.step.status = .faulted := by
  by_cases hs : m.status.isStopped = true
  · rw [stepFault?_of_stopped hs] at hfault
    cases hfault
  have hrun := Status.eq_running hs
  cases hlimit : m.exhausted with
  | true =>
    rw [stepFault?, tick_of_exhausted hrun hlimit] at hfault
    cases hfault
  | false =>
    rw [stepFault?, tick_of_running hrun hlimit] at hfault
    refine ⟨hrun, rfl, ?_⟩
    rw [step_of_running hrun hlimit, advance_faulted_iff hrun, hfault]
    exact Option.some_ne_none fault

theorem step_of_no_stepFault? (hok : m.stepFault? = none) (hm : m.status ≠ .faulted) :
    m.step.status ≠ .faulted := by
  by_cases hs : m.status.isStopped = true
  · rw [step_of_stopped hs]
    exact hm
  have hrun := Status.eq_running hs
  cases hlimit : m.exhausted with
  | true =>
    rw [step_of_exhausted hrun hlimit]
    exact Status.noConfusion
  | false =>
    rw [stepFault?, tick_of_running hrun hlimit] at hok
    rw [step_of_running hrun hlimit, ne_eq, advance_faulted_iff hrun, not_not]
    exact hok

theorem isStopped_of_fault {fault : Fault} (hfault : m.stepFault? = some fault) :
    m.step.status.isStopped = true := by
  rw [(step_of_fault hfault).2.2]
  rfl

/-- The fault that the first `k` steps end in. -/
def faultWithin : Nat → Machine → Option Fault
  | 0, _ => none
  | k + 1, m => m.stepFault?.or (faultWithin k m.step)

theorem faultWithin_of_stopped (k : Nat) (hs : m.status.isStopped = true) :
    faultWithin k m = none := by
  induction k with
  | zero => rfl
  | succ k ih => rw [faultWithin, stepFault?_of_stopped hs, step_of_stopped hs, ih, Option.or_none]

theorem faultWithin_add (j k : Nat) (m : Machine) :
    faultWithin (j + k) m = (faultWithin j m).or (faultWithin k (steps j m)) := by
  induction j generalizing m with
  | zero =>
    rw [Nat.zero_add]
    rfl
  | succ j ih => rw [Nat.succ_add, faultWithin, ih, ← Option.or_assoc, ← faultWithin, steps]

theorem faultWithin_succ (k : Nat) (m : Machine) :
    faultWithin (k + 1) m = (faultWithin k m).or (steps k m).stepFault? := by
  rw [faultWithin_add, faultWithin, faultWithin, Option.or_none]

theorem faultWithin_congr {n : Machine} {k : Nat}
    (h : ∀ j < k, (steps j m).stepFault? = (steps j n).stepFault?) :
    faultWithin k m = faultWithin k n := by
  induction k generalizing m n with
  | zero => rfl
  | succ k ih =>
    have hfirst : m.stepFault? = n.stepFault? := h 0 (Nat.succ_pos k)
    rw [faultWithin, faultWithin, hfirst, ih fun j hj => h (j + 1) (Nat.succ_lt_succ hj)]

/-- A machine that has not faulted yet is stopped by a fault when one of its steps gives it. -/
theorem steps_faulted_iff (hm : m.status ≠ .faulted) (k : Nat) :
    (steps k m).status = .faulted ↔ ∃ fault, faultWithin k m = some fault := by
  induction k generalizing m with
  | zero => simp [steps, faultWithin, hm]
  | succ k ih =>
    rw [steps, faultWithin]
    cases hfault : m.stepFault? with
    | none =>
      rw [Option.none_or]
      exact ih (step_of_no_stepFault? hfault hm)
    | some fault =>
      rw [steps_of_stopped k (isStopped_of_fault hfault), Option.some_or]
      exact ⟨fun _ => ⟨fault, rfl⟩, fun _ => (step_of_fault hfault).2.2⟩

theorem settle_eq_steps (fuel : Nat) (m : Machine) :
    settle fuel m = (steps fuel m, faultWithin fuel m) := by
  induction fuel generalizing m with
  | zero => rfl
  | succ fuel ih =>
    -- settling ends early at a stop, where further steps change nothing
    by_cases hs : m.status.isStopped = true
    · rw [settle_of_stopped _ hs, steps_of_stopped _ hs, faultWithin_of_stopped _ hs]
    · rw [settle, if_neg (m.isStopped_status ▸ hs), steps, faultWithin]
      have htick : m.tick = (m.step, m.stepFault?) := rfl
      rw [htick]
      cases hfault : m.stepFault? with
      | none => exact ih m.step
      | some fault => rw [steps_of_stopped _ (isStopped_of_fault hfault), Option.some_or]

theorem faultWithin_eq_none {k : Nat} (hm : m.status ≠ .faulted)
    (hs : (steps k m).status ≠ .faulted) : faultWithin k m = none := by
  cases hfault : faultWithin k m with
  | none => rfl
  | some fault => exact absurd ((steps_faulted_iff hm k).mpr ⟨fault, hfault⟩) hs

theorem settle_eq_of_stopped {j k : Nat} (hs : (steps j m).status.isStopped = true) (hle : j ≤ k) :
    settle k m = settle j m := by
  rw [settle_eq_steps, settle_eq_steps, steps_eq_of_stopped hs hle]
  obtain ⟨extra, rfl⟩ := Nat.exists_eq_add_of_le hle
  rw [faultWithin_add, faultWithin_of_stopped extra hs, Option.or_none]

theorem faultWithin_eq_some_iff {k : Nat} {fault : Fault} :
    faultWithin k m = some fault ↔ ∃ j < k, (steps j m).stepFault? = some fault := by
  induction k generalizing m with
  | zero => simp [faultWithin]
  | succ k ih =>
    rw [faultWithin]
    cases hfault : m.stepFault? with
    | none =>
      rw [Option.none_or, ih]
      constructor
      · rintro ⟨j, hj, hlater⟩
        exact ⟨j + 1, Nat.succ_lt_succ hj, hlater⟩
      · rintro ⟨_ | j, hj, hlater⟩
        · cases hfault.symm.trans hlater
        · exact ⟨j, Nat.lt_of_succ_lt_succ hj, hlater⟩
    | some first =>
      -- the machine stops at its first fault, and gives none from then on
      have hstopped := isStopped_of_fault hfault
      rw [Option.some_or]
      constructor
      · intro h
        exact ⟨0, Nat.succ_pos k, hfault.trans h⟩
      · rintro ⟨_ | j, -, hlater⟩
        · exact hfault.symm.trans hlater
        · rw [steps, steps_of_stopped j hstopped, stepFault?_of_stopped hstopped] at hlater
          cases hlater

theorem isStopped_of_faultWithin {k : Nat} {fault : Fault} (h : faultWithin k m = some fault) :
    (steps k m).status.isStopped = true := by
  obtain ⟨j, hj, hfault⟩ := faultWithin_eq_some_iff.mp h
  have hstopped : (steps (j + 1) m).status.isStopped = true := by
    rw [steps_succ]
    exact isStopped_of_fault hfault
  rw [steps_eq_of_stopped hstopped hj]
  exact hstopped

theorem steps_settings (k : Nat) (m : Machine) :
    (steps k m).config = m.config ∧ (steps k m).heap.limit = m.heap.limit := by
  induction k with
  | zero => exact ⟨rfl, rfl⟩
  | succ k ih =>
    obtain ⟨hconfig, hlimit⟩ := step_settings (steps k m)
    rw [steps_succ, hconfig, hlimit]
    exact ih

theorem run_eq_steps {result : Except Fault Outcome} {after : Machine} {fuel : Nat}
    (hr : m.run fuel = some (result, after)) :
    ∃ start rows log,
      after = { steps fuel { m with log := start } with rows := rows, log := log } := by
  obtain ⟨start, rows, log, hafter⟩ := run_eq hr
  rw [settle_eq_steps] at hafter
  exact ⟨start, rows, log, hafter⟩

theorem Reachable.settings {p : Program} {input : Bytes} {config : Config}
    (h : Reachable p input config m) :
    m.config = config ∧ m.heap.limit = config.maxBlockWords := by
  induction h with
  | boot => exact ⟨rfl, rfl⟩
  | @step before _ ih =>
    obtain ⟨hconfig, hlimit⟩ := step_settings before
    rw [hconfig, hlimit]
    exact ih
  | takeRows _ ih => exact ih
  | @run before after fuel result _ hr ih =>
    obtain ⟨start, rows, log, rfl⟩ := run_eq_steps hr
    have hsteps := steps_settings fuel { before with log := start }
    exact ⟨hsteps.1.trans ih.1, hsteps.2.trans ih.2⟩

end Runs

end Machine

end UniversalMachine
