import UniversalMachine.Proofs.AtomicFaults

/-! How a machine stops.
There are three ways: a halt instruction, the end of the budget, and a fault. Which of them it was
can be read off the calls made so far, and so can the count of cycles. -/

namespace UniversalMachine

namespace Status

variable {s : Status}

theorem reason?_eq_halt_iff : s.reason? = some .halt ↔ s = .halted := by
  cases s <;> simp [reason?]

theorem reason?_eq_cycleLimit_iff : s.reason? = some .cycleLimit ↔ s = .outOfCycles := by
  cases s <;> simp [reason?]

theorem isStopped_of_reason? (h : s.reason?.isSome = true) : s.isStopped = true := by
  cases s with
  | running => cases h
  | _ => rfl

theorem stopped_without_reason_iff : s.isStopped = true ∧ s.reason? = none ↔ s = .faulted := by
  cases s <;> simp [isStopped, reason?]

end Status

namespace Machine

variable {m after : Machine} {fault : Fault} {k : Nat}

/-- The instruction that the next step executes without a fault. -/
def executed? (m : Machine) : Option Instruction :=
  if m.stepFault?.isSome then none else m.decoded?.map Prod.snd

/-- The instructions that the first `k` steps execute, in order. -/
def executedIn (m : Machine) (k : Nat) : List Instruction :=
  (List.range k).filterMap fun j => (steps j m).executed?

/-- The faults that the first `k` steps give, in order. -/
def faultsIn (m : Machine) (k : Nat) : List Fault :=
  (List.range k).filterMap fun j => (steps j m).stepFault?

theorem executedIn_succ (m : Machine) (k : Nat) :
    m.executedIn (k + 1) = m.executedIn k ++ (steps k m).executed?.toList := by
  cases h : (steps k m).executed? <;> simp [executedIn, List.range_succ, h]

theorem faultsIn_succ (m : Machine) (k : Nat) :
    m.faultsIn (k + 1) = m.faultsIn k ++ (steps k m).stepFault?.toList := by
  cases h : (steps k m).stepFault? <;> simp [faultsIn, List.range_succ, h]

theorem exists_stepFault?_iff :
    (∃ j < k, (steps j m).stepFault?.isSome = true) ↔ m.faultsIn k ≠ [] := by
  simp [faultsIn, Option.isSome_iff_ne_none]

/-- There is no fault behind the first. -/
theorem faultsIn_eq (m : Machine) (k : Nat) : m.faultsIn k = (faultWithin k m).toList := by
  induction k with
  | zero => rfl
  | succ k ih =>
    rw [faultsIn_succ, faultWithin_succ, ih]
    cases hfault : faultWithin k m with
    | none => rfl
    | some fault =>
      rw [stepFault?_of_stopped (isStopped_of_faultWithin hfault)]
      rfl

theorem exhausted_iff (m : Machine) :
    m.exhausted = true ↔ ∃ n, m.config.maxCycles = some n ∧ n ≤ m.cycles := by
  cases h : m.config.maxCycles <;> simp [exhausted, h]

/-- How a machine stands behind calls that executed `done` and gave `faults`. -/
structure Ledger (done : List Instruction) (faults : List Fault) (m : Machine) : Prop where
  cycles : m.cycles = done.length
  halted : m.status = .halted ↔ done.getLast? = some .halt
  faulted : m.status = .faulted ↔ faults ≠ []
  budget : ∀ n, m.config.maxCycles = some n → m.cycles ≤ n
  spent : m.status = .outOfCycles → m.config.maxCycles = some m.cycles

theorem ledger_boot (p : Program) (c : Console) (config : Config) :
    Ledger [] [] (boot p c config) where
  cycles := rfl
  halted := by simp [boot, status]
  faulted := by simp [boot, status]
  budget n _ := Nat.zero_le n
  spent h := by cases h

theorem Ledger.of_running {done : List Instruction} {faults : List Fault}
    (h : Ledger done faults m) (hrun : m.status = .running) :
    done.getLast? ≠ some .halt ∧ faults = [] := by
  constructor
  · intro hlast
    simp [h.halted.mpr hlast] at hrun
  · by_contra hne
    simp [h.faulted.mpr hne] at hrun

theorem Ledger.call {done : List Instruction} {faults : List Fault}
    {decoded : Option (Word × Instruction)} {result : Option Fault} (h : Ledger done faults m)
    (hcall : Call m decoded result after) :
    Ledger (done ++ (if result.isSome then none else decoded.map Prod.snd).toList)
      (faults ++ result.toList) after := by
  cases hcall with
  | idle hs => simpa using h
  | spent hrun hlimit =>
    obtain ⟨hnot, rfl⟩ := h.of_running hrun
    obtain ⟨n, hn, hle⟩ := (exhausted_iff m).mp hlimit
    have hcycles : n = m.cycles := Nat.le_antisymm hle (h.budget n hn)
    have hstatus : (m.halt .cycleLimit).status = .outOfCycles := rfl
    exact ⟨by simpa [halt] using h.cycles, by simpa [hstatus] using hnot, by simp [hstatus],
      h.budget, fun _ => hcycles ▸ hn⟩
  | @unfetched fault hrun _ _ | @refused w i fault console log hrun _ _ =>
    obtain ⟨hnot, rfl⟩ := h.of_running hrun
    have hstatus : m.stop.status = .faulted := status_stop hrun
    refine ⟨by simpa [stop] using h.cycles, ?_, ?_, h.budget, ?_⟩
    · change m.stop.status = _ ↔ _
      simpa [hstatus] using hnot
    · change m.stop.status = _ ↔ _
      simp [hstatus]
    · change m.stop.status = _ → _
      simp [hstatus]
  | @executed w i hrun hlimit hf hok =>
    obtain ⟨-, rfl⟩ := h.of_running hrun
    obtain ⟨hstatus, hcycles, -⟩ := advance_of_executed hrun hf hok
    refine ⟨by simp [hcycles, h.cycles], ?_, ?_, ?_, ?_⟩
    · by_cases hi : i = .halt <;> simp [hstatus, hi]
    · by_cases hi : i = .halt <;> simp [hstatus, hi]
    · -- the step was made because some of the budget was left
      intro n hn
      rw [(advance_settings m).1] at hn
      have hleft : ¬ n ≤ m.cycles := by
        intro hle
        simp [(exhausted_iff m).mpr ⟨n, hn, hle⟩] at hlimit
      omega
    · intro hspent
      by_cases hi : i = .halt <;> simp [hstatus, hi] at hspent

theorem Ledger.steps {done : List Instruction} {faults : List Fault} (h : Ledger done faults m)
    (k : Nat) : Ledger (done ++ m.executedIn k) (faults ++ m.faultsIn k) (steps k m) := by
  induction k with
  | zero =>
    have hdone : done ++ m.executedIn 0 = done := List.append_nil done
    have hfaults : faults ++ m.faultsIn 0 = faults := List.append_nil faults
    rw [hdone, hfaults]
    exact h
  | succ k ih =>
    rw [executedIn_succ, faultsIn_succ, steps_succ, ← List.append_assoc, ← List.append_assoc]
    exact ih.call (step_call _)

theorem steps_ledger (p : Program) (c : Console) (config : Config) (k : Nat) :
    let start := boot p c config
    Ledger (start.executedIn k) (start.faultsIn k) (steps k start) :=
  (ledger_boot p c config).steps k

/-- From a call that faults on, the machine is stopped by a fault. -/
theorem steps_of_stepFault {i j : Nat} (hfault : (steps i m).stepFault? = some fault)
    (hlt : i < j) : (steps j m).status = .faulted := by
  have hnext : (steps (i + 1) m).status = .faulted := by
    rw [steps_succ]
    exact (step_of_fault hfault).2.2
  rw [steps_eq_of_stopped (by simp [hnext, Status.isStopped]) hlt, hnext]

theorem stepFault?_unique {i j : Nat} (hi : (steps i m).stepFault?.isSome = true)
    (hj : (steps j m).stepFault?.isSome = true) : i = j := by
  have hlater {a b : Nat} (ha : (steps a m).stepFault?.isSome = true) (hab : a < b) :
      (steps b m).stepFault? = none := by
    obtain ⟨fault, hfault⟩ := Option.isSome_iff_exists.mp ha
    apply stepFault?_of_stopped
    simp [steps_of_stepFault hfault hab, Status.isStopped]
  rcases Nat.lt_trichotomy i j with hlt | heq | hlt
  · simp [hlater hi hlt] at hj
  · exact heq
  · simp [hlater hj hlt] at hi

/-- The stopping of a machine, over every number of calls. A reason is given only by a machine that
has stopped, which no later call changes. One call at most gives a fault, and a machine has stopped
without a reason exactly when one did. The reason is a halt exactly when the last instruction
executed was one, and it is the budget only when that is used up. The count of cycles is the number
of instructions executed. -/
theorem steps_stopping (p : Program) (c : Console) (config : Config) (k : Nat) :
    let start := boot p c config
    let m := steps k start
    (m.reason.isSome = true → m.halted = true) ∧
    (m.halted = true → ∀ extra,
      steps (k + extra) start = m ∧ (steps (k + extra) start).stepFault? = none) ∧
    (∀ i j, (steps i start).stepFault?.isSome = true → (steps j start).stepFault?.isSome = true →
      i = j) ∧
    (m.halted = true ∧ m.reason = none ↔
      ∃ j < k, (steps j start).stepFault?.isSome = true) ∧
    (m.reason = some .halt ↔ (start.executedIn k).getLast? = some .halt) ∧
    (m.reason = some .cycleLimit → config.maxCycles = some m.cycles) ∧
    m.cycles = (start.executedIn k).length := by
  intro start m
  have hledger : Ledger (start.executedIn k) (start.faultsIn k) m := steps_ledger p c config k
  rw [← isStopped_status, ← reason?_status]
  refine ⟨Status.isStopped_of_reason?, ?_, fun i j => stepFault?_unique, ?_, ?_, ?_,
    hledger.cycles⟩
  · intro hs extra
    have hsame : steps (k + extra) start = m := steps_eq_of_stopped hs (Nat.le_add_right k extra)
    exact ⟨hsame, hsame ▸ stepFault?_of_stopped hs⟩
  · rw [Status.stopped_without_reason_iff, exists_stepFault?_iff, hledger.faulted]
  · rw [Status.reason?_eq_halt_iff, hledger.halted]
  · intro hreason
    have hmax := hledger.spent (Status.reason?_eq_cycleLimit_iff.mp hreason)
    rwa [(steps_settings k start).1] at hmax

/-- A program of one halt stops by it, or by a budget of no cycle; the empty program faults. -/
theorem steps_stopping_three_ways :
    let halting := boot [0x70000000] (.ofBytes []) {}
    let cut := boot [0x70000000] (.ofBytes []) { maxCycles := some 0 }
    let empty := boot [] (.ofBytes []) {}
    (halting.executedIn 1 = [.halt] ∧ (steps 1 halting).reason = some .halt ∧
      (steps 1 halting).cycles = 1 ∧ steps (1 + 6) halting = steps 1 halting) ∧
    ((steps 1 cut).reason = some .cycleLimit ∧ some 0 = some (steps 1 cut).cycles) ∧
    (∃ j < 1, (steps j empty).stepFault?.isSome = true) ∧
      (steps 1 empty).halted = true ∧ (steps 1 empty).reason = none := by
  intro halting cut empty
  have hdone : halting.executedIn 1 = [.halt] := by decide
  obtain ⟨hstopped, hlater, -, -, hhalt, -, hcycles⟩ :=
    steps_stopping [0x70000000] (.ofBytes []) {} 1
  obtain ⟨-, -, -, -, -, hspent, -⟩ :=
    steps_stopping [0x70000000] (.ofBytes []) { maxCycles := some 0 } 1
  obtain ⟨-, -, -, hfault, -⟩ := steps_stopping [] (.ofBytes []) {} 1
  have hreason : (steps 1 halting).reason = some .halt :=
    hhalt.mpr (congrArg List.getLast? hdone)
  have hcut : (steps 1 cut).reason = some .cycleLimit := by decide
  have hfirst : ∃ j < 1, (steps j empty).stepFault?.isSome = true := ⟨0, by decide, by decide⟩
  refine ⟨⟨hdone, hreason, hcycles.trans (congrArg List.length hdone), ?_⟩, ⟨hcut, hspent hcut⟩,
    hfirst, hfault.mpr hfirst⟩
  exact (hlater (hstopped (congrArg Option.isSome hreason)) 6).1

end Machine

end UniversalMachine
