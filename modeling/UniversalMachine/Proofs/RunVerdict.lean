import UniversalMachine.Proofs.CycleBudget
import UniversalMachine.Proofs.Halting

/-! What a run says of a machine that has served other calls before.
A fault is told by the call in which it happens, and by no later one: a machine that a fault has
stopped gives no reason, and a run of it fills in a halt. So the reason of an outcome can be trusted
only as long as no call has failed. -/

namespace UniversalMachine.Machine

variable {m last after : Machine} {done : List Instruction} {faults : List Fault}
  {result : Except Fault Outcome} {fuel : Nat}

section Runs

/-- The end of a run whose steps lead to `last` and give a fault, or none. -/
inductive Ran (last : Machine) : Option Fault → Except Fault Outcome → Machine → Prop where
  | concluded {outcome : Outcome} {rows : Array TraceRow} {log : Array Event} :
      last.status.isStopped = true → outcome.reason = last.reason.getD .halt →
      Ran last none (.ok outcome) { last with rows := rows, log := log }
  | failed {fault : Fault} {log : Array Event} :
      Ran last (some fault) (.error fault) { last with log := log }

theorem finish_ran {fault? : Option Fault} (hf : finish (last, fault?) = some (result, after)) :
    Ran last fault? result after := by
  cases fault? with
  | some fault =>
    obtain ⟨log, hlog⟩ := report_eq last (.failed last.cycles fault)
    rw [finish, hlog] at hf
    cases hf
    exact .failed
  | none =>
    by_cases hs : last.status.isStopped = true
    · obtain ⟨log, hlog⟩ := conclude_eq last
      rw [finish_of_stopped hs, hlog] at hf
      cases hf
      exact .concluded hs rfl
    · rw [finish, if_neg (last.isStopped_status ▸ hs)] at hf
      cases hf

theorem announce_status (m : Machine) : m.announce.status = m.status := by
  obtain ⟨log, hlog⟩ := announce_eq m
  rw [hlog]
  rfl

/-- A machine that has stopped before, be it by a fault, is run to an outcome. -/
theorem run_eq_conclude (hs : m.status.isStopped = true) (fuel : Nat) :
    m.run fuel = some (.ok m.announce.conclude.1, m.announce.conclude.2) := by
  rw [← announce_status] at hs
  rw [run, settle_of_stopped fuel hs, finish_of_stopped hs]

theorem run_ran (hr : m.run fuel = some (result, after)) :
    Ran (steps fuel m.announce) (faultWithin fuel m.announce) result after := by
  rw [run, settle_eq_steps] at hr
  exact finish_ran hr

end Runs

section Histories

/-- A machine behind calls of `step` and `run` that executed `done` and gave `faults`. -/
inductive Served (p : Program) (c : Console) (config : Config) :
    List Instruction → List Fault → Machine → Prop where
  | boot : Served p c config [] [] (.boot p c config)
  | step {done : List Instruction} {faults : List Fault} {m : Machine} :
      Served p c config done faults m →
      Served p c config (done ++ m.executed?.toList) (faults ++ m.stepFault?.toList) m.step
  | run {done : List Instruction} {faults : List Fault} {m after : Machine} {fuel : Nat}
      {result : Except Fault Outcome} :
      Served p c config done faults m → m.run fuel = some (result, after) →
      Served p c config (done ++ m.announce.executedIn fuel) (faults ++ m.announce.faultsIn fuel)
        after

theorem Ledger.announce (h : Ledger done faults m) : Ledger done faults m.announce := by
  obtain ⟨log, hlog⟩ := announce_eq m
  rw [hlog]
  exact ⟨h.cycles, h.halted, h.faulted, h.budget, h.spent⟩

theorem Ledger.ran {fault? : Option Fault} (h : Ledger done faults last)
    (hran : Ran last fault? result after) : Ledger done faults after := by
  cases hran with
  | concluded _ _ => exact ⟨h.cycles, h.halted, h.faulted, h.budget, h.spent⟩
  | failed => exact ⟨h.cycles, h.halted, h.faulted, h.budget, h.spent⟩

variable {p : Program} {c : Console} {config : Config}

theorem Served.ledger (h : Served p c config done faults m) : Ledger done faults m := by
  induction h with
  | boot => exact ledger_boot p c config
  | step _ ih => exact ih.call (step_call _)
  | run _ hr ih => exact (ih.announce.steps _).ran (run_ran hr)

/-- A fault is the result of a run exactly when it happens in that run. An outcome names a halt when
the last instruction executed was one, and also whenever an earlier call had failed. -/
theorem run_verdict (h : Served p c config done faults m)
    (hr : m.run fuel = some (result, after)) :
    (∀ fault, result = .error fault ↔ m.announce.faultsIn fuel = [fault]) ∧
      ∀ outcome, result = .ok outcome →
        (outcome.reason = .halt ↔
          (done ++ m.announce.executedIn fuel).getLast? = some .halt ∨ faults ≠ []) := by
  have hafter := h.ledger.announce.steps fuel
  have hran := run_ran hr
  rw [faultsIn_eq] at hafter ⊢
  generalize steps fuel m.announce = last, faultWithin fuel m.announce = fault? at hafter hran ⊢
  cases hran with
  | concluded hstopped hreason =>
    rw [Option.toList_none, List.append_nil] at hafter
    constructor
    · intro fault
      simp
    · rintro outcome ⟨⟩
      rw [hreason, ← hafter.halted, ← hafter.faulted, ← reason?_status]
      cases hs : last.status with
      | running => simp [hs, Status.isStopped] at hstopped
      | halted | outOfCycles | faulted => simp [Status.reason?]
  | failed =>
    constructor
    · intro fault
      simp
    · intro outcome hok
      cases hok

/-- A run that divides by zero tells so. If the division came before the run, the run names a
halt. -/
theorem run_verdict_division :
    let start := boot [0x50000000] (.ofBytes []) {}
    (∃ after, start.run 1 = some (.error (.divisionByZero 0), after)) ∧
      start.announce.faultsIn 1 = [.divisionByZero 0] ∧
      Served [0x50000000] (.ofBytes []) {} [] [.divisionByZero 0] start.step ∧
      ∃ outcome after, start.step.run 1 = some (.ok outcome, after) ∧ outcome.reason = .halt := by
  intro start
  have hfault : faultWithin 1 start.announce = some (.divisionByZero 0) := by decide
  obtain ⟨after, hfirst⟩ : ∃ after, start.run 1 = some (.error (.divisionByZero 0), after) := by
    rw [run, settle_eq_steps, hfault]
    exact ⟨_, rfl⟩
  have hserved : Served [0x50000000] (.ofBytes []) {} [] [.divisionByZero 0] start.step :=
    .step .boot
  have hsecond := run_eq_conclude (m := start.step) (by decide) 1
  refine ⟨⟨after, hfirst⟩, ((run_verdict .boot hfirst).1 _).mp rfl, hserved, _, _, hsecond, ?_⟩
  apply ((run_verdict hserved hsecond).2 _ rfl).mpr
  exact .inr (List.cons_ne_nil _ _)

/-- A run may name a halt although no halt instruction has been executed. -/
theorem run_names_halt_unexecuted :
    ¬ ∀ (p : Program) (c : Console) (config : Config) (done : List Instruction)
        (faults : List Fault) (m after : Machine) (fuel : Nat) (outcome : Outcome),
        Served p c config done faults m → m.run fuel = some (.ok outcome, after) →
        outcome.reason = .halt → .halt ∈ done ++ m.announce.executedIn fuel := by
  intro hclean
  have hserved : Served [0x50000000] (.ofBytes []) {} [] [.divisionByZero 0]
      (boot [0x50000000] (.ofBytes []) {}).step := .step .boot
  have hmem := hclean _ _ _ _ _ _ _ 0 _ hserved rfl rfl
  exact absurd hmem List.not_mem_nil

end Histories

end UniversalMachine.Machine
