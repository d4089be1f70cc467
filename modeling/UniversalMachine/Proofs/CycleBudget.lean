import UniversalMachine.Proofs.Lockstep

/-! The cycle budget only cuts a run short.
A machine with a budget goes through the states of the machine without one until the budget is used
up. It ends as that machine does if that machine ends within the budget, and otherwise stops in the
state which that machine has after as many steps. -/

namespace UniversalMachine

theorem Console.simulation_eq : Simulation (fun _ => True) Eq where
  valid_before _ := trivial
  answer h _ := by rw [h]
  after h _ := by rw [h]

namespace Machine

variable {m n : Machine}

section Counting

/-- An instruction that is executed is counted; a fault is not. -/
inductive Advanced (m after : Machine) : Prop where
  | executed : after.status = .running → after.cycles = m.cycles + 1 → Advanced m after
  | halted : after.status = .halted → after.cycles = m.cycles + 1 → Advanced m after
  | faulted : after.status = .faulted → after.cycles = m.cycles → Advanced m after

theorem advance_advanced (hrun : m.status = .running) : Advanced m m.advance.1 := by
  rcases hf : m.fetch with fault | ⟨w, i⟩
  · rw [advance_of_fetch_error hf]
    exact .faulted (status_stop hrun) rfl
  · rcases hresult : (execute i m.pc (m.enter w i)).2 with _ | fault
    · obtain ⟨hstatus, hcycles, -⟩ := advance_of_executed hrun hf hresult
      by_cases hi : i = .halt
      · rw [if_pos hi] at hstatus
        exact .halted hstatus hcycles
      · rw [if_neg hi] at hstatus
        exact .executed hstatus hcycles
    · obtain ⟨hstatus, hcycles, -⟩ := advance_of_fault hrun hf hresult
      exact .faulted hstatus hcycles

/-- How a machine stands `k` steps behind a count of `c` cycles. -/
inductive Tally (c k : Nat) (m : Machine) : Prop where
  | running : m.status = .running → m.cycles = c + k → Tally c k m
  | halted : m.status = .halted → c < m.cycles → m.cycles ≤ c + k → Tally c k m
  | faulted : m.status = .faulted → c ≤ m.cycles → m.cycles < c + k → Tally c k m

theorem not_exhausted_of_unlimited (hmax : m.config.maxCycles = none) : m.exhausted = false := by
  rw [exhausted, hmax]

theorem unlimited_steps (hmax : m.config.maxCycles = none) (k : Nat) :
    (steps k m).config.maxCycles = none := by
  rw [(steps_settings k m).1, hmax]

theorem steps_tally (hrun : m.status = .running) (hmax : m.config.maxCycles = none) (k : Nat) :
    Tally m.cycles k (steps k m) := by
  induction k with
  | zero => exact .running hrun rfl
  | succ k ih =>
    rw [steps_succ]
    cases ih with
    | running hs hc =>
      rw [step_of_running hs (not_exhausted_of_unlimited (unlimited_steps hmax k))]
      cases advance_advanced hs with
      | executed hs' hc' => exact .running hs' (by omega)
      | halted hs' hc' => exact .halted hs' (by omega) (by omega)
      | faulted hs' hc' => exact .faulted hs' (by omega) (by omega)
    | halted hs hlt hle =>
      rw [step_of_stopped (by rw [hs]; rfl)]
      exact .halted hs hlt (by omega)
    | faulted hs hle hlt =>
      rw [step_of_stopped (by rw [hs]; rfl)]
      exact .faulted hs hle (by omega)

/-- The machine has halted with an instruction within the budget, or has faulted with some of the
budget left. -/
def EndedWithin (limit : Nat) (m : Machine) : Prop :=
  m.status = .halted ∧ m.cycles ≤ limit ∨ m.status = .faulted ∧ m.cycles < limit

def StopsWithin (limit : Nat) (m : Machine) : Prop := ∃ k, EndedWithin limit (steps k m)

theorem EndedWithin.isStopped {limit : Nat} (h : EndedWithin limit m) :
    m.status.isStopped = true := by
  rcases h with ⟨hs, -⟩ | ⟨hs, -⟩
  · rw [hs]
    rfl
  · rw [hs]
    rfl

theorem Tally.endedWithin {k : Nat} (h : Tally 0 k m) (hs : m.status.isStopped = true) :
    EndedWithin k m := by
  cases h with
  | running hrun hc =>
    rw [hrun] at hs
    cases hs
  | halted hhalt hlt hle => exact .inl ⟨hhalt, by omega⟩
  | faulted hfault hle hlt => exact .inr ⟨hfault, by omega⟩

theorem Tally.not_endedWithin {c k : Nat} (h : Tally c k m) : ¬ EndedWithin c m := by
  rintro (⟨hs, hc⟩ | ⟨hs, hc⟩)
  · cases h with
    | running hs' => simp [hs] at hs'
    | halted _ hlt => omega
    | faulted hs' => simp [hs] at hs'
  · cases h with
    | running hs' => simp [hs] at hs'
    | halted hs' => simp [hs] at hs'
    | faulted _ hle => omega

theorem Tally.cycles_of_running {c k : Nat} (h : Tally c k m) (hs : m.status = .running) :
    m.cycles = c + k := by
  cases h with
  | running _ hc => exact hc
  | halted hs' => simp [hs] at hs'
  | faulted hs' => simp [hs] at hs'

/-- Counted in instructions or in steps, stopping within the budget is the same. -/
theorem stopsWithin_iff (hrun : m.status = .running) (hmax : m.config.maxCycles = none)
    (hzero : m.cycles = 0) (limit : Nat) :
    StopsWithin limit m ↔ (steps limit m).status.isStopped = true := by
  have htally := steps_tally hrun hmax limit
  rw [hzero] at htally
  constructor
  · rintro ⟨k, hk⟩
    by_contra hstopped
    rcases Nat.le_total k limit with hle | hle
    · rw [steps_eq_of_stopped hk.isStopped hle] at hstopped
      exact hstopped hk.isStopped
    · have hs := Status.eq_running hstopped
      have hcycles := htally.cycles_of_running hs
      obtain ⟨extra, rfl⟩ := Nat.exists_eq_add_of_le hle
      -- beyond the budget the count starts from the budget itself
      have hmore := steps_tally hs (unlimited_steps hmax limit) extra
      rw [← steps_add, hcycles, Nat.zero_add] at hmore
      exact hmore.not_endedWithin hk
  · intro hstopped
    exact ⟨limit, htally.endedWithin hstopped⟩

end Counting

section Runs

theorem lockstep_within_budget (h : Lockstep Eq m n) (hmax : n.config.maxCycles = none)
    (hrun : n.status = .running) {k : Nat}
    (hbudget : ∀ limit, m.config.maxCycles = some limit → n.cycles + k ≤ limit) :
    Lockstep Eq (steps k m) (steps k n) ∧ faultWithin k m = faultWithin k n := by
  induction k with
  | zero => exact ⟨h, rfl⟩
  | succ k ih =>
    obtain ⟨hk, hfaults⟩ := ih fun limit hl => Nat.le_of_succ_le (hbudget limit hl)
    have hlimits (hs : (steps k m).status = .running) :
        (steps k m).exhausted = (steps k n).exhausted := by
      have hcycles := (steps_tally hrun hmax k).cycles_of_running (hk.status ▸ hs)
      have hsame : (steps k m).cycles = (steps k n).cycles := congrArg Core.cycles hk.core
      rw [not_exhausted_of_unlimited (unlimited_steps hmax k), exhausted, (steps_settings k m).1]
      split
      · rfl
      · rename_i limit hl
        have hle := hbudget limit hl
        rw [decide_eq_false_iff_not]
        omega
    obtain ⟨hnext, hfault⟩ := hk.step Console.simulation_eq hlimits trivial
    rw [steps_succ, steps_succ, faultWithin_succ, faultWithin_succ, hfaults, hfault]
    exact ⟨hnext, rfl⟩

def start (p : Program) (input : Bytes) (config : Config) (budget : Option Nat) : Machine :=
  boot p (.ofBytes input) { config with maxCycles := budget }

theorem announce_eq (m : Machine) : ∃ log, m.announce = { m with log := log } := report_eq m _

/-- Two machines at the end of a run that differ at most in their configuration and their log. -/
structure SameEnd (m n : Machine) : Prop where
  core : m.core = n.core
  status : m.status = n.status
  console : m.console = n.console
  rows : m.rows = n.rows

theorem SameEnd.symm (h : SameEnd m n) : SameEnd n m :=
  ⟨h.core.symm, h.status.symm, h.console.symm, h.rows.symm⟩

theorem SameEnd.trans {k : Machine} (h : SameEnd m n) (h' : SameEnd n k) : SameEnd m k :=
  ⟨h.core.trans h'.core, h.status.trans h'.status, h.console.trans h'.console,
    h.rows.trans h'.rows⟩

theorem SameEnd.report (h : SameEnd m n) (e e' : Event) : SameEnd (m.report e) (n.report e') := by
  obtain ⟨log, hlog⟩ := report_eq m e
  obtain ⟨log', hlog'⟩ := report_eq n e'
  rw [hlog, hlog']
  exact ⟨h.core, h.status, h.console, h.rows⟩

theorem SameEnd.conclude (h : SameEnd m n) :
    m.conclude.1 = n.conclude.1 ∧ SameEnd m.conclude.2 n.conclude.2 := by
  obtain ⟨log, hm⟩ := conclude_eq m
  obtain ⟨log', hn⟩ := conclude_eq n
  have hcycles : m.cycles = n.cycles := congrArg Core.cycles h.core
  have hstats : m.heap.stats = n.heap.stats := congrArg (fun s : Core => s.heap.stats) h.core
  rw [hm, hn]
  have hreason : m.reason = n.reason := by
    rw [← reason?_status, ← reason?_status, h.status]
  refine ⟨?_, h.core, h.status, h.console, rfl⟩
  dsimp only
  rw [hcycles, hstats, hreason, h.rows]

theorem finish_of_stopped (hs : m.status.isStopped = true) :
    finish (m, none) = some (.ok m.conclude.1, m.conclude.2) := by
  rw [finish, if_pos (m.isStopped_status ▸ hs)]

theorem SameEnd.finish (h : SameEnd m n) {fault? : Option Fault}
    {result : Except Fault Outcome} {after : Machine}
    (hf : finish (m, fault?) = some (result, after)) :
    ∃ after', Machine.finish (n, fault?) = some (result, after') ∧ SameEnd after after' := by
  cases fault? with
  | some fault =>
    cases hf
    exact ⟨_, rfl, h.report _ _⟩
  | none =>
    by_cases hs : m.status.isStopped = true
    · rw [finish_of_stopped hs] at hf
      cases hf
      obtain ⟨houtcome, hend⟩ := h.conclude
      refine ⟨n.conclude.2, ?_, hend⟩
      rw [finish_of_stopped (h.status ▸ hs), houtcome]
    · rw [Machine.finish, if_neg (m.isStopped_status ▸ hs)] at hf
      cases hf

theorem isStopped_of_finish {k : Nat} {result : Except Fault Outcome} {after : Machine}
    (hf : finish (settle k m) = some (result, after)) :
    (steps k m).status.isStopped = true := by
  rw [settle_eq_steps] at hf
  cases hfault : faultWithin k m with
  | some fault => exact isStopped_of_faultWithin hfault
  | none =>
    rw [hfault, finish] at hf
    split at hf
    · rename_i hs
      rw [isStopped_status]
      exact hs
    · cases hf

theorem exists_finish {k : Nat} (hs : (steps k m).status.isStopped = true) :
    ∃ result after, finish (settle k m) = some (result, after) := by
  rw [settle_eq_steps]
  cases faultWithin k m with
  | some fault => exact ⟨_, _, rfl⟩
  | none => exact ⟨_, _, finish_of_stopped hs⟩

variable {p : Program} {input : Bytes} {config : Config} {limit : Nat}

theorem start_sameEnd (p : Program) (input : Bytes) (config : Config) (budget : Option Nat)
    (hbudget : ∀ l, budget = some l → limit ≤ l) :
    SameEnd (steps limit (start p input config budget).announce)
        (steps limit (start p input config none)) ∧
      faultWithin limit (start p input config budget).announce =
        faultWithin limit (start p input config none) := by
  obtain ⟨log, hlog⟩ := announce_eq (start p input config budget)
  have hstart : Lockstep Eq (start p input config budget).announce (start p input config none) := by
    rw [hlog]
    exact ⟨rfl, rfl, rfl, fun _ => rfl⟩
  have hmax (l : Nat) (hl : (start p input config budget).announce.config.maxCycles = some l) :
      (start p input config none).cycles + limit ≤ l := by
    rw [hlog] at hl
    exact (Nat.zero_add limit).symm ▸ hbudget l hl
  obtain ⟨hl, hfault⟩ := lockstep_within_budget hstart rfl rfl hmax
  refine ⟨⟨hl.core, hl.status, hl.console, hl.rows ?_⟩, hfault⟩
  rw [(steps_settings limit _).1, (steps_settings limit _).1, hlog]
  rfl

/-- If the machine without a budget has stopped after `limit` steps, every machine whose budget is
no smaller ends as it does. -/
theorem run_of_stopped {result : Except Fault Outcome} {last : Machine}
    (hlast : finish (settle limit (start p input config none)) = some (result, last))
    (budget : Option Nat) (hbudget : ∀ l, budget = some l → limit ≤ l) :
    ∃ after, (∀ fuel, limit ≤ fuel →
      (start p input config budget).run fuel = some (result, after)) ∧ SameEnd after last := by
  obtain ⟨hsame, hfault⟩ := start_sameEnd p input config budget hbudget
  rw [settle_eq_steps, ← hfault] at hlast
  obtain ⟨after, hfinish, hend⟩ := hsame.symm.finish hlast
  rw [← settle_eq_steps] at hfinish
  refine ⟨after, ?_, hend.symm⟩
  intro fuel hle
  rw [run, settle_eq_of_stopped (isStopped_of_finish hfinish) hle, hfinish]

theorem tick_finish_of_exhausted (hrun : m.status = .running)
    (hmax : m.config.maxCycles = some m.cycles) :
    m.stepFault? = none ∧ ∃ after, finish (m.step, none) =
        some (.ok ⟨m.cycles, .cycleLimit, m.heap.stats, m.rows.toList⟩, after) ∧
      after.core = m.core ∧ after.console = m.console := by
  have hlimit : m.exhausted = true := by
    rw [exhausted, hmax]
    exact decide_eq_true (Nat.le_refl m.cycles)
  have htick := tick_of_exhausted hrun hlimit
  obtain ⟨log, hlog⟩ := conclude_eq (m.halt .cycleLimit)
  rw [stepFault?, step, htick, finish_of_stopped rfl, hlog]
  exact ⟨rfl, _, rfl, rfl, rfl⟩

/-- If the machine without a budget is still running after `limit` steps, the machine that may
make no more of them stops there. -/
theorem run_of_running (hrun : (steps limit (start p input config none)).status = .running) :
    let last := steps limit (start p input config none)
    ∃ after, (∀ fuel, limit + 1 ≤ fuel → (start p input config (some limit)).run fuel =
        some (.ok ⟨limit, .cycleLimit, last.heap.stats, last.rows.toList⟩, after)) ∧
      after.core = last.core ∧ after.console = last.console := by
  intro last
  let stop := steps limit (start p input config (some limit)).announce
  have hsame : SameEnd stop last :=
    (start_sameEnd p input config (some limit) fun l hl => Nat.le_of_eq (Option.some.inj hl)).1
  have hlast : last.cycles = 0 + limit :=
    (steps_tally (m := start p input config none) rfl rfl limit).cycles_of_running hrun
  have hcycles : stop.cycles = limit := by
    have hcount : stop.cycles = last.cycles := congrArg Core.cycles hsame.core
    omega
  have hstats : stop.heap.stats = last.heap.stats :=
    congrArg (fun s : Core => s.heap.stats) hsame.core
  have hmax : stop.config.maxCycles = some stop.cycles := by
    obtain ⟨log, hlog⟩ := announce_eq (start p input config (some limit))
    rw [hcycles, (steps_settings limit _).1, hlog]
    rfl
  obtain ⟨hnofault, after, hfinish, hcore, hconsole⟩ :=
    tick_finish_of_exhausted (hsame.status.trans hrun) hmax
  rw [hcycles, hstats, hsame.rows] at hfinish
  refine ⟨after, ?_, hcore.trans hsame.core, hconsole.trans hsame.console⟩
  intro fuel hle
  have hnone : faultWithin (limit + 1) (start p input config (some limit)).announce = none := by
    rw [faultWithin_succ, hnofault, Option.or_none]
    cases hearly : faultWithin limit (start p input config (some limit)).announce with
    | none => rfl
    | some fault =>
      have hstopped : stop.status.isStopped = true := isStopped_of_faultWithin hearly
      rw [hsame.status, hrun] at hstopped
      cases hstopped
  have hsettle : settle (limit + 1) (start p input config (some limit)).announce =
      (stop.step, none) := by
    rw [settle_eq_steps, hnone, steps_succ]
  rw [← hsettle] at hfinish
  rw [run, settle_eq_of_stopped (isStopped_of_finish hfinish) hle, hfinish]

/-- A run with a budget of `limit` cycles is over within `limit + 1` steps. If the machine without
a budget stops within it, both end alike; otherwise the run stops for the budget, where that machine
is after `limit` steps. So a run that its budget did not stop ends alike with every larger one. -/
theorem run_with_budget (p : Program) (input : Bytes) (config : Config) (limit : Nat) :
    ∃ result after,
      (∀ fuel, limit + 1 ≤ fuel →
        (start p input config (some limit)).run fuel = some (result, after)) ∧
      (StopsWithin limit (start p input config none) → ∃ after',
        (∀ fuel, limit ≤ fuel →
          (start p input config none).run fuel = some (result, after')) ∧
        SameEnd after after') ∧
      (¬ StopsWithin limit (start p input config none) →
        let last := steps limit (start p input config none)
        result = .ok ⟨limit, .cycleLimit, last.heap.stats, last.rows.toList⟩ ∧
        after.core = last.core ∧ after.console = last.console) ∧
      ((∀ outcome, result = .ok outcome → outcome.reason ≠ .cycleLimit) →
        ∀ larger, limit ≤ larger → ∃ after',
          (∀ fuel, larger + 1 ≤ fuel →
            (start p input config (some larger)).run fuel = some (result, after')) ∧
          SameEnd after after') := by
  have hiff := stopsWithin_iff (m := start p input config none) rfl rfl rfl limit
  by_cases hs : (steps limit (start p input config none)).status.isStopped = true
  · obtain ⟨result, last, hlast⟩ := exists_finish hs
    have hends := run_of_stopped hlast
    obtain ⟨after, hrun, hend⟩ := hends (some limit) fun l hl => Nat.le_of_eq (Option.some.inj hl)
    refine ⟨result, after, fun fuel hle => hrun fuel (Nat.le_of_succ_le hle), ?_, ?_, ?_⟩
    · intro _
      obtain ⟨after', hrun', hend'⟩ := hends none fun l hl => nomatch hl
      exact ⟨after', hrun', hend.trans hend'.symm⟩
    · intro hnot
      exact absurd (hiff.mpr hs) hnot
    · intro _ larger hlarger
      obtain ⟨after', hrun', hend'⟩ := hends (some larger) fun l hl => Option.some.inj hl ▸ hlarger
      refine ⟨after', fun fuel hle => hrun' fuel (by omega), hend.trans hend'.symm⟩
  · obtain ⟨after, hrun, hcore, hconsole⟩ := run_of_running (Status.eq_running hs)
    refine ⟨_, after, hrun, ?_, fun _ => ⟨rfl, hcore, hconsole⟩, ?_⟩
    · intro hwithin
      exact absurd (hiff.mp hwithin) hs
    · intro hreason
      exact absurd rfl (hreason _ rfl)

/-- A program of one halt is cut short by a budget of no cycle and not by a budget of one. -/
theorem run_with_budget_halt :
    let free := start [0x70000000] [] {} none
    (StopsWithin 1 free ∧ ¬ StopsWithin 0 free) ∧
    (∃ result after after', (start [0x70000000] [] {} (some 1)).run 2 = some (result, after) ∧
      free.run 1 = some (result, after') ∧ SameEnd after after') ∧
    ∃ after, (start [0x70000000] [] {} (some 0)).run 1 =
        some (.ok ⟨0, .cycleLimit, free.heap.stats, []⟩, after) ∧
      after.core = free.core ∧ after.console = free.console := by
  intro free
  have hone : StopsWithin 1 free := (stopsWithin_iff rfl rfl rfl 1).mpr (by decide)
  have hzero : ¬ StopsWithin 0 free := by
    rw [stopsWithin_iff rfl rfl rfl 0]
    decide
  obtain ⟨result, after, hrun, hwithin, -, -⟩ := run_with_budget [0x70000000] [] {} 1
  obtain ⟨after', hfree, hend⟩ := hwithin hone
  obtain ⟨cut, stop, hcut, -, hbeyond, -⟩ := run_with_budget [0x70000000] [] {} 0
  obtain ⟨rfl, hcore, hconsole⟩ := hbeyond hzero
  refine ⟨⟨hone, hzero⟩, ⟨result, after, after', ?_, ?_, hend⟩, stop, ?_, hcore, hconsole⟩
  · exact hrun 2 (Nat.le_refl 2)
  · exact hfree 1 (Nat.le_refl 1)
  · exact hcut 1 (Nat.le_refl 1)

end Runs

end Machine

end UniversalMachine
