import UniversalMachine.Proofs.AtomicFaults
import UniversalMachine.Proofs.CycleBudget

/-! The limit on blocks only cuts a run short.
A machine looks at its limit when it allocates, and nowhere else. Under a larger limit it goes
through the same states, up to the first allocation that the smaller limit refuses. -/

namespace UniversalMachine

namespace Heap

variable {h : Heap} {limit : Word}

/-- The heap under another limit. -/
def relimit (h : Heap) (limit : Word) : Heap := { h with limit := limit }

theorem write_relimit (index offset value : Word) :
    (h.relimit limit).write index offset value =
      (h.write index offset value).map id (relimit · limit) := by
  have hread : (h.relimit limit).read index offset = h.read index offset := rfl
  rw [write, write, hread]
  cases h.read index offset with
  | error e => rfl
  | ok old => rfl

theorem reclaim_relimit (index : Word) :
    (h.relimit limit).reclaim index = (h.reclaim index).map id (relimit · limit) := by
  have hlive : (h.relimit limit).isLive index = h.isLive index := rfl
  rw [reclaim, reclaim, hlive]
  split
  · rfl
  · split
    · rfl
    · rfl

theorem loadProgram_relimit (index : Word) :
    (h.relimit limit).loadProgram index = (h.loadProgram index).map id (relimit · limit) := by
  have hblock : (h.relimit limit).block? index = h.block? index := rfl
  rw [loadProgram, loadProgram, hblock]
  split
  · rfl
  · cases h.block? index with
    | none => rfl
    | some block => rfl

/-- An allocation within both limits has the same result under either. -/
theorem allocate_relimit {size : Word} (hsize : size ≤ h.limit) (hle : h.limit ≤ limit) :
    (h.relimit limit).allocate size =
      (h.allocate size).map id (relimit · limit) := by
  have hold : ¬ h.limit < size := UInt32.not_lt.mpr hsize
  have hnew : ¬ (h.relimit limit).limit < size := UInt32.not_lt.mpr (UInt32.le_trans hsize hle)
  have hmemory : (h.relimit limit).hasMemory size = h.hasMemory size := rfl
  have hfree : (h.relimit limit).free = h.free := rfl
  have hslots : (h.relimit limit).slots = h.slots := rfl
  rw [allocate_eq, allocate_eq, if_neg hold, if_neg hnew, hmemory, hfree, hslots]
  split
  · rfl
  · split
    · rfl
    · rfl

end Heap

namespace Machine

variable {m : Machine} {i : Instruction} {limit : Word} {k : Nat}

/-- The machine under another limit, and the same in everything else. -/
def relimit (m : Machine) (limit : Word) : Machine :=
  { m with
    heap := m.heap.relimit limit
    config := { m.config with maxBlockWords := limit } }

section Instructions

theorem report_relimit (m : Machine) (limit : Word) (e : Event) :
    (m.relimit limit).report e = (m.report e).relimit limit := by
  have hlog : (m.relimit limit).config.log = m.config.log := rfl
  rw [report, report, hlog]
  split
  · rfl
  · rfl

/-- An instruction does the same under a larger limit unless it allocates beyond the smaller. -/
theorem execute_relimit (origin : Word) (hle : m.heap.limit ≤ limit)
    (hfits : ∀ b c, i = .allocation b c → m.reg c ≤ m.heap.limit) :
    execute i origin (m.relimit limit) =
      ((execute i origin m).1.relimit limit, (execute i origin m).2) := by
  have hreg (r : Register) : (m.relimit limit).reg r = m.reg r := rfl
  have hheap : (m.relimit limit).heap = m.heap.relimit limit := rfl
  have hconsole : (m.relimit limit).console = m.console := rfl
  cases i with
  | addition a b c | multiplication a b c | notAnd a b c | halt | orthography a value => rfl
  | conditionalMove a b c | division a b c =>
    simp only [execute, hreg]
    split
    · rfl
    · rfl
  | arrayIndex a b c =>
    have hread : (m.relimit limit).heap.read (m.reg b) (m.reg c) =
        m.heap.read (m.reg b) (m.reg c) := rfl
    simp only [execute, hreg, hread]
    cases m.heap.read (m.reg b) (m.reg c) with
    | error e => rfl
    | ok value => rfl
  | arrayAmendment a b c =>
    simp only [execute, hreg, hheap, Heap.write_relimit]
    rcases m.heap.write (m.reg a) (m.reg b) (m.reg c) with ⟨e | done, heap⟩
    · rfl
    · rfl
  | allocation b c =>
    simp only [execute, hreg, hheap, Heap.allocate_relimit (hfits b c rfl) hle]
    rcases m.heap.allocate (m.reg c) with ⟨e | index, heap⟩
    · rfl
    · have hreport := report_relimit { m with heap := heap } limit (.allocated index (m.reg c))
      exact congrArg (fun after : Machine => (after.setReg b index, none)) hreport
  | abandonment c =>
    simp only [execute, hreg, hheap, Heap.reclaim_relimit]
    rcases m.heap.reclaim (m.reg c) with ⟨e | done, heap⟩
    · rfl
    · have hreport := report_relimit { m with heap := heap } limit (.reclaimed (m.reg c))
      exact congrArg (fun after : Machine => (after, none)) hreport
  | output c =>
    simp only [execute, hreg, hconsole]
    split
    · rfl
    · rcases m.console.write (m.reg c).toUInt8 with ⟨result, console⟩
      cases result with
      | error failure => rfl
      | ok u => rfl
  | input c =>
    simp only [execute, hconsole]
    rcases m.console.read with ⟨result, console⟩
    cases result with
    | error failure => rfl
    | ok value => rfl
  | loadProgram b c =>
    simp only [execute, hreg, hheap, Heap.loadProgram_relimit]
    split
    · rfl
    · rcases m.heap.loadProgram (m.reg b) with ⟨e | done, heap⟩
      · rfl
      · have hreport := report_relimit { m with heap := heap, pc := m.reg c } limit
          (.loaded (m.reg b) heap.program.size)
        exact congrArg (fun after : Machine => (after, none)) hreport

end Instructions

section Requests

/-- The size of the block that the next step asks for, if it asks for one. -/
def requested? (m : Machine) : Option Word :=
  match m.decoded? with
  | some (_, .allocation _ c) => some (m.reg c)
  | _ => none

/-- None of the first `k` steps asks for a block of more than `limit` words. -/
def AsksWithin (limit : Word) (k : Nat) (m : Machine) : Prop :=
  ∀ j < k, ∀ size ∈ (steps j m).requested?, size ≤ limit

theorem requested?_eq_some_iff {size : Word} :
    m.requested? = some size ↔
      ∃ w b c, m.decoded? = some (w, .allocation b c) ∧ m.reg c = size := by
  rw [requested?]
  split
  · rename_i w b c hd
    constructor
    · intro h
      exact ⟨w, b, c, hd, Option.some.inj h⟩
    · rintro ⟨w', b', c', hd', hsize⟩
      cases hd.symm.trans hd'
      exact congrArg some hsize
  · rename_i hother
    constructor
    · intro h
      cases h
    · rintro ⟨w, b, c, hd, -⟩
      exact absurd hd (hother w b c)

theorem execute_too_large {b c : Register} (origin : Word) (hlarge : m.heap.limit < m.reg c) :
    (execute (.allocation b c) origin m).2 =
      some (.heap origin (.allocationTooLarge (m.reg c) m.heap.limit)) := by
  have hrefused : m.heap.allocate (m.reg c) =
      (.error (.allocationTooLarge (m.reg c) m.heap.limit), m.heap) := if_pos hlarge
  rw [execute, hrefused]

/-- A block above the limit is refused. -/
theorem stepFault?_of_requested {size : Word} (h : m.requested? = some size)
    (hlarge : m.heap.limit < size) :
    m.stepFault? = some (.heap m.pc (.allocationTooLarge size m.heap.limit)) := by
  obtain ⟨w, b, c, hd, rfl⟩ := requested?_eq_some_iff.mp h
  obtain ⟨hrun, hlimit, hf⟩ := decoded?_eq_some_iff.mp hd
  have hheap := enter_heap m w (.allocation b c)
  have hreg := enter_reg m w (.allocation b c)
  rw [← hheap, ← hreg] at hlarge
  have hfault := execute_too_large (b := b) m.pc hlarge
  rw [hheap, hreg] at hfault
  rw [stepFault?_eq hrun hlimit, hf]
  exact hfault

end Requests

section Steps

theorem observe_relimit (m : Machine) (limit w : Word) (i : Instruction) :
    (m.relimit limit).observe w i = (m.observe w i).relimit limit := by
  have hlogged :
      (if (m.relimit limit).config.logInstructions then
        (m.relimit limit).report (.executing (m.relimit limit).cycles (m.relimit limit).pc i)
      else m.relimit limit) =
        (if m.config.logInstructions then m.report (.executing m.cycles m.pc i) else m).relimit
          limit := by
    by_cases h : m.config.logInstructions = true
    · rw [if_pos h]
      exact (if_pos h).trans (report_relimit m limit _)
    · rw [if_neg h]
      exact if_neg h
  rw [observe, observe, hlogged]
  generalize (if m.config.logInstructions then m.report (.executing m.cycles m.pc i) else m) = n
  by_cases h : n.config.recordRows = true
  · rw [if_pos h]
    exact if_pos h
  · rw [if_neg h]
    exact if_neg h

theorem enter_relimit (m : Machine) (limit w : Word) (i : Instruction) :
    (m.relimit limit).enter w i = (m.enter w i).relimit limit := by
  rw [enter, enter, observe_relimit]
  rfl

theorem close_relimit (r : Machine × Option Fault) :
    close (r.1.relimit limit, r.2) = ((close r).1.relimit limit, (close r).2) := by
  obtain ⟨after, _ | fault⟩ := r
  · rfl
  · rfl

theorem advance_relimit (hle : m.heap.limit ≤ limit)
    (hfits : ∀ w b c, m.fetch = .ok (w, .allocation b c) → m.reg c ≤ m.heap.limit) :
    (m.relimit limit).advance = (m.advance.1.relimit limit, m.advance.2) := by
  have hfetch : (m.relimit limit).fetch = m.fetch := rfl
  rcases hf : m.fetch with fault | ⟨w, i⟩
  · rw [advance_of_fetch_error hf, advance_of_fetch_error (hfetch.trans hf)]
    rfl
  · have hheap := enter_heap m w i
    have hpc : (m.relimit limit).pc = m.pc := rfl
    rw [advance_eq_close hf, advance_eq_close (hfetch.trans hf), enter_relimit, hpc,
      execute_relimit m.pc (hheap ▸ hle), close_relimit]
    rintro b c rfl
    rw [hheap, enter_reg]
    exact hfits w b c hf

theorem tick_relimit (hle : m.heap.limit ≤ limit)
    (hfits : ∀ size, m.requested? = some size → size ≤ m.heap.limit) :
    (m.relimit limit).tick = (m.step.relimit limit, m.stepFault?) := by
  rw [step, stepFault?]
  have hstatus : (m.relimit limit).status = m.status := rfl
  have hexhausted : (m.relimit limit).exhausted = m.exhausted := rfl
  by_cases hs : m.status.isStopped = true
  · rw [tick_of_stopped hs, tick_of_stopped (hstatus ▸ hs)]
  · have hrun := Status.eq_running hs
    cases hspent : m.exhausted with
    | true =>
      rw [tick_of_exhausted hrun hspent,
        tick_of_exhausted (hstatus.trans hrun) (hexhausted.trans hspent)]
      rfl
    | false =>
      rw [tick_of_running hrun hspent,
        tick_of_running (hstatus.trans hrun) (hexhausted.trans hspent)]
      apply advance_relimit hle
      intro w b c hf
      apply hfits
      exact requested?_eq_some_iff.mpr
        ⟨w, b, c, decoded?_eq_some_iff.mpr ⟨hrun, hspent, hf⟩, rfl⟩

theorem AsksWithin.mono {j : Nat} (h : AsksWithin limit k m) (hle : j ≤ k) :
    AsksWithin limit j m :=
  fun i hi => h i (Nat.lt_of_lt_of_le hi hle)

theorem AsksWithin.tick_relimit {j : Nat} (hasks : AsksWithin m.heap.limit k m)
    (hle : m.heap.limit ≤ limit) (hj : j < k) :
    ((steps j m).relimit limit).tick =
      ((steps j m).step.relimit limit, (steps j m).stepFault?) := by
  have hlimit : (steps j m).heap.limit = m.heap.limit := (steps_settings j m).2
  apply Machine.tick_relimit (hlimit ▸ hle)
  intro size hsize
  rw [hlimit]
  exact hasks j hj size hsize

theorem steps_relimit (hle : m.heap.limit ≤ limit) (hasks : AsksWithin m.heap.limit k m) :
    steps k (m.relimit limit) = (steps k m).relimit limit := by
  induction k with
  | zero => rfl
  | succ k ih =>
    rw [steps_succ, steps_succ, ih (hasks.mono (Nat.le_succ k)), step,
      hasks.tick_relimit hle (Nat.lt_succ_self k)]

theorem stepFault?_relimit {j : Nat} (hle : m.heap.limit ≤ limit)
    (hasks : AsksWithin m.heap.limit k m) (hj : j < k) :
    (steps j (m.relimit limit)).stepFault? = (steps j m).stepFault? := by
  rw [steps_relimit hle (hasks.mono (Nat.le_of_lt hj)), stepFault?, hasks.tick_relimit hle hj]

/-- Steps that do ask for too much include one that faults for it. -/
theorem exists_too_large (h : ¬ AsksWithin m.heap.limit k m) :
    ∃ j < k, ∃ pc requested, m.heap.limit < requested ∧
      (steps j m).stepFault? = some (.heap pc (.allocationTooLarge requested m.heap.limit)) := by
  simp only [AsksWithin, not_forall] at h
  obtain ⟨j, hj, size, hsize, hlarge⟩ := h
  have hlimit : (steps j m).heap.limit = m.heap.limit := (steps_settings j m).2
  rw [← hlimit, UInt32.not_le] at hlarge
  refine ⟨j, hj, (steps j m).pc, size, hlimit ▸ hlarge, ?_⟩
  rw [stepFault?_of_requested hsize hlarge, hlimit]

end Steps

section Runs

theorem announce_relimit (m : Machine) (limit : Word) :
    (m.relimit limit).announce = m.announce.relimit limit :=
  report_relimit m limit (.started m.heap.program.size m.config.maxCycles)

theorem conclude_relimit (m : Machine) (limit : Word) :
    (m.relimit limit).conclude = (m.conclude.1, m.conclude.2.relimit limit) := by
  have hreport := report_relimit m limit (.stopped m.cycles (m.reason.getD .halt))
  exact congrArg (fun after : Machine => (Outcome.mk m.cycles (m.reason.getD .halt)
    m.heap.stats after.takeRows.1, after.takeRows.2)) hreport

theorem finish_relimit (m : Machine) (fault? : Option Fault) (limit : Word) :
    finish (m.relimit limit, fault?) =
      (finish (m, fault?)).map fun done => (done.1, done.2.relimit limit) := by
  cases fault? with
  | some fault =>
    have hreport := report_relimit m limit (.failed m.cycles fault)
    exact congrArg (fun after => some (Except.error fault, after)) hreport
  | none =>
    have hhalted : (m.relimit limit).halted = m.halted := rfl
    rw [finish, finish, hhalted, conclude_relimit]
    by_cases hs : m.halted = true
    · rw [if_pos hs, if_pos hs]
      rfl
    · rw [if_neg hs, if_neg hs]
      rfl

/-- What a step asks for depends on the core of the machine, its status and its budget. -/
theorem requested?_eq_of_core {n : Machine} (hcore : m.core = n.core)
    (hstatus : m.status = n.status) (hmax : m.config.maxCycles = n.config.maxCycles) :
    m.requested? = n.requested? := by
  have hhalted : m.halted = n.halted := by
    rw [← isStopped_status, hstatus, isStopped_status]
  rw [requested?, requested?, decoded?, decoded?, hhalted, exhausted_eq_of_core hcore hmax,
    fetch_eq_of_core hcore, reg_eq_of_core hcore]

theorem AsksWithin.announce (h : AsksWithin limit k m) : AsksWithin limit k m.announce := by
  obtain ⟨log, hlog⟩ := announce_eq m
  have hstart : Lockstep Eq m.announce m := by
    rw [hlog]
    exact ⟨rfl, rfl, rfl, fun _ => rfl⟩
  have hmax : m.announce.config.maxCycles = m.config.maxCycles := by
    rw [hlog]
  intro j hj size hsize
  obtain ⟨hlock, -⟩ := hstart.steps Console.simulation_eq hmax (k := j) trivial
  have hmax' : (steps j m.announce).config.maxCycles = (steps j m).config.maxCycles := by
    rw [(steps_settings j _).1, (steps_settings j _).1, hmax]
  rw [requested?_eq_of_core hlock.core hlock.status hmax'] at hsize
  exact h j hj size hsize

theorem run_relimit (hle : m.heap.limit ≤ limit) (hasks : AsksWithin m.heap.limit k m) :
    (m.relimit limit).run k = (m.run k).map fun done => (done.1, done.2.relimit limit) := by
  obtain ⟨log, hlog⟩ := announce_eq m
  have hlimit : m.announce.heap.limit = m.heap.limit := by
    rw [hlog]
  have hle' : m.announce.heap.limit ≤ limit := hlimit ▸ hle
  have hasks' : AsksWithin m.announce.heap.limit k m.announce := hlimit ▸ hasks.announce
  rw [run, run, announce_relimit, settle_eq_steps, settle_eq_steps, steps_relimit hle' hasks',
    faultWithin_congr fun j hj => stepFault?_relimit hle' hasks' hj, finish_relimit]

end Runs

/-- A limit on blocks only cuts a run short. Under a larger one, the machine is after every number
of steps what it is under the smaller one and has given the same results, unless under the smaller
one it has stopped at a block above that limit. In particular a run that never asks for such a block
is the same. -/
theorem steps_larger_limit (p : Program) (c : Console) (config : Config) (larger : Word)
    (hle : config.maxBlockWords ≤ larger) (k : Nat) :
    let m := boot p c config
    let n := boot p c { config with maxBlockWords := larger }
    ((steps k n = (steps k m).relimit larger ∧
        ∀ j < k, (steps j n).stepFault? = (steps j m).stepFault?) ∨
      ∃ j < k, ∃ pc requested, config.maxBlockWords < requested ∧
        (steps j m).stepFault? =
          some (.heap pc (.allocationTooLarge requested config.maxBlockWords))) ∧
    (AsksWithin config.maxBlockWords k m →
      steps k n = (steps k m).relimit larger ∧
      (∀ j < k, (steps j n).stepFault? = (steps j m).stepFault?) ∧
      n.run k = (m.run k).map fun done => (done.1, done.2.relimit larger)) := by
  intro m n
  have hfits (hasks : AsksWithin config.maxBlockWords k m) :
      steps k n = (steps k m).relimit larger ∧
        ∀ j < k, (steps j n).stepFault? = (steps j m).stepFault? :=
    ⟨steps_relimit hle hasks, fun j hj => stepFault?_relimit hle hasks hj⟩
  constructor
  · by_cases hasks : AsksWithin config.maxBlockWords k m
    · exact .inl (hfits hasks)
    · exact .inr (exists_too_large hasks)
  · intro hasks
    obtain ⟨hsame, hresults⟩ := hfits hasks
    exact ⟨hsame, hresults, run_relimit hle hasks⟩

/-- A program that asks for three words, under limits of three and more and under a limit of
two. -/
theorem steps_larger_limit_three :
    let start (limit : Word) : Machine :=
      boot [0xD4000003, 0x8000000A, 0x70000000] (.ofBytes []) { maxBlockWords := limit }
    (AsksWithin 3 3 (start 3) ∧ steps 3 (start 9) = (steps 3 (start 3)).relimit 9 ∧
      (start 9).run 3 = ((start 3).run 3).map fun done => (done.1, done.2.relimit 9)) ∧
    steps 3 (start 3) ≠ (steps 3 (start 2)).relimit 3 ∧
      ∃ j < 3, ∃ pc requested, 2 < requested ∧
        (steps j (start 2)).stepFault? = some (.heap pc (.allocationTooLarge requested 2)) := by
  intro start
  have hrequests : ∀ j < 3, (steps j (start 3)).requested? = none ∨
      (steps j (start 3)).requested? = some 3 := by decide
  have hasks : AsksWithin 3 3 (start 3) := by
    intro j hj size hsize
    rcases hrequests j hj with hnone | hthree
    · cases hnone.symm.trans hsize
    · cases hthree.symm.trans hsize
      exact UInt32.le_refl 3
  obtain ⟨-, hsame⟩ := steps_larger_limit [0xD4000003, 0x8000000A, 0x70000000] (.ofBytes [])
    { maxBlockWords := 3 } 9 (by decide) 3
  obtain ⟨hends, -⟩ := steps_larger_limit [0xD4000003, 0x8000000A, 0x70000000] (.ofBytes [])
    { maxBlockWords := 2 } 3 (by decide) 3
  obtain ⟨hsteps, -, hrun⟩ := hsame hasks
  have hdiffer : steps 3 (start 3) ≠ (steps 3 (start 2)).relimit 3 := by
    intro heq
    exact absurd (congrArg Machine.status heq) (by decide)
  exact ⟨⟨hasks, hsteps, hrun⟩, hdiffer, hends.resolve_left fun hend => hdiffer hend.1⟩

end Machine

end UniversalMachine
