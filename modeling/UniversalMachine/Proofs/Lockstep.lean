import UniversalMachine.Proofs.Stepping

/-! Two machines side by side.
What a step does depends on the registers, the place in the program, the heap and the console's
answer. Two machines that agree on these, and whose consoles go on answering alike, therefore pass
through the same states, whatever they keep in traces and logs. -/

namespace UniversalMachine

namespace Console

theorem write_fst_eq_of_serve {c d : Console} {b : UInt8}
    (h : (c.serve (.write b)).1 = (d.serve (.write b)).1) : (c.write b).1 = (d.write b).1 := by
  change (c.write b).1.map _ = (d.write b).1.map _ at h
  generalize (c.write b).1 = x at h ⊢
  generalize (d.write b).1 = y at h ⊢
  cases x with
  | ok u =>
    cases y with
    | ok v => rfl
    | error g => cases h
  | error f =>
    cases y with
    | ok v => cases h
    | error g =>
      cases h
      rfl

/-- Related consoles answer a request alike and stay related, as long as the first of them stays
`valid`. -/
structure Simulation (valid : Console → Prop) (R : Console → Console → Prop) : Prop where
  valid_before : ∀ {c : Console} {q : Request}, valid (c.serve q).2 → valid c
  answer : ∀ {c d : Console} {q : Request},
    R c d → valid (c.serve q).2 → (c.serve q).1 = (d.serve q).1
  after : ∀ {c d : Console} {q : Request},
    R c d → valid (c.serve q).2 → R (c.serve q).2 (d.serve q).2

end Console

namespace Machine

variable {m n : Machine} {i : Instruction} {origin : Word}

/-- What instructions work on, the console apart. -/
structure Core where
  registers : Registers
  pc : Word
  cycles : Nat
  heap : Heap
  deriving DecidableEq, Repr

def core (m : Machine) : Core := ⟨m.registers, m.pc, m.cycles, m.heap⟩

theorem core_setReg (m : Machine) (r : Register) (value : Word) :
    (m.setReg r value).core = { m.core with registers := m.core.registers.write r value } := rfl

theorem core_report (m : Machine) (e : Event) : (m.report e).core = m.core := by
  obtain ⟨log, hlog⟩ := report_eq m e
  rw [hlog]
  rfl

theorem reg_eq_of_core (hcore : m.core = n.core) : m.reg = n.reg := by
  funext r
  exact congrArg (fun s : Core => s.registers.read r) hcore

theorem fetch_eq_of_core (hcore : m.core = n.core) : m.fetch = n.fetch := by
  have hpc : m.pc = n.pc := congrArg Core.pc hcore
  have hheap : m.heap = n.heap := congrArg Core.heap hcore
  rw [fetch, fetch, hpc, hheap]

theorem exhausted_eq_of_core (hcore : m.core = n.core)
    (hmax : m.config.maxCycles = n.config.maxCycles) : m.exhausted = n.exhausted := by
  have hcycles : m.cycles = n.cycles := congrArg Core.cycles hcore
  rw [exhausted, exhausted, hmax, hcycles]

section Instructions

theorem request_eq_of_core (i : Instruction) (hcore : m.core = n.core) :
    request i m = request i n := by
  cases i with
  | output c => rw [request, request, reg_eq_of_core hcore]
  | _ => rfl

/-- What an instruction does to the core, and whether it faults, depends on the core and on the
answer of the console. -/
theorem execute_agree (hcore : m.core = n.core)
    (hanswer : (m.console.serve (request i m)).1 = (n.console.serve (request i m)).1) :
    (execute i origin m).1.core = (execute i origin n).1.core ∧
      (execute i origin m).2 = (execute i origin n).2 := by
  have hreg := reg_eq_of_core hcore
  have hheap : m.heap = n.heap := congrArg Core.heap hcore
  have hset (r : Register) (value : Word) : (m.setReg r value).core = (n.setReg r value).core := by
    rw [core_setReg, core_setReg, hcore]
  have hput (h : Heap) : core { m with heap := h } = core { n with heap := h } :=
    congrArg (fun s : Core => { s with heap := h }) hcore
  cases i with
  | conditionalMove a b c =>
    rw [execute, execute, hreg]
    split
    · exact ⟨hcore, rfl⟩
    · exact ⟨hset _ _, rfl⟩
  | arrayIndex a b c =>
    rw [execute, execute, hreg, hheap]
    split
    · exact ⟨hset _ _, rfl⟩
    · exact ⟨hcore, rfl⟩
  | arrayAmendment a b c =>
    rw [execute, execute, hreg, hheap]
    split
    · exact ⟨hput _, rfl⟩
    · exact ⟨hput _, rfl⟩
  | addition a b c | multiplication a b c | notAnd a b c =>
    rw [execute, execute, hreg]
    exact ⟨hset _ _, rfl⟩
  | division a b c =>
    rw [execute, execute, hreg]
    split
    · exact ⟨hcore, rfl⟩
    · exact ⟨hset _ _, rfl⟩
  | halt => exact ⟨hcore, rfl⟩
  | allocation b c =>
    rw [execute, execute, hreg, hheap]
    split
    · refine ⟨?_, rfl⟩
      rw [core_setReg, core_setReg, core_report, core_report, hput]
    · exact ⟨hput _, rfl⟩
  | abandonment c =>
    rw [execute, execute, hreg, hheap]
    split
    · refine ⟨?_, rfl⟩
      rw [core_report, core_report, hput]
    · exact ⟨hput _, rfl⟩
  | output c =>
    rw [request, hreg] at hanswer
    rw [execute, execute, hreg]
    split
    · exact ⟨hcore, rfl⟩
    · rename_i hrange
      rw [if_neg hrange] at hanswer
      have hwrite := Console.write_fst_eq_of_serve hanswer
      rcases hm : m.console.write (n.reg c).toUInt8 with ⟨x, console⟩
      rcases hn : n.console.write (n.reg c).toUInt8 with ⟨y, console'⟩
      rw [hm, hn] at hwrite
      obtain rfl : x = y := hwrite
      cases x with
      | ok u => exact ⟨hcore, rfl⟩
      | error failure => exact ⟨hcore, rfl⟩
  | input c =>
    change m.console.read.1 = n.console.read.1 at hanswer
    rcases hm : m.console.read with ⟨x, console⟩
    rcases hn : n.console.read with ⟨y, console'⟩
    rw [hm, hn] at hanswer
    obtain rfl : x = y := hanswer
    rw [execute, execute, hm, hn]
    cases x with
    | ok value => exact ⟨hset _ _, rfl⟩
    | error failure => exact ⟨hcore, rfl⟩
  | loadProgram b c =>
    rw [execute, execute, hreg]
    split
    · exact ⟨congrArg (fun s : Core => { s with pc := n.reg c }) hcore, rfl⟩
    · rw [hheap]
      split
      · rename_i heap _
        refine ⟨?_, rfl⟩
        rw [core_report, core_report]
        exact congrArg (fun s : Core => { s with pc := n.reg c, heap := heap }) hcore
      · exact ⟨hput _, rfl⟩
  | orthography a value => exact ⟨hset _ _, rfl⟩

end Instructions

theorem status_stop_congr (h : m.status = n.status) : m.stop.status = n.stop.status := by
  have hreason : m.reason = n.reason := by
    rw [← reason?_status, ← reason?_status, h]
  exact status_congr rfl hreason

/-- Two machines that agree on all that a step depends on. -/
structure Lockstep (R : Console → Console → Prop) (m n : Machine) : Prop where
  core : m.core = n.core
  status : m.status = n.status
  console : R m.console n.console
  rows : m.config.recordRows = n.config.recordRows → m.rows = n.rows

theorem Lockstep.enter {R : Console → Console → Prop} (h : Lockstep R m n) (w : Word)
    (i : Instruction) : Lockstep R (m.enter w i) (n.enter w i) := by
  obtain ⟨log, hm⟩ := enter_eq m w i
  obtain ⟨log', hn⟩ := enter_eq n w i
  rw [hm, hn]
  refine ⟨congrArg (fun s : Core => { s with pc := s.pc + 1 }) h.core, h.status, h.console, ?_⟩
  intro hrecord
  change m.rowsWith w = n.rowsWith w
  rw [rowsWith, rowsWith, hrecord, h.rows hrecord]
  have hrow := congrArg (fun s : Core => TraceRow.mk (.ofNat s.cycles) s.pc w s.registers) h.core
  exact congrArg (fun row => if n.config.recordRows then n.rows.push row else n.rows) hrow

section Related

variable {valid : Console → Prop} {R : Console → Console → Prop}

theorem Lockstep.execute (hR : Console.Simulation valid R) (h : Lockstep R m n)
    (hvalid : valid (execute i origin m).1.console) :
    Lockstep R (Machine.execute i origin m).1 (Machine.execute i origin n).1 ∧
      (Machine.execute i origin m).2 = (Machine.execute i origin n).2 := by
  rw [execute_console] at hvalid
  obtain ⟨hcore, hfault⟩ := execute_agree h.core (hR.answer h.console hvalid)
  refine ⟨⟨hcore, ?_, ?_, ?_⟩, hfault⟩
  · rw [execute_status, execute_status, h.status]
  · rw [execute_console, execute_console, ← request_eq_of_core i h.core]
    exact hR.after h.console hvalid
  · have hm := execute_keeps i origin m
    have hn := execute_keeps i origin n
    rw [hm.config, hn.config, hm.rows, hn.rows]
    exact h.rows

theorem Lockstep.close {r s : Machine × Option Fault} (h : Lockstep R r.1 s.1)
    (hfault : r.2 = s.2) :
    Lockstep R (close r).1 (Machine.close s).1 ∧ (Machine.close r).2 = (Machine.close s).2 := by
  obtain ⟨a, f⟩ := r
  obtain ⟨b, g⟩ := s
  obtain rfl : f = g := hfault
  cases f with
  | none =>
    exact ⟨⟨congrArg (fun t : Core => { t with cycles := t.cycles + 1 }) h.core, h.status,
      h.console, h.rows⟩, rfl⟩
  | some fault => exact ⟨⟨h.core, status_stop_congr h.status, h.console, h.rows⟩, rfl⟩

theorem Lockstep.advance (hR : Console.Simulation valid R) (h : Lockstep R m n)
    (hvalid : valid m.advance.1.console) :
    Lockstep R m.advance.1 n.advance.1 ∧ m.advance.2 = n.advance.2 := by
  have hfetch := fetch_eq_of_core h.core
  rcases hf : m.fetch with fault | ⟨w, i⟩
  · rw [hf] at hfetch
    rw [advance_of_fetch_error hf, advance_of_fetch_error hfetch.symm]
    exact ⟨⟨h.core, status_stop_congr h.status, h.console, h.rows⟩, rfl⟩
  · rw [hf] at hfetch
    have hpc : m.pc = n.pc := congrArg Core.pc h.core
    rw [advance_eq_close hf, (close_keeps _).1] at hvalid
    rw [advance_eq_close hf, advance_eq_close hfetch.symm, ← hpc]
    obtain ⟨hafter, hfault⟩ := (h.enter w i).execute hR hvalid
    exact hafter.close hfault

theorem Lockstep.step (hR : Console.Simulation valid R) (h : Lockstep R m n)
    (hlimits : m.status = .running → m.exhausted = n.exhausted)
    (hvalid : valid m.step.console) :
    Lockstep R m.step n.step ∧ m.stepFault? = n.stepFault? := by
  rw [Machine.step] at hvalid
  rw [Machine.step, Machine.step, stepFault?, stepFault?]
  by_cases hs : m.status.isStopped = true
  · rw [tick_of_stopped hs, tick_of_stopped (h.status ▸ hs)]
    exact ⟨h, rfl⟩
  · have hrun := Status.eq_running hs
    have hrun' : n.status = .running := h.status ▸ hrun
    have hexhausted := hlimits hrun
    cases hlimit : m.exhausted with
    | true =>
      rw [tick_of_exhausted hrun hlimit, tick_of_exhausted hrun' (hexhausted ▸ hlimit)]
      exact ⟨⟨h.core, rfl, h.console, h.rows⟩, rfl⟩
    | false =>
      rw [tick_of_running hrun hlimit] at hvalid ⊢
      rw [tick_of_running hrun' (hexhausted ▸ hlimit)]
      exact h.advance hR hvalid

theorem Lockstep.steps (hR : Console.Simulation valid R) (h : Lockstep R m n)
    (hmax : m.config.maxCycles = n.config.maxCycles) {k : Nat}
    (hvalid : valid (steps k m).console) :
    Lockstep R (steps k m) (steps k n) ∧
      ∀ j < k, (Machine.steps j m).stepFault? = (Machine.steps j n).stepFault? := by
  induction k with
  | zero => exact ⟨h, fun j hj => absurd hj (Nat.not_lt_zero j)⟩
  | succ k ih =>
    rw [steps_succ] at hvalid
    obtain ⟨q, hq⟩ := step_console (Machine.steps k m)
    obtain ⟨hk, hfaults⟩ := ih (hR.valid_before (hq ▸ hvalid))
    have hmax' : (Machine.steps k m).config.maxCycles = (Machine.steps k n).config.maxCycles := by
      rw [(steps_settings k m).1, (steps_settings k n).1, hmax]
    obtain ⟨hnext, hfault⟩ := hk.step hR (fun _ => exhausted_eq_of_core hk.core hmax') hvalid
    rw [steps_succ, steps_succ]
    refine ⟨hnext, ?_⟩
    intro j hj
    rcases Nat.lt_succ_iff_lt_or_eq.mp hj with hlt | rfl
    · exact hfaults j hlt
    · exact hfault

end Related

end Machine

end UniversalMachine
