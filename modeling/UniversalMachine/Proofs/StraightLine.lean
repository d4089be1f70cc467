import UniversalMachine.Proofs.CycleBudget
import UniversalMachine.Proofs.Refinement

/-! Straight-line programs.
Instructions that work on registers alone cannot fault and go on to the next word. A line of them,
wherever it stands in a program, is executed from end to end and computes the fold of its
instructions; with a halt behind it the whole run is known. -/

namespace UniversalMachine

namespace Instruction

/-- The instructions on registers that never fault, division apart. -/
def isPlain : Instruction → Bool
  | conditionalMove .. | addition .. | multiplication .. | notAnd .. => true
  | orthography _ value => value ≤ Word.maxImmediate
  | _ => false

/-- What a plain instruction makes of the registers. -/
def apply (file : Registers) : Instruction → Registers
  | conditionalMove a b c => if file.read c = 0 then file else file.write a (file.read b)
  | addition a b c =>
    file.write a (.ofNat (((file.read b).toNat + (file.read c).toNat) % UInt32.size))
  | multiplication a b c =>
    file.write a (.ofNat ((file.read b).toNat * (file.read c).toNat % UInt32.size))
  | notAnd a b c =>
    file.write a (.ofNat (UInt32.size - 1 - ((file.read b).toNat &&& (file.read c).toNat)))
  | orthography a value => file.write a value
  | _ => file

theorem fits_of_isPlain {i : Instruction} (h : i.isPlain = true) : i.Fits := by
  cases i with
  | orthography a value => simpa [isPlain, Fits] using h
  | _ => trivial

end Instruction

section Arithmetic

variable (x y : Word)

theorem Word.add_eq_mod : x + y = UInt32.ofNat ((x.toNat + y.toNat) % UInt32.size) :=
  (add_eq_ofNat x y).trans UInt32.ofNat_mod_size.symm

theorem Word.mul_eq_mod : x * y = UInt32.ofNat (x.toNat * y.toNat % UInt32.size) :=
  (mul_eq_ofNat x y).trans UInt32.ofNat_mod_size.symm

theorem Word.not_and_eq_ofNat :
    ~~~(x &&& y) = UInt32.ofNat (UInt32.size - 1 - (x.toNat &&& y.toNat)) := by
  rw [← UInt32.toNat_and, ← UInt32.toNat_not, UInt32.ofNat_toNat]

end Arithmetic

namespace Machine

variable {m : Machine} {i : Instruction} {w origin : Word}

theorem execute_plain (h : i.isPlain = true) :
    execute i origin m = ({ m with registers := i.apply m.registers }, none) := by
  cases i with
  | conditionalMove a b c =>
    by_cases hc : m.registers.read c = 0
    · simp [execute, Instruction.apply, reg, hc]
    · simp [execute, Instruction.apply, reg, setReg, hc]
  | addition a b c => rw [execute, Instruction.apply, Word.add_eq_mod]; rfl
  | multiplication a b c => rw [execute, Instruction.apply, Word.mul_eq_mod]; rfl
  | notAnd a b c => rw [execute, Instruction.apply, Word.not_and_eq_ofNat]; rfl
  | orthography a value => rfl
  | _ => cases h

/-- The machine behind a line of plain instructions. -/
def along (m : Machine) (line : List Instruction) : Machine :=
  { m with
    registers := line.foldl Instruction.apply m.registers
    pc := m.pc + .ofNat line.length
    cycles := m.cycles + line.length }

theorem along_nil (m : Machine) : m.along [] = m := by
  simp [along]

theorem along_cons (m : Machine) (i : Instruction) (line : List Instruction) :
    m.along (i :: line) = (m.along [i]).along line := by
  have hcount : m.cycles + (line.length + 1) = m.cycles + 1 + line.length := by omega
  simp [along, UInt32.add_assoc, UInt32.add_comm, hcount]

theorem enter_of_default (hconfig : m.config = {}) (w : Word) (i : Instruction) :
    m.enter w i = { m with pc := m.pc + 1 } := by
  simp [enter, observe, hconfig]

theorem fetch_of_code {code : List Word} (hfits : i.Fits)
    (hcode : m.heap.program.toList.drop m.pc.toNat = i.encode :: code) :
    m.fetch = .ok (i.encode, i) := by
  apply fetch_eq_ok_iff.mpr
  refine ⟨?_, Instruction.decode_encode hfits⟩
  have hhead := congrArg List.head? hcode
  simpa [List.head?_drop] using hhead

theorem tick_of_default (hrun : m.status = .running) (hconfig : m.config = {})
    (hf : m.fetch = .ok (w, i)) :
    m.tick = close (execute i m.pc { m with pc := m.pc + 1 }) := by
  have hmax : m.config.maxCycles = none := congrArg Config.maxCycles hconfig
  rw [tick_of_running hrun (not_exhausted_of_unlimited hmax), advance_eq_close hf,
    enter_of_default hconfig]

theorem tick_along {code : List Word} (hrun : m.status = .running) (hconfig : m.config = {})
    (hplain : i.isPlain = true)
    (hcode : m.heap.program.toList.drop m.pc.toNat = i.encode :: code) :
    m.tick = (m.along [i], none) := by
  have hf := fetch_of_code (Instruction.fits_of_isPlain hplain) hcode
  rw [tick_of_default hrun hconfig hf, execute_plain hplain]
  rfl

/-- A line of plain instructions is executed from end to end, wherever it stands. -/
theorem steps_line {line : List Instruction} {code : List Word} (hrun : m.status = .running)
    (hconfig : m.config = {}) (hplain : ∀ i ∈ line, i.isPlain = true)
    (hcode : m.heap.program.toList.drop m.pc.toNat = line.map Instruction.encode ++ code)
    (hfit : m.pc.toNat + line.length < UInt32.size) :
    steps line.length m = m.along line := by
  induction line generalizing m with
  | nil => exact (along_nil m).symm
  | cons i line ih =>
    rw [List.forall_mem_cons] at hplain
    have hstep : m.step = m.along [i] :=
      congrArg Prod.fst (tick_along hrun hconfig hplain.1 hcode)
    rw [List.length_cons] at hfit
    have hpc : (m.along [i]).pc.toNat = m.pc.toNat + 1 := by
      have hlt : m.pc.toNat + 1 < UInt32.size := by omega
      exact (UInt32.toNat_add m.pc 1).trans (Nat.mod_eq_of_lt hlt)
    have hrest : (m.along [i]).heap.program.toList.drop (m.along [i]).pc.toNat =
        line.map Instruction.encode ++ code := by
      have htail := congrArg List.tail hcode
      rwa [List.tail_drop, ← hpc] at htail
    rw [List.length_cons, steps, hstep, along_cons m i line]
    exact ih (m := m.along [i]) hrun hconfig hplain.2 hrest (by omega)

theorem step_halt {code : List Word} (hrun : m.status = .running) (hconfig : m.config = {})
    (hcode : m.heap.program.toList.drop m.pc.toNat = Instruction.halt.encode :: code) :
    m.step = halt { m with pc := m.pc + 1, cycles := m.cycles + 1 } .halt := by
  have hf := fetch_of_code (i := .halt) trivial hcode
  exact congrArg Prod.fst (tick_of_default hrun hconfig hf)

theorem report_of_default (hconfig : m.config = {}) (e : Event) : m.report e = m := by
  simp [report, hconfig, LogFilter.admits]

theorem finish_of_halted (hs : m.status = .halted) (hconfig : m.config = {})
    (hrows : m.rows = #[]) :
    finish (m, none) = some (.ok ⟨m.cycles, .halt, m.heap.stats, []⟩, m) := by
  have hreason : m.reason = some .halt := (status_eq_iff.mp hs).2
  have hafter : { m with rows := #[] } = m := by rw [← hrows]
  have hstopped : m.status.isStopped = true := congrArg Status.isStopped hs
  simp only [finish_of_stopped hstopped, conclude, takeRows, report_of_default hconfig, hafter,
    hrows]
  rw [hreason]
  rfl

/-- A program of plain instructions with a halt behind them halts on every input. It has then
executed each word once; its registers are the fold of its instructions from all zeros, and all else
is as it was at the start. -/
theorem run_straight_line (body : List Instruction) (hplain : ∀ i ∈ body, i.isPlain = true)
    (hfit : body.length + 1 < UInt32.size) (input : Bytes) (fuel : Nat)
    (hfuel : body.length + 1 ≤ fuel) :
    let fresh := boot (.ofInstructions (body ++ [.halt])) (.ofBytes input) {}
    fresh.run fuel = some (.ok ⟨body.length + 1, .halt, fresh.heap.stats, []⟩,
      halt { fresh with
        registers := body.foldl Instruction.apply .zero
        pc := .ofNat (body.length + 1)
        cycles := body.length + 1 } .halt) := by
  intro fresh
  have hcode : fresh.heap.program.toList =
      body.map Instruction.encode ++ [Instruction.halt.encode] := List.map_append
  have hline : steps body.length fresh = fresh.along body :=
    steps_line rfl rfl hplain hcode (by change 0 + body.length < UInt32.size; omega)
  have hpc : (fresh.along body).pc.toNat = body.length := by
    have hplace : (fresh.along body).pc = .ofNat body.length := UInt32.zero_add _
    rw [hplace]
    exact UInt32.toNat_ofNat_of_lt' (by omega)
  have hend : (fresh.along body).heap.program.toList.drop (fresh.along body).pc.toNat =
      [Instruction.halt.encode] := by
    rw [hpc]
    exact hcode ▸ List.drop_left' (List.length_map _)
  have hlast : steps (body.length + 1) fresh = halt { fresh with
      registers := body.foldl Instruction.apply .zero
      pc := .ofNat (body.length + 1)
      cycles := body.length + 1 } .halt := by
    rw [steps_succ, hline, step_halt rfl rfl hend]
    simp [along, fresh, boot]
  have hannounce : fresh.announce = fresh := report_of_default rfl _
  have hstopped : (steps (body.length + 1) fresh).status = .halted := by
    rw [hlast]
    rfl
  have hfault : faultWithin (body.length + 1) fresh = none := by
    apply faultWithin_eq_none Status.noConfusion
    rw [hstopped]
    exact Status.noConfusion
  rw [run, hannounce, settle_eq_of_stopped (congrArg Status.isStopped hstopped) hfuel,
    settle_eq_steps, hfault, hlast]
  exact finish_of_halted rfl rfl rfl

/-- All ones, squared, wrap to one; the second condition holds and moves a register. -/
theorem run_straight_line_wraps :
    let body : List Instruction :=
      [.orthography 1 7, .addition 2 1 1, .notAnd 3 0 0, .multiplication 3 3 3,
        .conditionalMove 4 2 0, .conditionalMove 5 2 3]
    let fresh := boot (.ofInstructions (body ++ [.halt])) (.ofBytes [65]) {}
    (∀ i ∈ body, i.isPlain = true) ∧
      ∃ after, fresh.run 9 = some (.ok ⟨7, .halt, fresh.heap.stats, []⟩, after) ∧
        after.registers = #v[0, 7, 14, 1, 0, 14, 0, 0] ∧ after.pc = 7 ∧ after.heap = fresh.heap ∧
        after.console = fresh.console := by
  intro body fresh
  have hplain : ∀ i ∈ body, i.isPlain = true := List.all_eq_true.mp (by decide)
  have hrun := run_straight_line body hplain (by decide) [65] 9 (by decide)
  have hregisters : body.foldl Instruction.apply .zero = #v[0, 7, 14, 1, 0, 14, 0, 0] := by decide
  exact ⟨hplain, _, hrun, hregisters, rfl, rfl, rfl⟩

end Machine

end UniversalMachine
