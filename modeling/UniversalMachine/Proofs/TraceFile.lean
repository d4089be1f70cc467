import UniversalMachine.Proofs.RunCommand
import UniversalMachine.Proofs.TraceCodec
import UniversalMachine.Proofs.TraceRows

/-! The trace that a run leaves in a file.
The rows come to the file in two ways, from the result of a run that stopped and from the machine
itself after a fault. Either way the file decodes to one row for each instruction that the machine
decoded. -/

namespace UniversalMachine

namespace Machine

variable {m n : Machine} {i : Nat} {row : TraceRow}

theorem Recorded.of_core (h : Recorded i m row) (hcore : m.core = n.core)
    (hstatus : m.status = n.status) (hmax : m.config.maxCycles = n.config.maxCycles) :
    Recorded i n row where
  cycle := h.cycle
  pc := h.pc.trans (congrArg Core.pc hcore)
  registers := h.registers.trans (congrArg Core.registers hcore)
  word := by
    have hpc : m.pc = n.pc := congrArg Core.pc hcore
    have hheap : m.heap = n.heap := congrArg Core.heap hcore
    rw [← hpc, ← hheap]
    exact h.word
  decodes := h.decodes
  running := hstatus ▸ h.running
  allowed := exhausted_eq_of_core hcore hmax ▸ h.allowed

/-- A machine that a fault has stopped was given it by one of its calls. -/
theorem exists_stepFault_of_faulted {p : Program} {c : Console} {config : Config} {k : Nat}
    (h : (steps k (boot p c config)).status = .faulted) :
    ∃ fault, faultWithin k (boot p c config) = some fault ∧
      ∃ j < k, (steps j (boot p c config)).stepFault? = some fault := by
  obtain ⟨fault, hfault⟩ := (steps_faulted_iff Status.noConfusion k).mp h
  exact ⟨fault, hfault, faultWithin_eq_some_iff.mp hfault⟩

end Machine

namespace CommandLine

open Machine (steps Recorded AtTraceStart)

namespace RunOptions

variable {o : RunOptions} {name : String} {policy : LogPolicy} {p : Program} {input : Bytes}
  {k : Nat}

theorem watched_atTraceStart (ho : o.traceOut = some name) (policy : LogPolicy) (p : Program)
    (input : Bytes) : AtTraceStart (o.watched policy p input) := by
  obtain ⟨hconfig, hcycles, hrows⟩ := watched_settings o policy p input
  refine ⟨?_, hcycles, hrows⟩
  rw [hconfig]
  simp [config, ho]

theorem maxCycles_steps (o : RunOptions) (policy : LogPolicy) (p : Program) (input : Bytes)
    (i : Nat) :
    (steps i (o.watched policy p input)).config.maxCycles =
      (steps i (o.machine p input)).config.maxCycles := by
  rw [(Machine.steps_settings i _).1, (Machine.steps_settings i _).1, (watched_settings ..).1]
  rfl

theorem recorded_watched_iff {i : Nat} {row : TraceRow} :
    Recorded i (steps i (o.watched policy p input)) row ↔
      Recorded i (steps i (o.machine p input)) row := by
  have hlock := (watched_lockstep o policy p input i).1
  have hmax := maxCycles_steps o policy p input i
  exact ⟨fun h => h.of_core hlock.core hlock.status hmax,
    fun h => h.of_core hlock.core.symm hlock.status.symm hmax.symm⟩

/-- The rows of a machine that has stopped are all that there will be. -/
theorem watched_rows_iff (ho : o.traceOut = some name)
    (hstop : (steps k (o.machine p input)).status.isStopped = true) {i : Nat} {row : TraceRow} :
    (steps k (o.watched policy p input)).rows.toList[i]? = some row ↔
      Recorded i (steps i (o.machine p input)) row := by
  have hstart := watched_atTraceStart ho policy p input
  rw [Array.getElem?_toList, Machine.steps_rows_getElem? hstart, ← recorded_watched_iff,
    Machine.recorded_steps_iff hstart]
  by_cases hi : i < k
  · rw [if_pos hi]
  · rw [if_neg hi, ← Machine.recorded_steps_iff hstart, recorded_watched_iff]
    refine ⟨nofun, fun hrow => ?_⟩
    -- a stopped machine decodes nothing more
    have hsame := Machine.steps_eq_of_stopped hstop (Nat.le_of_not_lt hi)
    rw [← hsame, hrow.running] at hstop
    cases hstop

theorem length_watched_of_reason (ho : o.traceOut = some name)
    (h : (steps k (o.machine p input)).status ≠ .faulted) :
    (steps k (o.watched policy p input)).rows.toList.length =
      (steps k (o.machine p input)).cycles := by
  obtain ⟨hlock, hfaults⟩ := watched_lockstep o policy p input k
  have hok : ∀ j < k, (steps j (o.watched policy p input)).stepFault? = none := by
    intro j hj
    rw [hfaults j hj]
    by_contra hne
    obtain ⟨fault, hfault⟩ := Option.ne_none_iff_exists'.mp hne
    exact h (Machine.steps_of_stepFault hfault hj)
  rw [Array.length_toList, Machine.rows_of_no_fault (watched_atTraceStart ho policy p input) hok]
  exact congrArg Machine.Core.cycles hlock.core

theorem length_watched_of_fault (ho : o.traceOut = some name) {j : Nat} {fault : Fault} (hj : j < k)
    (hfault : (steps j (o.machine p input)).stepFault? = some fault) :
    (steps k (o.watched policy p input)).rows.toList.length =
      match (steps j (o.machine p input)).fetch with
      | .error _ => (steps k (o.machine p input)).cycles
      | .ok _ => (steps k (o.machine p input)).cycles + 1 := by
  obtain ⟨hlock, hfaults⟩ := watched_lockstep o policy p input k
  have hfetch := Machine.fetch_eq_of_core (watched_lockstep o policy p input j).1.core
  have hcycles : (steps k (o.watched policy p input)).cycles =
      (steps k (o.machine p input)).cycles := congrArg Machine.Core.cycles hlock.core
  have hsome : (steps j (o.watched policy p input)).stepFault?.isSome = true := by
    rw [hfaults j hj, hfault]
    rfl
  have hrows := Machine.rows_of_fault (watched_atTraceStart ho policy p input) hj hsome
  rw [hfetch, hcycles] at hrows
  exact Array.length_toList.trans hrows

theorem length_watched_le_succ (ho : o.traceOut = some name) :
    (steps k (o.watched policy p input)).rows.toList.length ≤
      (steps k (o.machine p input)).cycles + 1 := by
  by_cases hs : (steps k (o.machine p input)).status = .faulted
  · obtain ⟨fault, -, j, hj, hfault⟩ := Machine.exists_stepFault_of_faulted hs
    rw [length_watched_of_fault ho hj hfault]
    split
    · exact Nat.le_succ _
    · exact le_rfl
  · exact Nat.le_succ_of_le (length_watched_of_reason ho hs).le

/-- A limit holds for the rows too: the last one was kept with some of the budget left. -/
theorem length_watched_le_limit (ho : o.traceOut = some name)
    (hstop : (steps k (o.machine p input)).status.isStopped = true) {n : Nat}
    (hmax : o.maxCycles = some n) :
    (steps k (o.watched policy p input)).rows.toList.length ≤ n := by
  have hstart := watched_atTraceStart ho policy p input
  cases hlength : (steps k (o.watched policy p input)).rows.toList.length with
  | zero => exact Nat.zero_le n
  | succ r =>
    have hr : r < (steps k (o.watched policy p input)).rows.toList.length := by omega
    have hrow : Recorded r (steps r (o.watched policy p input)) _ := recorded_watched_iff.mpr
      ((watched_rows_iff ho hstop).mp (List.getElem?_eq_getElem hr))
    have hcycles := (Machine.steps_of_running hstart hrow.running).1
    have hlimit : (steps r (o.watched policy p input)).config.maxCycles = some n := by
      rw [(Machine.steps_settings r _).1, (watched_settings ..).1]
      exact hmax
    by_contra hle
    have hspent := (Machine.exhausted_iff _).mpr ⟨n, hlimit, by omega⟩
    rw [hrow.allowed] at hspent
    cases hspent

/-- There are few enough rows for their count to be stored. -/
theorem length_watched_lt_size (ho : o.traceOut = some name)
    (hstop : (steps k (o.machine p input)).status.isStopped = true)
    (hcount : o.maxCycles.getD ((steps k (o.machine p input)).cycles + 1) < UInt64.size) :
    (steps k (o.watched policy p input)).rows.toList.length < UInt64.size := by
  cases hmax : o.maxCycles with
  | none =>
    rw [hmax] at hcount
    exact Nat.lt_of_le_of_lt (length_watched_le_succ ho) hcount
  | some n =>
    rw [hmax] at hcount
    exact Nat.lt_of_le_of_lt (length_watched_le_limit ho hstop hmax) hcount

theorem Stored.holds {world : World} {rows : List TraceRow} {error : Option Failure}
    {after : FileSystem} (h : Stored o world rows error after) (ho : o.traceOut = some name)
    (hcan : world.CanWrite name (Trace.encode rows)) : after.Holds name (Trace.encode rows) := by
  cases h with
  | unasked hnone =>
    rw [hnone] at ho
    cases ho
  | written hname _ hwrote | failed hname _ hwrote =>
    rw [ho] at hname
    cases hname
    exact (hwrote.replaced hcan).holds

end RunOptions

/-- The file named for the trace, behind a run that has stopped in whatever way, decodes to one row
for each instruction that the machine decoded. Their count is that of the cycles, to which a fault
in the execution of an instruction adds one. The file has 64 bits for it, which is enough under any
limit of as many bits. -/
theorem run_trace_file (world : World) (o : RunOptions) (verbosity : Nat)
    (explicit : Option LogFilter) (name : String) (ho : o.traceOut = some name)
    (bytes : Bytes) (hholds : world.files.Holds o.image bytes) (hwords : bytes.length % 4 = 0)
    (k : Nat)
    (hwritable : world.CanWrite name
      (Trace.encode (o.traced (.wordsOfBytes bytes) world.input k))) :
    let start := o.machine (.wordsOfBytes bytes) world.input
    let last := steps k start
    last.status.isStopped = true → o.maxCycles.getD (last.cycles + 1) < UInt64.size →
    ∃ (report : Report) (stored : Bytes) (rows : List TraceRow),
      (∀ fuel ≥ k, ((Request.invoke ⟨verbosity, .run o⟩).action explicit).perform fuel world =
        some report) ∧
      report.files.Holds name stored ∧ Trace.decode stored = .ok rows ∧
      (∀ (i : Nat) (row : TraceRow), rows[i]? = some row ↔ Recorded i (steps i start) row) ∧
      (∀ (i : Nat) (row : TraceRow), rows[i]? = some row → row.cycle.toNat = i) ∧
      (last.status = .halted ∨ last.status = .outOfCycles → rows.length = last.cycles) ∧
      (last.status = .faulted → ∃ j < k, ∃ fault, (steps j start).stepFault? = some fault ∧
        report.diagnostics.getLast? =
          some (.line ("um: " ++ (Failed.running last.cycles fault).text)) ∧
        rows.length =
          match (steps j start).fetch with
          | .error _ => last.cycles
          | .ok _ => last.cycles + 1) := by
  intro start last hstop hcount
  let policy := LogPolicy.choose verbosity o.trace explicit
  let rows := (steps k (o.watched policy (.wordsOfBytes bytes) world.input)).rows.toList
  have hread := FileSystem.read_eq_ok_iff.mpr hholds
  have htraced : o.traced (.wordsOfBytes bytes) world.input k = rows :=
    (RunOptions.watched_rows ho policy _ _ k).symm
  obtain ⟨error, after, hstored⟩ := RunOptions.exists_stored o world
    (o.traced (.wordsOfBytes bytes) world.input k)
  obtain ⟨front, hreport⟩ := (run_leaves policy hread hwords hstop hstored).exists_report
  rw [htraced] at hstored hwritable
  have hlength : rows.length < UInt64.size := RunOptions.length_watched_lt_size ho hstop hcount
  have hdecode : Trace.decode (Trace.encode rows) = .ok rows := by
    have h := Trace.decode_encode hlength []
    rw [List.append_nil] at h
    exact h
  have hrows (i : Nat) (row : TraceRow) : rows[i]? = some row ↔ Recorded i (steps i start) row :=
    RunOptions.watched_rows_iff ho hstop
  refine ⟨_, Trace.encode rows, rows, hreport, hstored.holds ho hwritable, hdecode, hrows, ?_, ?_,
    ?_⟩
  · intro i row hrow
    have hi : i < rows.length := (List.getElem?_eq_some_iff.mp hrow).1
    rw [((hrows i row).mp hrow).cycle]
    exact UInt64.toNat_ofNat_of_lt' (Nat.lt_trans hi hlength)
  · rintro (hs | hs)
    · exact RunOptions.length_watched_of_reason ho (hs ▸ Status.noConfusion)
    · exact RunOptions.length_watched_of_reason ho (hs ▸ Status.noConfusion)
  · intro hs
    obtain ⟨fault, hwithin, j, hj, hfault⟩ := Machine.exists_stepFault_of_faulted hs
    refine ⟨j, hj, fault, hfault, ?_, RunOptions.length_watched_of_fault ho hj hfault⟩
    change (front ++ closing last (Machine.faultWithin k start)).getLast? = _
    have hclosing : closing last (Machine.faultWithin k start) =
        [.line ("um: " ++ (Failed.running last.cycles fault).text)] :=
      congrArg (closing last) hwithin
    rw [hclosing, List.getLast?_concat]

/-- The second instruction divides by zero. It has its row, though it is no cycle. -/
theorem run_trace_file_division :
    let files : FileSystem := ⟨[(["a.um"], .file 0)], [(0, [0xD2, 0, 0, 2, 0x50, 0, 0, 0])], []⟩
    let world : World := ⟨files, [], none⟩
    let o : RunOptions := ⟨"a.um", none, none, false, some "./t", false⟩
    let start := o.machine [0xD2000002, 0x50000000] []
    (steps 2 start).cycles = 1 ∧
    ∃ (report : Report) (stored : Bytes) (rows : List TraceRow),
      (∀ fuel ≥ 2, ((Request.invoke ⟨0, .run o⟩).action none).perform fuel world = some report) ∧
      report.files.Holds "./t" stored ∧ Trace.decode stored = .ok rows ∧ rows.length = 2 ∧
      rows[1]? = some ⟨1, 1, 0x50000000, Registers.zero.write 1 2⟩ ∧
      report.diagnostics.getLast? = some (.line
        "um: machine failed after 1 cycles (division by zero): Division by zero at pc 0x1") := by
  intro files world o start
  have hholds : world.files.Holds "a.um" [0xD2, 0, 0, 2, 0x50, 0, 0, 0] :=
    FileSystem.read_eq_ok_iff.mp (by decide +kernel)
  have hopen : files.CanOpen "./t" := FileSystem.canOpen_iff.mpr
    ⟨1, { files with nodes := (["t"], .file 1) :: files.nodes }.store 1 [], by decide +kernel⟩
  have hwritable (bytes : Bytes) : world.CanWrite "./t" bytes := by
    refine ⟨hopen, fun room failure h => ?_⟩
    cases h
  have hcycles : (steps 2 start).cycles = 1 := by decide
  obtain ⟨report, stored, rows, hperformed, hstored, hdecode, hrows, -, -, hfaulted⟩ :=
    run_trace_file world o 0 none "./t" rfl _ hholds (by decide) 2 (hwritable _) (by decide +kernel)
      (by decide +kernel)
  have hwords : Program.wordsOfBytes [0xD2, 0, 0, 2, 0x50, 0, 0, 0] = [0xD2000002, 0x50000000] := by
    decide
  rw [hwords] at hrows hfaulted
  obtain ⟨j, -, fault, hfault, hlast, hlength⟩ := hfaulted (by decide)
  obtain rfl : j = 1 := Machine.stepFault?_unique (by rw [hfault]; rfl) (by decide)
  have hdivision : (steps 1 start).stepFault? = some (.divisionByZero 1) := by decide
  obtain rfl : _ = fault := Option.some.inj (hdivision.symm.trans hfault)
  have hfetch : (steps 1 start).fetch = .ok (0x50000000, .division 0 0 0) :=
    Machine.fetch_eq_ok_iff.mpr ⟨by decide, rfl⟩
  have htwo : rows.length = 2 := by
    refine hlength.trans ?_
    rw [hfetch]
    decide
  have hrow : rows[1]? = some ⟨1, 1, 0x50000000, Registers.zero.write 1 2⟩ :=
    (hrows 1 _).mpr ⟨rfl, by decide, by decide, by decide, ⟨.division 0 0 0, rfl⟩, by decide,
      by decide⟩
  exact ⟨hcycles, report, stored, rows, hperformed, hstored, hdecode, htwo, hrow,
    hlast.trans (by decide +kernel)⟩

end CommandLine

end UniversalMachine
