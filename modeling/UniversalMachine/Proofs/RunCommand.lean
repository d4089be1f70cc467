import UniversalMachine.Proofs.Files
import UniversalMachine.Proofs.Halting
import UniversalMachine.Proofs.Performing

/-! The run of an image.
What the command prints and the status it ends with are those of the machine on the image's words,
under the limits asked for. Logs, statistics and the trace change neither; only a trace that cannot
be written makes a good end a failure. -/

namespace UniversalMachine.CommandLine

open Machine (steps faultWithin Lockstep)

namespace RunOptions

variable {o : RunOptions} {policy : LogPolicy} {p : Program} {input : Bytes} {k : Nat}

/-- The machine that a run is about: the image's words under the limits asked for, and nothing that
observes them. -/
def machine (o : RunOptions) (p : Program) (input : Bytes) : Machine :=
  .boot p (.ofBytes input)
    { maxCycles := o.maxCycles, maxBlockWords := o.maxBlockWords.getD 0xFFFFFFFF }

/-- The machine that the command starts. -/
def watched (o : RunOptions) (policy : LogPolicy) (p : Program) (input : Bytes) : Machine :=
  (Machine.boot p (.ofBytes input) (o.config policy)).announce

/-- The rows that the machine records in `k` steps when a trace is asked for. -/
def traced (o : RunOptions) (p : Program) (input : Bytes) (k : Nat) : List TraceRow :=
  let recorder : Machine :=
    .boot p (.ofBytes input) { (o.machine p input).config with recordRows := true }
  (steps k recorder).rows.toList

/-- The trace can be written where it is asked for. -/
def CanWriteTrace (o : RunOptions) (world : World) (rows : List TraceRow) : Prop :=
  ∀ name, o.traceOut = some name → world.CanWrite name (Trace.encode rows)

section Watching

theorem watched_settings (o : RunOptions) (policy : LogPolicy) (p : Program) (input : Bytes) :
    (o.watched policy p input).config = o.config policy ∧
      (o.watched policy p input).cycles = 0 ∧ (o.watched policy p input).rows = #[] := by
  obtain ⟨log, hlog⟩ := Machine.announce_eq (.boot p (.ofBytes input) (o.config policy))
  rw [watched, hlog]
  exact ⟨rfl, rfl, rfl⟩

/-- Being watched changes nothing in how the machine goes on. -/
theorem watched_lockstep (o : RunOptions) (policy : LogPolicy) (p : Program) (input : Bytes)
    (k : Nat) :
    Lockstep Eq (steps k (o.watched policy p input)) (steps k (o.machine p input)) ∧
      ∀ j < k, (steps j (o.watched policy p input)).stepFault? =
        (steps j (o.machine p input)).stepFault? := by
  have hstart : Lockstep Eq (o.watched policy p input) (o.machine p input) := by
    obtain ⟨log, hlog⟩ := Machine.announce_eq (.boot p (.ofBytes input) (o.config policy))
    rw [watched, hlog]
    exact ⟨rfl, rfl, rfl, fun _ => rfl⟩
  have hmax : (o.watched policy p input).config.maxCycles =
      (o.machine p input).config.maxCycles := by
    rw [(watched_settings o policy p input).1]
    rfl
  exact hstart.steps Console.simulation_eq hmax trivial

theorem watched_rows {name : String} (ho : o.traceOut = some name) (policy : LogPolicy)
    (p : Program) (input : Bytes) (k : Nat) :
    (steps k (o.watched policy p input)).rows.toList = o.traced p input k := by
  let recorder : Machine :=
    .boot p (.ofBytes input) { (o.machine p input).config with recordRows := true }
  obtain ⟨hconfig, -, -⟩ := watched_settings o policy p input
  have hstart : Lockstep Eq (o.watched policy p input) recorder := by
    obtain ⟨log, hlog⟩ := Machine.announce_eq (.boot p (.ofBytes input) (o.config policy))
    rw [watched, hlog]
    exact ⟨rfl, rfl, rfl, fun _ => rfl⟩
  have hmax : (o.watched policy p input).config.maxCycles = recorder.config.maxCycles := by
    rw [hconfig]
    rfl
  have hrows := (hstart.steps Console.simulation_eq hmax (k := k) trivial).1.rows
  rw [(Machine.steps_settings k _).1, (Machine.steps_settings k _).1, hconfig] at hrows
  exact congrArg Array.toList (hrows (by simp [config, ho, recorder, Machine.boot]))

/-- How the command's run ends when its machine has come to `last`, with a fault or none, and has
kept `rows`. -/
inductive Ended (last : Machine) (rows : List TraceRow) :
    Option Fault → Except Fault Machine.Outcome → Machine → Prop where
  | stopped {reason : HaltReason} {m : Machine} : last.status.reason? = some reason →
      m.console = last.console →
      Ended last rows none (.ok ⟨last.cycles, reason, last.heap.stats, rows⟩) m
  | faulted {fault : Fault} {m : Machine} : last.status = .faulted →
      m.cycles = last.cycles → m.rows.toList = rows → m.console = last.console →
      Ended last rows (some fault) (.error fault) m

theorem Ended.console_eq {last m : Machine} {rows : List TraceRow} {fault? : Option Fault}
    {result : Except Fault Machine.Outcome} (h : Ended last rows fault? result m) :
    m.console = last.console := by
  cases h with
  | stopped _ hconsole => exact hconsole
  | faulted _ _ _ hconsole => exact hconsole

theorem run_ended (policy : LogPolicy)
    (hstop : (steps k (o.machine p input)).status.isStopped = true) :
    ∃ result after,
      (Machine.boot p (.ofBytes input) (o.config policy)).run k = some (result, after) ∧
        Ended (steps k (o.machine p input)) (steps k (o.watched policy p input)).rows.toList
          (faultWithin k (o.machine p input)) result after := by
  obtain ⟨hlock, hfaults⟩ := watched_lockstep o policy p input k
  have hfaulted := Machine.steps_faulted_iff (m := o.machine p input) Status.noConfusion k
  rw [Machine.run, Machine.settle_eq_steps]
  change ∃ result after, Machine.finish
    (steps k (o.watched policy p input), faultWithin k (o.watched policy p input)) =
      some (result, after) ∧ _
  rw [Machine.faultWithin_congr hfaults]
  generalize steps k (o.watched policy p input) = seen at hlock ⊢
  generalize steps k (o.machine p input) = last at hlock hstop hfaulted ⊢
  have hcycles : seen.cycles = last.cycles := congrArg Machine.Core.cycles hlock.core
  have hstats : seen.heap.stats = last.heap.stats :=
    congrArg (fun s : Machine.Core => s.heap.stats) hlock.core
  cases hfault : faultWithin k (o.machine p input) with
  | some fault =>
    obtain ⟨log, hlog⟩ := Machine.report_eq seen (.failed seen.cycles fault)
    rw [Machine.finish, hlog]
    exact ⟨_, _, rfl, .faulted (hfaulted.mpr ⟨fault, hfault⟩) hcycles rfl hlock.console⟩
  | none =>
    obtain ⟨reason, hs⟩ : ∃ reason, last.status.reason? = some reason := by
      cases hs : last.status with
      | running =>
        rw [hs] at hstop
        cases hstop
      | halted | outOfCycles => exact ⟨_, rfl⟩
      | faulted =>
        obtain ⟨fault, hsome⟩ := hfaulted.mp hs
        cases hfault.symm.trans hsome
    obtain ⟨log, hlog⟩ := Machine.conclude_eq seen
    have hreason : seen.reason = some reason := by
      rw [← Machine.reason?_status, hlock.status, hs]
    have houtcome : Machine.Outcome.mk seen.cycles (seen.reason.getD .halt) seen.heap.stats
        seen.rows.toList = ⟨last.cycles, reason, last.heap.stats, seen.rows.toList⟩ := by
      rw [hreason, hcycles, hstats, Option.getD_some]
    rw [Machine.finish_of_stopped (hlock.status ▸ hstop), hlog, houtcome]
    exact ⟨_, _, rfl, .stopped hs hlock.console⟩

end Watching

section Storing

variable {world : World} {rows : List TraceRow} {error : Option Failure} {after : FileSystem}

/-- What becomes of the files, and the failure if the trace cannot be written. -/
inductive Stored (o : RunOptions) (world : World) (rows : List TraceRow) :
    Option Failure → FileSystem → Prop where
  | unasked : o.traceOut = none → Stored o world rows none world.files
  | written {name : String} {after : FileSystem} : o.traceOut = some name →
      world.write name (Trace.encode rows) = (.ok (), { world with files := after }) →
      world.Wrote name (Trace.encode rows) (.ok ()) after → Stored o world rows none after
  | failed {name : String} {failure : Failure} {after : FileSystem} : o.traceOut = some name →
      world.write name (Trace.encode rows) = (.error failure, { world with files := after }) →
      world.Wrote name (Trace.encode rows) (.error failure) after →
      Stored o world rows (some failure) after

theorem exists_stored (o : RunOptions) (world : World) (rows : List TraceRow) :
    ∃ error after, Stored o world rows error after := by
  cases ho : o.traceOut with
  | none => exact ⟨none, world.files, .unasked ho⟩
  | some name =>
    obtain ⟨result, after, hwrite, hwrote⟩ := world.exists_wrote name (Trace.encode rows)
    cases result with
    | error failure => exact ⟨some failure, after, .failed ho hwrite hwrote⟩
    | ok written => exact ⟨none, after, .written ho hwrite hwrote⟩

/-- The rows count only if they are asked for. -/
theorem Stored.of_rows {rows' : List TraceRow} (h : Stored o world rows error after)
    (hrows : ∀ name, o.traceOut = some name → rows' = rows) : Stored o world rows' error after := by
  cases h with
  | unasked ho => exact .unasked ho
  | written ho hwrite hwrote =>
    rw [← hrows _ ho] at hwrite hwrote
    exact .written ho hwrite hwrote
  | failed ho hwrite hwrote =>
    rw [← hrows _ ho] at hwrite hwrote
    exact .failed ho hwrite hwrote

theorem canWriteTrace_iff {name : String} (ho : o.traceOut = some name) :
    o.CanWriteTrace world rows ↔ world.CanWrite name (Trace.encode rows) := by
  refine ⟨fun hcan => hcan name ho, fun hcan other hother => ?_⟩
  rw [ho] at hother
  cases hother
  exact hcan

theorem Stored.canWriteTrace_iff (h : Stored o world rows error after) :
    o.CanWriteTrace world rows ↔ error = none := by
  cases h with
  | unasked ho =>
    refine ⟨fun _ => rfl, fun _ name hname => ?_⟩
    rw [ho] at hname
    cases hname
  | written ho _ hwrote =>
    rw [RunOptions.canWriteTrace_iff ho, hwrote.canWrite_iff]
    exact ⟨fun _ => rfl, fun _ => rfl⟩
  | failed ho _ hwrote =>
    rw [RunOptions.canWriteTrace_iff ho, hwrote.canWrite_iff]
    constructor
    · intro hok
      cases hok
    · intro hnone
      cases hnone

theorem Stored.changed (h : Stored o world rows error after) {path : Path}
    (hchanged : after.fileAt? path ≠ world.files.fileAt? path) :
    ∃ name, o.traceOut = some name ∧ after.StandsAt name path := by
  cases h with
  | unasked _ => exact absurd rfl hchanged
  | written ho _ hwrote => exact ⟨_, ho, hwrote.changed hchanged⟩
  | failed ho _ hwrote => exact ⟨_, ho, hwrote.changed hchanged⟩

end Storing

end RunOptions

section Ending

open RunOptions (Ended Stored)

variable {fuel : Nat} {world : World} {policy : LogPolicy} {o : RunOptions} {rows : List TraceRow}
  {error : Option Failure} {after : FileSystem} {last m : Machine}

/-- The status of a command whose machine has stopped. A fault comes before all else, and a trace
that cannot be written before the reason of a stop. -/
def exitStatus : Status → Option Failure → Nat
  | .halted, none => 0
  | .outOfCycles, none => 2
  | _, _ => 1

/-- What is told last of a machine that has stopped: its fault, with the count of cycles. -/
def closing (last : Machine) : Option Fault → List Diagnostic
  | some fault => [.line ("um: " ++ (Failed.running last.cycles fault).text)]
  | none => []

theorem afterFault_leaves (fault : Fault)
    (hstored : Stored o world m.rows.toList error after) :
    Action.Leaves fuel world (afterFault policy o fault m)
      ⟨1, [], [.line ("um: " ++ (Failed.running m.cycles fault).text)], after⟩ := by
  have hfail (world : World) := Action.leaves_fail fuel world (.running m.cycles fault)
  cases hstored with
  | unasked ho =>
    rw [afterFault, ho]
    exact hfail world
  | written ho hwrite =>
    rw [afterFault, ho]
    exact Action.Leaves.writeTrace_ok hwrite (hfail { world with files := after })
  | failed ho hwrite =>
    rw [afterFault, ho]
    exact Action.Leaves.writeTrace_error hwrite ((hfail { world with files := after }).notify _ _)

theorem afterTrace_leaves (fuel : Nat) (world : World) (policy : LogPolicy) (o : RunOptions)
    (outcome : Machine.Outcome) {s : Status} (hs : s.reason? = some outcome.reason) :
    Action.Leaves fuel world (afterTrace policy o outcome)
      ⟨exitStatus s none, [], [], world.files⟩ := by
  rw [afterTrace]
  cases hreason : outcome.reason with
  | halt =>
    rw [hreason, Status.reason?_eq_halt_iff] at hs
    rw [hs]
    exact Action.leaves_exit fuel world 0
  | cycleLimit =>
    rw [hreason, Status.reason?_eq_cycleLimit_iff] at hs
    rw [hs]
    exact ((Action.leaves_exit fuel world 2).diagnose _).notify _ _

theorem exitStatus_some (s : Status) (failure : Failure) : exitStatus s (some failure) = 1 := by
  cases s <;> rfl

theorem afterStop_leaves {outcome : Machine.Outcome} {s : Status}
    (hs : s.reason? = some outcome.reason)
    (hstored : Stored o world outcome.rows error after) :
    Action.Leaves fuel world (afterStop policy o outcome m)
      ⟨exitStatus s error, [], [], after⟩ := by
  apply Action.Leaves.diagnoseAll
  cases hstored with
  | unasked ho =>
    rw [ho]
    exact afterTrace_leaves fuel world policy o outcome hs
  | written ho hwrite =>
    rw [ho]
    exact Action.Leaves.writeTrace_ok hwrite
      (afterTrace_leaves fuel { world with files := after } policy o outcome hs)
  | failed ho hwrite =>
    rw [ho, exitStatus_some]
    exact Action.Leaves.writeTrace_error hwrite
      (Action.leaves_fail fuel { world with files := after } _).undiagnosed

variable {p : Program} {bytes : Bytes} {k : Nat}

theorem runProgram_leaves (policy : LogPolicy)
    (hstop : (steps k (o.machine p world.input)).status.isStopped = true)
    (hstored : Stored o world (o.traced p world.input k) error after) :
    let last := steps k (o.machine p world.input)
    let fault? := faultWithin k (o.machine p world.input)
    Action.Leaves k world (runProgram policy o p)
      ⟨exitStatus last.status error, last.console.delivered, closing last fault?, after⟩ := by
  intro last fault?
  obtain ⟨result, m, hrun, hended⟩ := RunOptions.run_ended policy hstop
  replace hstored := hstored.of_rows fun _ ho =>
    RunOptions.watched_rows ho policy p world.input k
  rw [← hended.console_eq, runProgram]
  refine Action.Leaves.run hrun
    (r := ⟨exitStatus last.status error, [], closing last fault?, after⟩) ?_ rfl
  change Ended _ _ fault? _ _ at hended
  generalize fault? = f at hended ⊢
  cases hended with
  | stopped hreason => exact afterStop_leaves hreason hstored
  | faulted hs hcycles hrows =>
    rw [closing, hs, ← hcycles]
    rw [← hrows] at hstored
    exact afterFault_leaves _ hstored

/-- All that a run leaves behind, once its machine has stopped. -/
theorem run_leaves (policy : LogPolicy) (hread : world.files.read o.image = .ok bytes)
    (hwords : bytes.length % 4 = 0)
    (hstop : (steps k (o.machine (.wordsOfBytes bytes) world.input)).status.isStopped = true)
    (hstored : Stored o world (o.traced (.wordsOfBytes bytes) world.input k) error after) :
    let last := steps k (o.machine (.wordsOfBytes bytes) world.input)
    let fault? := faultWithin k (o.machine (.wordsOfBytes bytes) world.input)
    Action.Leaves k world (run policy o)
      ⟨exitStatus last.status error, last.console.delivered, closing last fault?, after⟩ := by
  have hprogram := runProgram_leaves policy hstop hstored
  apply Action.Leaves.loadImage hread hwords
  apply Action.Leaves.notify
  split
  · exact hprogram.notify _ _
  · exact hprogram

end Ending

section Invoking

variable {world : World} {o : RunOptions} {last : Machine} {rows : List TraceRow} {k : Nat}
  {report : Report}

/-- What is said of a run whose machine stops as `last` within `k` steps, in which it records `rows`
if a trace is asked for. -/
structure Concludes (world : World) (o : RunOptions) (last : Machine) (rows : List TraceRow)
    (k : Nat) (command : Action) (report : Report) : Prop where
  performed : ∀ fuel ≥ k, command.perform fuel world = some report
  output : report.output = last.console.delivered
  failed : last.status = .faulted ∨ ¬ o.CanWriteTrace world rows → report.status = 1
  halted : o.CanWriteTrace world rows → last.status = .halted → report.status = 0
  limited : o.CanWriteTrace world rows → last.status = .outOfCycles → report.status = 2
  changed : ∀ path, report.files.fileAt? path ≠ world.files.fileAt? path →
    ∃ name, o.traceOut = some name ∧ report.files.StandsAt name path

theorem run_concludes (policy : LogPolicy) {bytes : Bytes}
    (hread : world.files.read o.image = .ok bytes) (hwords : bytes.length % 4 = 0)
    (hstop : (steps k (o.machine (.wordsOfBytes bytes) world.input)).status.isStopped = true) :
    ∃ report, Concludes world o (steps k (o.machine (.wordsOfBytes bytes) world.input))
      (o.traced (.wordsOfBytes bytes) world.input k) k (run policy o) report := by
  obtain ⟨error, after, hstored⟩ := RunOptions.exists_stored o world
    (o.traced (.wordsOfBytes bytes) world.input k)
  obtain ⟨front, hreport⟩ := (run_leaves policy hread hwords hstop hstored).exists_report
  have hcan := hstored.canWriteTrace_iff
  refine ⟨_, hreport, rfl, ?_, ?_, ?_, fun path => hstored.changed⟩
  · rintro (hs | hcannot)
    · change exitStatus _ error = 1
      rw [hs]
      rfl
    · obtain ⟨e, rfl⟩ := Option.ne_none_iff_exists'.mp (mt hcan.mpr hcannot)
      exact exitStatus_some _ e
  · intro hwritable hs
    change exitStatus _ error = 0
    rw [hs, hcan.mp hwritable]
    rfl
  · intro hwritable hs
    change exitStatus _ error = 2
    rw [hs, hcan.mp hwritable]
    rfl

/-- Two commands with the same machine, both or neither of which can write its trace, end with the
same status. -/
theorem Concludes.status_eq {o' : RunOptions} {a a' : Action} {report' : Report}
    (h : Concludes world o last rows k a report) (h' : Concludes world o' last rows k a' report')
    (hcan : o'.CanWriteTrace world rows ↔ o.CanWriteTrace world rows)
    (hstop : last.status.isStopped = true) : report'.status = report.status := by
  by_cases hwritable : o.CanWriteTrace world rows
  · cases hs : last.status with
    | running =>
      rw [hs] at hstop
      cases hstop
    | halted => rw [h.halted hwritable hs, h'.halted (hcan.mpr hwritable) hs]
    | outOfCycles => rw [h.limited hwritable hs, h'.limited (hcan.mpr hwritable) hs]
    | faulted => rw [h.failed (.inl hs), h'.failed (.inl hs)]
  · rw [h.failed (.inr hwritable), h'.failed (.inr (mt hcan.mp hwritable))]

theorem run_unloaded (policy : LogPolicy)
    (h : ∀ bytes, world.files.read o.image = .ok bytes → bytes.length % 4 ≠ 0) :
    ∃ report, (∀ fuel, (run policy o).perform fuel world = some report) ∧
      report.status = 1 ∧ report.output = [] ∧ report.files = world.files := by
  obtain ⟨f, hleaves⟩ := Action.loadImage_fails 0 _ h
  obtain ⟨front, hreport⟩ := hleaves.exists_report
  exact ⟨_, fun fuel => hreport fuel (Nat.zero_le fuel), rfl, rfl, rfl⟩

/-- A run whose image cannot be loaded fails, and leaves all as it was. Otherwise it prints what the
machine writes and its status tells how the machine stopped, with a failure where there was a fault
or the trace cannot be written. Nothing that observes the run counts for either. -/
theorem run_status_output (world : World) (o : RunOptions) (verbosity : Nat)
    (explicit : Option LogFilter) :
    let command := (Request.invoke ⟨verbosity, .run o⟩).action explicit
    ((∀ bytes, world.files.Holds o.image bytes → bytes.length % 4 ≠ 0) →
      ∃ report, (∀ fuel, command.perform fuel world = some report) ∧
        report.status = 1 ∧ report.output = [] ∧ report.files = world.files) ∧
    ∀ bytes k, world.files.Holds o.image bytes → bytes.length % 4 = 0 →
      let last := steps k (o.machine (.wordsOfBytes bytes) world.input)
      let rows := o.traced (.wordsOfBytes bytes) world.input k
      last.status.isStopped = true →
      ∃ report, Concludes world o last rows k command report ∧
        ∀ (o' : RunOptions) (verbosity' : Nat) (explicit' : Option LogFilter),
          o'.image = o.image → o'.maxCycles = o.maxCycles → o'.maxBlockWords = o.maxBlockWords →
          (o'.CanWriteTrace world rows ↔ o.CanWriteTrace world rows) →
          ∃ report',
            (∀ fuel ≥ k, ((Request.invoke ⟨verbosity', .run o'⟩).action explicit').perform fuel
              world = some report') ∧
            report'.status = report.status ∧ report'.output = report.output := by
  intro command
  refine ⟨fun hnone => run_unloaded _ fun bytes hread =>
    hnone bytes (FileSystem.read_eq_ok_iff.mp hread), ?_⟩
  intro bytes k hholds hwords last rows hstop
  have hread := FileSystem.read_eq_ok_iff.mpr hholds
  obtain ⟨report, hreport⟩ := run_concludes (LogPolicy.choose verbosity o.trace explicit) hread
    hwords hstop
  refine ⟨report, hreport, ?_⟩
  intro o' verbosity' explicit' himage hcycles hblock hcan
  have hmachine : o'.machine = o.machine := by
    funext p input
    rw [RunOptions.machine, RunOptions.machine, hcycles, hblock]
  have hlast' : steps k (o'.machine (.wordsOfBytes bytes) world.input) = last := by
    rw [hmachine]
  obtain ⟨report', hreport'⟩ := run_concludes (LogPolicy.choose verbosity' o'.trace explicit')
    (himage ▸ hread) hwords (hlast' ▸ hstop)
  have hrows' : o'.traced (.wordsOfBytes bytes) world.input k = rows := by
    rw [RunOptions.traced, hmachine]
    rfl
  rw [hlast', hrows'] at hreport'
  exact ⟨report', hreport'.performed, hreport.status_eq hreport' hcan hstop,
    hreport'.output.trans hreport.output.symm⟩

/-- A program that writes a letter, run up to its limit with everything observed, beside a run
whose trace cannot be opened, one whose trace is cut short and a run of an image that is not
there. -/
theorem run_status_output_limited :
    let files : FileSystem :=
      ⟨[(["a.um"], .file 0)], [(0, [0xD2, 0, 0, 65, 0xA0, 0, 0, 1, 0x70, 0, 0, 0])], []⟩
    let roomy : World := ⟨files, [], none⟩
    let full : World := ⟨files, [], some (2, ⟨.named "StorageFull", "No space left on device"⟩)⟩
    let run (o : RunOptions) : Action := (Request.invoke ⟨2, .run o⟩).action none
    (∃ report, (∀ fuel ≥ 3,
        (run ⟨"./a.um", some 2, none, true, some "t", true⟩).perform fuel roomy = some report) ∧
      report.status = 2 ∧ report.output = [65] ∧
      ∃ report', (∀ fuel ≥ 3, (run ⟨"./a.um", some 2, none, false, none, false⟩).perform fuel
          roomy = some report') ∧ report'.status = 2 ∧ report'.output = [65]) ∧
    (∃ report, (∀ fuel ≥ 3,
        (run ⟨"./a.um", none, none, false, some "b/t", false⟩).perform fuel roomy = some report) ∧
      report.status = 1 ∧ report.output = [65]) ∧
    (∃ report, (∀ fuel ≥ 3,
        (run ⟨"./a.um", none, none, false, some "t", false⟩).perform fuel full = some report) ∧
      report.status = 1 ∧ report.output = [65]) ∧
    ∃ report, (∀ fuel,
        (run ⟨"b.um", none, none, false, some "t", false⟩).perform fuel roomy = some report) ∧
      report.status = 1 ∧ report.output = [] ∧ report.files = files := by
  intro files roomy full run
  have hholds : files.Holds "./a.um" [0xD2, 0, 0, 65, 0xA0, 0, 0, 1, 0x70, 0, 0, 0] :=
    FileSystem.read_eq_ok_iff.mp (by decide +kernel)
  have hopen : files.CanOpen "t" := FileSystem.canOpen_iff.mpr
    ⟨1, { files with nodes := (["t"], .file 1) :: files.nodes }.store 1 [], by decide +kernel⟩
  have hroomy (bytes : Bytes) : roomy.Takes bytes := by
    intro room failure h
    cases h
  have hclosed : ¬ files.CanOpen "b/t" := by
    rintro ⟨-, path, hlocate, -⟩
    have hmissing : files.locate "b/t" = .error .missing := by decide +kernel
    cases hmissing.symm.trans hlocate
  refine ⟨?_, ?_, ?_, ?_⟩
  · obtain ⟨report, hreport, hsame⟩ :=
      (run_status_output roomy ⟨"./a.um", some 2, none, true, some "t", true⟩ 2 none).2 _ 3 hholds
        (by decide) (by decide +kernel)
    have hcan (rows : List TraceRow) :
        RunOptions.CanWriteTrace ⟨"./a.um", some 2, none, true, some "t", true⟩ roomy rows := by
      rintro name ⟨⟩
      exact ⟨hopen, hroomy _⟩
    obtain ⟨report', hperformed, hstatus, houtput⟩ :=
      hsame ⟨"./a.um", some 2, none, false, none, false⟩ 2 none rfl rfl rfl
        ⟨fun _ => hcan _, fun _ name hname => by cases hname⟩
    have hlimited : report.status = 2 := hreport.limited (hcan _) (by decide +kernel)
    have hletter : report.output = [65] := hreport.output.trans (by decide +kernel)
    exact ⟨report, hreport.performed, hlimited, hletter, report', hperformed,
      hstatus.trans hlimited, houtput.trans hletter⟩
  · obtain ⟨report, hreport, -⟩ :=
      (run_status_output roomy ⟨"./a.um", none, none, false, some "b/t", false⟩ 2 none).2 _ 3 hholds
        (by decide) (by decide +kernel)
    have hcannot (rows : List TraceRow) :
        ¬ RunOptions.CanWriteTrace ⟨"./a.um", none, none, false, some "b/t", false⟩ roomy rows :=
      fun hcan => hclosed (hcan _ rfl).1
    exact ⟨report, hreport.performed, hreport.failed (.inr (hcannot _)),
      hreport.output.trans (by decide +kernel)⟩
  · obtain ⟨report, hreport, -⟩ :=
      (run_status_output full ⟨"./a.um", none, none, false, some "t", false⟩ 2 none).2 _ 3 hholds
        (by decide) (by decide +kernel)
    refine ⟨report, hreport.performed, hreport.failed (.inr fun hcan => ?_),
      hreport.output.trans (by decide +kernel)⟩
    -- the count of rows alone takes more than two bytes
    have hroom := (hcan _ rfl).2 _ _ rfl
    rw [Trace.encode, List.length_append, Bytes.length_little] at hroom
    omega
  · refine (run_status_output roomy ⟨"b.um", none, none, false, some "t", false⟩ 2 none).1 ?_
    intro bytes hmissing
    have hread : files.read "b.um" = .error .missing := by decide +kernel
    cases hread.symm.trans (FileSystem.read_eq_ok_iff.mpr hmissing)

end Invoking

end UniversalMachine.CommandLine
