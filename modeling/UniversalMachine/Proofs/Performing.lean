import UniversalMachine.CommandLine.Command
import UniversalMachine.Proofs.CycleBudget

/-! What commands leave behind.
A report has rules of its own, one for each kind of action, in which diagnostics may come in front
at will. Larger bounds on the machine's steps keep every report. -/

namespace UniversalMachine

/-- A run that is over stays as it is under a larger bound. -/
theorem Machine.run_mono {m : Machine} {fuel more : Nat} {done : Except Fault Outcome × Machine}
    (h : m.run fuel = some done) (hle : fuel ≤ more) : m.run more = some done := by
  obtain ⟨result, after⟩ := done
  rw [run] at h ⊢
  rw [settle_eq_of_stopped (isStopped_of_finish h) hle]
  exact h

namespace CommandLine

namespace Action

variable {fuel : Nat} {world : World} {next : Action} {r : Report}

theorem perform_mono {more : Nat} {a : Action} (h : a.perform fuel world = some r)
    (hle : fuel ≤ more) : a.perform more world = some r := by
  induction a generalizing world r with
  | exit status => exact h
  | readFile name next ih =>
    rw [perform] at h ⊢
    split at h
    · exact ih _ h
    · exact ih _ h
  | writeFile name bytes next ih =>
    rw [perform] at h ⊢
    exact ih _ h
  | print bytes next ih | diagnose d next ih =>
    rw [perform] at h ⊢
    obtain ⟨behind, hbehind, rfl⟩ := Option.map_eq_some_iff.mp h
    rw [ih hbehind]
    rfl
  | run p config next ih =>
    rw [perform] at h
    split at h
    · cases h
    · rename_i result m hrun
      obtain ⟨behind, hbehind, rfl⟩ := Option.map_eq_some_iff.mp h
      rw [perform, Machine.run_mono hrun hle]
      dsimp only
      rw [ih result m hbehind]
      rfl

/-- Carrying out the action leaves this report, with perhaps more diagnostics in front. -/
def Leaves (fuel : Nat) (world : World) (a : Action) (r : Report) : Prop :=
  ∃ front, a.perform fuel world = some (r.diagnosing front)

theorem leaves_exit (fuel : Nat) (world : World) (status : Nat) :
    Leaves fuel world (.exit status) ⟨status, [], [], world.files⟩ :=
  ⟨[], rfl⟩

theorem Leaves.diagnose (h : Leaves fuel world next r) (d : Diagnostic) :
    Leaves fuel world (.diagnose d next) r := by
  obtain ⟨front, hnext⟩ := h
  refine ⟨d :: front, ?_⟩
  rw [perform, hnext]
  rfl

theorem Leaves.diagnoseAll (h : Leaves fuel world next r) (ds : List Diagnostic) :
    Leaves fuel world (.diagnoseAll ds next) r := by
  induction ds with
  | nil => exact h
  | cons d rest ih => exact ih.diagnose d

theorem Leaves.notify (h : Leaves fuel world next r) (policy : LogPolicy) (notice : Notice) :
    Leaves fuel world (.notify policy notice next) r := by
  rw [Action.notify]
  split
  · exact h.diagnose _
  · exact h

theorem leaves_fail (fuel : Nat) (world : World) (f : Failed) :
    Leaves fuel world (.fail f) ⟨1, [], [.line ("um: " ++ f.text)], world.files⟩ :=
  ⟨[], perform_fail fuel world f⟩

theorem Leaves.exists_report {a : Action} (h : Leaves fuel world a r) :
    ∃ front, ∀ more ≥ fuel, a.perform more world = some (r.diagnosing front) := by
  obtain ⟨front, hreport⟩ := h
  exact ⟨front, fun _ hle => perform_mono hreport hle⟩

/-- Diagnostics at the end may be left out of account too. -/
theorem Leaves.undiagnosed (h : Leaves fuel world next r) :
    Leaves fuel world next { r with diagnostics := [] } := by
  obtain ⟨front, hnext⟩ := h
  refine ⟨front ++ r.diagnostics, ?_⟩
  rw [hnext]
  simp [Report.diagnosing]

/-- A command that prints nothing behind a run has the machine's output for its own. -/
theorem Leaves.run {p : Program} {config : Config} {result : Except Fault Machine.Outcome}
    {m : Machine} {next : Except Fault Machine.Outcome → Machine → Action}
    (hrun : (Machine.boot p (.ofBytes world.input) config).run fuel = some (result, m))
    (h : Leaves fuel world (next result m) r) (hsilent : r.output = []) :
    Leaves fuel world (.run p config next) { r with output := m.console.delivered } := by
  obtain ⟨front, hnext⟩ := h
  refine ⟨m.log.toList.map (fun e => .log e.record) ++ front, ?_⟩
  rw [perform, hrun]
  dsimp only
  rw [hnext, Option.map_some]
  simp [Report.diagnosing, Report.printing, hsilent]

section Files

variable {name : String} {bytes : Bytes}

/-- What is read is handed on, with an error in the words of a failure. -/
theorem Leaves.readFile {next : Except Failure Bytes → Action}
    {result : Except FileError Bytes} (hread : world.files.read name = result)
    (h : Leaves fuel world (next (result.mapError FileError.failure)) r) :
    Leaves fuel world (.readFile name next) r := by
  obtain ⟨front, hnext⟩ := h
  refine ⟨front, ?_⟩
  rw [perform, hread]
  cases result with
  | error e => exact hnext
  | ok bytes => exact hnext

theorem Leaves.writeFile {next : Except Failure Unit → Action} {result : Except Failure Unit}
    {after : World} (hwrite : world.write name bytes = (result, after))
    (h : Leaves fuel after (next result) r) :
    Leaves fuel world (.writeFile name bytes next) r := by
  obtain ⟨front, hnext⟩ := h
  refine ⟨front, ?_⟩
  rw [perform, hwrite]
  exact hnext

end Files

theorem Leaves.writeTrace_ok {policy : LogPolicy} {name : String} {rows : List TraceRow}
    {next : Except Failed Unit → Action} {after : World}
    (hwrite : world.write name (Trace.encode rows) = (.ok (), after))
    (h : Leaves fuel after (next (.ok ())) r) :
    Leaves fuel world (writeTrace policy name rows next) r :=
  .writeFile hwrite (h.notify policy (.wroteTrace rows.length name))

theorem Leaves.writeTrace_error {policy : LogPolicy} {name : String} {rows : List TraceRow}
    {next : Except Failed Unit → Action} {after : World} {failure : Failure}
    (hwrite : world.write name (Trace.encode rows) = (.error failure, after))
    (h : Leaves fuel after (next (.error (.writingTrace name failure))) r) :
    Leaves fuel world (writeTrace policy name rows next) r :=
  .writeFile hwrite h

theorem Leaves.loadImage {name : String} {bytes : Bytes} {next : Program → Action}
    (hread : world.files.read name = .ok bytes) (hwords : bytes.length % 4 = 0)
    (h : Leaves fuel world (next (.wordsOfBytes bytes)) r) :
    Leaves fuel world (loadImage name next) r := by
  apply Leaves.readFile hread
  dsimp only [Except.mapError]
  rw [Program.ofBytes, if_pos hwords]
  exact h

/-- An image that cannot be loaded ends the command, and nothing else has happened. -/
theorem loadImage_fails (fuel : Nat) {name : String} (next : Program → Action)
    (h : ∀ bytes, world.files.read name = .ok bytes → bytes.length % 4 ≠ 0) :
    ∃ f, Leaves fuel world (loadImage name next)
      ⟨1, [], [.line ("um: " ++ Failed.text f)], world.files⟩ := by
  cases hread : world.files.read name with
  | error e =>
    refine ⟨.loadingImage name (.file e.failure), ?_⟩
    exact .readFile hread (leaves_fail fuel world _)
  | ok bytes =>
    refine ⟨.loadingImage name (.malformedImage bytes.length), ?_⟩
    apply Leaves.readFile hread
    dsimp only [Except.mapError]
    rw [Program.ofBytes, if_neg (h bytes hread)]
    exact leaves_fail fuel world _

end Action

end CommandLine

end UniversalMachine
