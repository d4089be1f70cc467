import UniversalMachine.Proofs.Lockstep

/-! Input causality.
Until a machine has seen the end of its input, what it does is settled by the bytes it has asked
for: behind them any other bytes could follow. -/

namespace UniversalMachine

namespace InputChannel

/-- The channel whose device has more to give. -/
def extend (channel : InputChannel) (more : List ReadOutcome) : InputChannel :=
  { channel with device := channel.device ++ more }

theorem next_append {device : List ReadOutcome} (more : List ReadOutcome)
    (h : (next device).1 ≠ .nothing) :
    next (device ++ more) = ((next device).1, (next device).2 ++ more) := by
  induction device with
  | nil => exact absurd rfl h
  | cons outcome rest ih =>
    cases outcome with
    | byte b => rfl
    | nothing => exact absurd rfl h
    | failed failure =>
      rw [List.cons_append]
      by_cases hkind : failure.kind = .interrupted
      · rw [next, if_pos hkind] at h ⊢
        rw [next, if_pos hkind]
        exact ih h
      · rw [next, if_neg hkind, next, if_neg hkind]

theorem ended_read {channel : InputChannel} (h : channel.ended = true) :
    channel.read.2.ended = true := by
  rw [read, if_pos h]
  exact h

/-- A read that does not see the end is the same on every longer input. -/
theorem read_extend {channel : InputChannel} (more : List ReadOutcome)
    (hopen : channel.read.2.ended = false) :
    (channel.extend more).read = (channel.read.1, channel.read.2.extend more) := by
  have hbefore : ¬ channel.ended = true := by
    intro h
    rw [ended_read h] at hopen
    cases hopen
  have hbefore' : ¬ (channel.extend more).ended = true := hbefore
  have hnext : (next channel.device).1 ≠ .nothing := by
    intro h
    rw [read, if_neg hbefore] at hopen
    rcases hd : next channel.device with ⟨outcome, rest⟩
    rw [hd] at h hopen
    obtain rfl : outcome = .nothing := h
    cases hopen
  have happend : next (channel.extend more).device = _ := next_append more hnext
  rw [read, if_neg hbefore', happend, read, if_neg hbefore]
  rcases hd : next channel.device with ⟨outcome, rest⟩
  rw [hd] at hnext
  cases outcome with
  | byte b => rfl
  | nothing => exact absurd rfl hnext
  | failed failure => rfl

end InputChannel

namespace Console

def extend (c : Console) (more : List ReadOutcome) : Console :=
  { c with input := c.input.extend more }

theorem extend_ofBytes (x y : Bytes) :
    (ofBytes x).extend (y.map ReadOutcome.byte) = ofBytes (x ++ y) := by
  rw [ofBytes, ofBytes, InputChannel.ofBytes, InputChannel.ofBytes, List.map_append]
  rfl

theorem unread_extend (c : Console) (bytes : Bytes) :
    (c.extend (bytes.map ReadOutcome.byte)).unread = c.unread ++ bytes := by
  rw [unread, extend, InputChannel.extend, List.filterMap_append, filterMap_byte]
  rfl

theorem ended_serve {c : Console} {q : Request} (h : c.input.ended = true) :
    (c.serve q).2.input.ended = true := by
  cases q with
  | nothing => exact h
  | read => exact InputChannel.ended_read h
  | write b => exact h

theorem serve_extend {c : Console} {q : Request} (more : List ReadOutcome)
    (hopen : (c.serve q).2.input.ended = false) :
    (c.extend more).serve q = ((c.serve q).1, (c.serve q).2.extend more) := by
  cases q with
  | nothing => rfl
  | read =>
    have hread := InputChannel.read_extend more hopen
    change ((c.input.extend more).read.1, Console.mk (c.input.extend more).read.2 c.output) = _
    rw [hread]
    rfl
  | write b => rfl

theorem simulation_extend (more : List ReadOutcome) :
    Simulation (fun c => c.input.ended = false) (fun c d => d = c.extend more) where
  valid_before {c q} hopen := by
    rw [Bool.eq_false_iff]
    intro hended
    rw [ended_serve hended] at hopen
    cases hopen
  answer {c d q} hd hopen := by
    rw [hd, serve_extend more hopen]
  after {c d q} hd hopen := by
    rw [hd, serve_extend more hopen]

end Console

namespace Machine

/-- As long as the end of the input has not been seen, more input changes nothing: neither the
state, nor the trace, nor the bytes read and written, nor the result of any step. -/
theorem steps_append_input (p : Program) (config : Config) (x y : Bytes) (k : Nat)
    (hopen : (steps k (boot p (.ofBytes x) config)).console.input.ended = false) :
    let m := steps k (boot p (.ofBytes x) config)
    let n := steps k (boot p (.ofBytes (x ++ y)) config)
    n.core = m.core ∧ n.status = m.status ∧ n.rows = m.rows ∧
      n.console.input.taken = m.console.input.taken ∧ n.console.output = m.console.output ∧
      n.console.unread = m.console.unread ++ y ∧
      ∀ j < k, (steps j (boot p (.ofBytes (x ++ y)) config)).stepFault? =
        (steps j (boot p (.ofBytes x) config)).stepFault? := by
  intro m n
  have hstart : Lockstep (fun c d => d = c.extend (y.map ReadOutcome.byte))
      (boot p (.ofBytes x) config) (boot p (.ofBytes (x ++ y)) config) := by
    refine ⟨rfl, rfl, ?_, fun _ => rfl⟩
    rw [boot, boot, ← Console.extend_ofBytes]
    rfl
  obtain ⟨hk, hfaults⟩ := hstart.steps (Console.simulation_extend _) rfl hopen
  have hrecord : m.config.recordRows = n.config.recordRows := by
    rw [(steps_settings k _).1, (steps_settings k _).1]
    rfl
  have hconsole : n.console = m.console.extend (y.map ReadOutcome.byte) := hk.console
  refine ⟨hk.core.symm, hk.status.symm, (hk.rows hrecord).symm, ?_, ?_, ?_, ?_⟩
  · rw [hconsole]
    rfl
  · rw [hconsole]
    rfl
  · rw [hconsole, Console.unread_extend]
  · exact fun j hj => (hfaults j hj).symm

/-- Three steps that read one byte of two and write it. -/
theorem steps_append_input_echo :
    let p : Program := [0xB0000001, 0xA0000001, 0x70000000]
    let m := steps 3 (boot p (.ofBytes [65]) {})
    let n := steps 3 (boot p (.ofBytes [65, 66]) {})
    m.console.input.ended = false ∧ m.status = .halted ∧ m.console.delivered = [65] ∧
      n.core = m.core ∧ n.status = .halted ∧ n.console.delivered = [65] ∧
      n.console.unread = [66] := by
  intro p m n
  have hopen : m.console.input.ended = false := by decide
  have hstatus : m.status = .halted := by decide
  have hdelivered : m.console.delivered = [65] := by decide
  have hunread : m.console.unread = [] := by decide
  obtain ⟨hcore, hstop, -, -, houtput, hrest, -⟩ := steps_append_input p {} [65] [66] 3 hopen
  refine ⟨hopen, hstatus, hdelivered, hcore, hstop.trans hstatus, ?_, ?_⟩
  · exact (congrArg (fun output => output.delivered.toList) houtput).trans hdelivered
  · exact hrest.trans (congrArg (· ++ [66]) hunread)

end Machine

end UniversalMachine
