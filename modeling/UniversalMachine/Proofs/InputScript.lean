import UniversalMachine.Console
import Mathlib.Data.List.Infix

/-! Reads from a device that may fail, be interrupted or end.
Interrupted calls are made again and the first empty answer of the device ends the input, so what is
left of a script are its bytes and its other failures, in their order. Reads hand them out one by
one, and behind the last of them the device is left alone. -/

namespace UniversalMachine

namespace ReadOutcome

def isInterrupted : ReadOutcome → Bool
  | failed failure => failure.kind == .interrupted
  | _ => false

def isByte : ReadOutcome → Bool
  | byte _ => true
  | _ => false

/-- What a script delivers: its entries without the interruptions, up to the first that gives no
byte. -/
def deliveries (script : List ReadOutcome) : List ReadOutcome :=
  (script.filter fun outcome => !outcome.isInterrupted).takeWhile (· != .nothing)

/-- What a read answers to a delivery, or behind the last one. -/
def told : Option ReadOutcome → Except Failure Word
  | some (byte b) => .ok b.toUInt32
  | some (failed failure) => .error failure
  | some nothing | none => .ok 0xFFFFFFFF

/-- Whether a read has answered with a byte. -/
def gaveByte : Except Failure Word → Bool
  | .ok w => w != 0xFFFFFFFF
  | .error _ => false

theorem deliveries_cons_of_interrupted {outcome : ReadOutcome} (h : outcome.isInterrupted = true)
    (rest : List ReadOutcome) : deliveries (outcome :: rest) = deliveries rest := by
  simp [deliveries, h]

theorem deliveries_cons {outcome : ReadOutcome} (h : outcome.isInterrupted = false)
    (hsome : outcome ≠ .nothing) (rest : List ReadOutcome) :
    deliveries (outcome :: rest) = outcome :: deliveries rest := by
  simp [deliveries, h, hsome]

/-- No byte is taken for the end of the input. -/
theorem gaveByte_told (outcome : ReadOutcome) :
    gaveByte (told (some outcome)) = outcome.isByte := by
  cases outcome with
  | nothing => rfl
  | failed failure => rfl
  | byte b =>
    have hne : b.toUInt32 ≠ 0xFFFFFFFF := by
      intro heq
      have hlt := b.toNat_lt
      have hnat : b.toUInt32.toNat = 4294967295 := congrArg UInt32.toNat heq
      rw [UInt8.toNat_toUInt32] at hnat
      omega
    exact bne_iff_ne.mpr hne

end ReadOutcome

open ReadOutcome

namespace InputChannel

/-- A device is called until it ends or delivers something, and then it has the other deliveries
left. -/
theorem next_cases (device : List ReadOutcome) :
    (next device).1 = .nothing ∧ deliveries device = [] ∨
      (next device).1 ≠ .nothing ∧ (next device).1.isInterrupted = false ∧
        deliveries device = (next device).1 :: deliveries (next device).2 := by
  induction device with
  | nil => exact Or.inl ⟨rfl, rfl⟩
  | cons outcome rest ih =>
    cases outcome with
    | nothing => exact Or.inl ⟨rfl, rfl⟩
    | byte b =>
      have hsome : byte b ≠ .nothing := ReadOutcome.noConfusion
      exact Or.inr ⟨hsome, rfl, deliveries_cons rfl hsome rest⟩
    | failed failure =>
      by_cases hkind : failure.kind = .interrupted
      · have hskip : (failed failure).isInterrupted = true := beq_iff_eq.mpr hkind
        simpa only [next, hkind, if_true, deliveries_cons_of_interrupted hskip] using ih
      · have hkeep : (failed failure).isInterrupted = false := beq_false_of_ne hkind
        have hsome : failed failure ≠ .nothing := ReadOutcome.noConfusion
        simp only [next, hkind, if_false]
        exact Or.inr ⟨hsome, hkeep, deliveries_cons hkeep hsome rest⟩

theorem next_suffix (device : List ReadOutcome) : (next device).2 <:+ device := by
  fun_induction next device with
  | case1 => exact List.suffix_refl []
  | case2 failure rest hkind ih => exact ih.trans (List.suffix_cons _ _)
  | case3 failure rest hkind => exact List.suffix_cons _ _
  | case4 outcome rest hfailed => exact List.suffix_cons _ _

variable {channel : InputChannel}

theorem read_of_ended (h : channel.ended = true) : channel.read = (.ok 0xFFFFFFFF, channel) := by
  rw [read, if_pos h]
  rfl

theorem read_of_open (h : channel.ended = false) :
    channel.read = (told (some (next channel.device).1),
      ⟨(next channel.device).2, (next channel.device).1 == .nothing,
        channel.taken + (next channel.device).1.isByte.toNat⟩) := by
  simp only [read, h]
  generalize next channel.device = found
  obtain ⟨outcome, rest⟩ := found
  cases outcome <;> rfl

/-- What is left on the device behind a read is an end of what was there before. -/
theorem read_suffix (channel : InputChannel) : channel.read.2.device <:+ channel.device := by
  by_cases hended : channel.ended = true
  · rw [read_of_ended hended]
  · rw [read_of_open (Bool.eq_false_iff.mpr hended)]
    exact next_suffix channel.device

/-- The bytes handed out are counted. -/
theorem taken_read (channel : InputChannel) :
    channel.read.2.taken = channel.taken + (gaveByte channel.read.1).toNat := by
  by_cases hended : channel.ended = true
  · rw [read_of_ended hended]
    rfl
  · rw [read_of_open (Bool.eq_false_iff.mpr hended), gaveByte_told]

/-- A failure is passed on as it is and ends nothing. -/
theorem read_error {failure : Failure} (h : channel.read.1 = .error failure) :
    failure.kind ≠ .interrupted ∧ channel.read.2.ended = false := by
  by_cases hended : channel.ended = true
  · rw [read_of_ended hended] at h
    cases h
  · rw [read_of_open (Bool.eq_false_iff.mpr hended)] at h ⊢
    obtain ⟨hnothing, -⟩ | ⟨hsome, hkind, -⟩ := next_cases channel.device
    · rw [hnothing] at h
      cases h
    · refine ⟨?_, beq_false_of_ne hsome⟩
      generalize next channel.device = found at h hkind
      obtain ⟨outcome, rest⟩ := found
      cases outcome with
      | nothing => cases h
      | byte b => cases h
      | failed other =>
        cases h
        exact ne_of_beq_false hkind

/-- A channel that has been read `n` times, each time with the next delivery of the script. -/
structure Following (script : List ReadOutcome) (n : Nat) (channel : InputChannel) : Prop where
  ended_iff : channel.ended = true ↔ (deliveries script).length < n
  left : channel.ended = false → deliveries channel.device = (deliveries script).drop n

theorem following_ofDevice (script : List ReadOutcome) : Following script 0 (ofDevice script) := by
  refine ⟨?_, fun _ => rfl⟩
  simp [ofDevice]

variable {script : List ReadOutcome} {n : Nat}

theorem Following.read (h : Following script n channel) :
    channel.read.1 = told (deliveries script)[n]? ∧ Following script (n + 1) channel.read.2 := by
  by_cases hended : channel.ended = true
  · have hlength := h.ended_iff.mp hended
    rw [read_of_ended hended, List.getElem?_eq_none (Nat.le_of_lt hlength)]
    refine ⟨rfl, ?_, ?_⟩
    · exact ⟨fun _ => Nat.lt_succ_of_lt hlength, fun _ => hended⟩
    · intro hopen
      rw [hended] at hopen
      cases hopen
  · have hopen := Bool.eq_false_iff.mpr hended
    have hle : n ≤ (deliveries script).length := Nat.le_of_not_lt (mt h.ended_iff.mpr hended)
    have hleft := h.left hopen
    rw [read_of_open hopen]
    obtain ⟨hnothing, hnil⟩ | ⟨hsome, -, hcons⟩ := next_cases channel.device
    · -- nothing is left, so this read sees the end
      have hlength : (deliveries script).length ≤ n := by
        rw [hnil] at hleft
        exact List.drop_eq_nil_iff.mp hleft.symm
      rw [List.getElem?_eq_none hlength, hnothing]
      refine ⟨rfl, ?_, nofun⟩
      exact ⟨fun _ => Nat.lt_succ_of_le hlength, fun _ => rfl⟩
    · rw [hleft] at hcons
      have hlt : n < (deliveries script).length := by
        by_contra hge
        rw [List.drop_eq_nil_of_le (Nat.le_of_not_lt hge)] at hcons
        cases hcons
      rw [List.drop_eq_getElem_cons hlt] at hcons
      obtain ⟨hfirst, hrest⟩ := List.cons.inj hcons
      rw [List.getElem?_eq_getElem hlt, hfirst]
      refine ⟨rfl, ?_, fun _ => hrest.symm⟩
      simp only [beq_iff_eq]
      exact ⟨fun hnothing => absurd hnothing hsome, fun hover => absurd hover (by omega)⟩

end InputChannel

namespace Console

/-- The console behind a number of reads. -/
def afterReads (c : Console) : Nat → Console
  | 0 => c
  | n + 1 => (c.afterReads n).read.2

/-- The console with another device in the place of its own. -/
def withDevice (c : Console) (device : List ReadOutcome) : Console :=
  { c with input := { c.input with device } }

variable {c : Console}

theorem afterReads_of_ended (h : c.input.ended = true) (n : Nat) : c.afterReads n = c := by
  induction n with
  | zero => rfl
  | succ n ih =>
    rw [afterReads, ih, read, InputChannel.read_of_ended h]

theorem afterReads_following (script : List ReadOutcome) (output : OutputChannel) (n : Nat) :
    ((Console.mk (.ofDevice script) output).afterReads n).input.Following script n := by
  induction n with
  | zero => exact InputChannel.following_ofDevice script
  | succ n ih => exact ih.read.2

theorem afterReads_taken (c : Console) (n : Nat) :
    (c.afterReads n).input.taken =
      c.input.taken + (List.range n).countP fun i => gaveByte (c.afterReads i).read.1 := by
  induction n with
  | zero => rfl
  | succ n ih =>
    have hstep : (c.afterReads (n + 1)).input.taken =
        (c.afterReads n).input.taken + (gaveByte (c.afterReads n).read.1).toNat :=
      InputChannel.taken_read (c.afterReads n).input
    rw [hstep, ih, List.range_succ, List.countP_append, List.countP_singleton, Nat.add_assoc]
    cases gaveByte (c.afterReads n).read.1 <;> rfl

/-- Reads neither lose nor repeat anything. The reads answer the deliveries of the script one after
the other, and from then on they see the end. It is seen by the first read behind the last delivery
and not by a failure, and whatever the device would give afterwards stays there. The count is that
of the bytes answered, and each read takes finitely many entries off the device. -/
theorem reads_follow_script (script : List ReadOutcome) (output : OutputChannel) (j : Nat) :
    let s := deliveries script
    let start := Console.mk (.ofDevice script) output
    let c := start.afterReads j
    c.read.1 = told s[j]? ∧
    (c.input.ended = true ↔ ∃ i < j, s.length ≤ i) ∧
    (c.input.ended = true → ∀ device n,
      (c.withDevice device).afterReads n = c.withDevice device ∧
        (c.withDevice device).read.1 = .ok 0xFFFFFFFF) ∧
    (∀ failure, c.read.1 = .error failure →
      failure.kind ≠ .interrupted ∧ c.read.2.input.ended = false) ∧
    c.input.taken = (List.range j).countP (fun i => gaveByte (start.afterReads i).read.1) ∧
    c.read.2.input.device <:+ c.input.device := by
  intro s start c
  have hfollowing : c.input.Following script j := afterReads_following script output j
  refine ⟨hfollowing.read.1, ?_, ?_, ?_, ?_, InputChannel.read_suffix c.input⟩
  · rw [hfollowing.ended_iff]
    constructor
    · intro hlt
      exact ⟨j - 1, by omega, Nat.le_sub_one_of_lt hlt⟩
    · rintro ⟨i, hi, hle⟩
      exact Nat.lt_of_le_of_lt hle hi
  · intro hended device n
    have hended' : (c.withDevice device).input.ended = true := hended
    refine ⟨afterReads_of_ended hended' n, ?_⟩
    rw [read, InputChannel.read_of_ended hended']
  · intro failure herror
    exact InputChannel.read_error herror
  · rw [afterReads_taken start j]
    exact Nat.zero_add _

/-- A byte behind an interruption, a failure between bytes and the end, and a byte that the device
would give behind the end. -/
theorem reads_follow_script_past_end :
    let broken : Failure := ⟨.named "BrokenPipe", "closed"⟩
    let cut : ReadOutcome := .failed ⟨.interrupted, "signal"⟩
    let script := [cut, .byte 7, .failed broken, cut, .nothing, .byte 9]
    let start := Console.mk (.ofDevice script) .collecting
    (start.afterReads 0).read.1 = .ok 7 ∧ (start.afterReads 1).read.1 = .error broken ∧
    (start.afterReads 2).input.ended = false ∧ (start.afterReads 2).read.1 = .ok 0xFFFFFFFF ∧
    (start.afterReads 3).input.ended = true ∧ (start.afterReads 5).input.device = [.byte 9] ∧
    (start.afterReads 5).input.taken = 1 := by
  intro broken cut script start
  have told_at := fun j => (reads_follow_script script .collecting j).1
  have ended_at := fun j => (reads_follow_script script .collecting j).2.1
  obtain ⟨-, -, hkept, -⟩ := reads_follow_script script .collecting 3
  obtain ⟨-, -, -, -, htaken, -⟩ := reads_follow_script script .collecting 5
  have hended : (start.afterReads 3).input.ended = true :=
    (ended_at 3).mpr ⟨2, by decide, by decide⟩
  refine ⟨told_at 0, told_at 1, ?_, told_at 2, hended, ?_, htaken⟩
  · rw [Bool.eq_false_iff, ne_eq, ended_at 2]
    rintro ⟨i, hi, hle⟩
    have hlength : (deliveries script).length = 2 := rfl
    omega
  · have hsame := (hkept hended [.byte 9] 2).1
    exact congrArg (fun c => c.input.device) hsame

end Console

end UniversalMachine
