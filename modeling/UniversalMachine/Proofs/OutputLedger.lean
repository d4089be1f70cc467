import UniversalMachine.Console
import Mathlib.Data.List.Induction

/-! What becomes of the bytes that are written.
A call to write has two phases: the device takes the byte or refuses it, and then the byte may be
flushed. What the device answers in each phase is fixed by its script and by the calls before, and
from that the delivered bytes, the answers and the counts of a whole history of calls can be told.
-/

namespace UniversalMachine

/-- The calls on the output of a console. -/
inductive OutputCall where
  | write (b : UInt8)
  | flush
  | setFlushing (on : Bool)
  deriving DecidableEq, Repr

namespace OutputCall

def isWrite : OutputCall → Bool
  | write _ => true
  | _ => false

/-- What a call turns the flushes to. -/
def switch? : OutputCall → Option Bool
  | setFlushing on => some on
  | _ => none

/-- Each call together with the calls before it. -/
def occasionsAfter (before : List OutputCall) :
    List OutputCall → List (List OutputCall × OutputCall)
  | [] => []
  | call :: rest => (before, call) :: occasionsAfter (before ++ [call]) rest

def occasions (calls : List OutputCall) : List (List OutputCall × OutputCall) :=
  occasionsAfter [] calls

theorem occasions_concat (calls : List OutputCall) (call : OutputCall) :
    occasions (calls ++ [call]) = occasions calls ++ [(calls, call)] := by
  suffices h : ∀ before, occasionsAfter before (calls ++ [call]) =
      occasionsAfter before calls ++ [(before ++ calls, call)] from h []
  induction calls with
  | nil =>
    intro before
    simp [occasionsAfter]
  | cons first rest ih =>
    intro before
    simp [occasionsAfter, ih]

theorem countP_occasions_concat (p : List OutputCall × OutputCall → Bool)
    (calls : List OutputCall) (call : OutputCall) :
    (occasions (calls ++ [call])).countP p =
      (occasions calls).countP p + (p (calls, call)).toNat := by
  rw [occasions_concat, List.countP_append, List.countP_singleton]
  cases p (calls, call) <;> rfl

end OutputCall

namespace WriteOutcome

def isInterrupted : WriteOutcome → Bool
  | failed failure => failure.kind == .interrupted
  | _ => false

/-- The failure of a write whose byte the device has not taken. -/
def refusal? : WriteOutcome → Option Failure
  | accepted => none
  | nothing => some ⟨.writeZero, "failed to write whole buffer"⟩
  | failed failure => some failure

/-- The outcomes of a script that are not made good by a further call. -/
def final (script : List WriteOutcome) : List WriteOutcome :=
  script.filter fun outcome => !outcome.isInterrupted

end WriteOutcome

open OutputCall WriteOutcome

/-- The answers of an output device. -/
structure OutputScript where
  writes : List WriteOutcome
  flushes : List (Option Failure)
  deriving DecidableEq, Repr

namespace OutputScript

variable (script : OutputScript)

/-- What the device answers to the byte of the next write. -/
def writePhase (before : List OutputCall) : WriteOutcome :=
  (final script.writes)[before.countP isWrite]?.getD .accepted

/-- Whether flushes are on: as they were switched last, and on at first. -/
def flushing (before : List OutputCall) : Bool := (before.filterMap switch?).getLast?.getD true

/-- Whether a call flushes the device. A write does so only with a byte that the device took. -/
def callsFlush : List OutputCall × OutputCall → Bool
  | (before, .write _) => script.writePhase before == .accepted && flushing before
  | (_, .flush) => true
  | (_, .setFlushing _) => false

/-- The failure of the next flush. -/
def flushPhase (before : List OutputCall) : Option Failure :=
  script.flushes[(occasions before).countP script.callsFlush]?.join

/-- The byte that a call brings to the device. -/
def emitted? : List OutputCall × OutputCall → Option UInt8
  | (before, .write b) => if script.writePhase before = .accepted then some b else none
  | _ => none

/-- Whether a call is a write that fails only when its byte is flushed. -/
def failsInFlush : List OutputCall × OutputCall → Bool
  | (before, .write b) => script.callsFlush (before, .write b) && (script.flushPhase before).isSome
  | _ => false

end OutputScript

open OutputScript

namespace OutputChannel

theorem next_final (writes : List WriteOutcome) :
    (next writes).1 = (final writes)[0]?.getD .accepted ∧
      final (next writes).2 = (final writes).drop 1 := by
  induction writes with
  | nil => exact ⟨rfl, rfl⟩
  | cons outcome rest ih =>
    cases outcome with
    | accepted => exact ⟨rfl, rfl⟩
    | nothing => exact ⟨rfl, rfl⟩
    | failed failure =>
      by_cases hkind : failure.kind = .interrupted
      · have hskip : final (.failed failure :: rest) = final rest := by
          simp [final, isInterrupted, hkind]
        simpa only [next, hkind, if_true, hskip] using ih
      · have hkeep : final (.failed failure :: rest) = .failed failure :: final rest := by
          simp [final, isInterrupted, hkind]
        simp only [next, hkind, if_false, hkeep]
        exact ⟨rfl, rfl⟩

section Phases

variable (channel : OutputChannel)

/-- Whether the device will take the next byte. -/
def accepts : Bool := (next channel.writes).1 == .accepted

/-- Whether the next write will flush the device. -/
def willFlush : Bool := channel.accepts && channel.flushing

/-- Whether the next write will fail in its flush. -/
def willFail : Bool := channel.willFlush && channel.nextFlush.failure.isSome

/-- The failure of the next write, in its first phase or in its second. -/
def failure? : Option Failure :=
  (next channel.writes).1.refusal?.or
    (if channel.flushing then channel.nextFlush.failure else none)

theorem flush_eq :
    channel.flush = (channel.nextFlush.failure.elim (.ok ()) .error,
      { channel with
        writes := channel.nextFlush.writes.getD channel.writes
        flushes := channel.flushes.tail
        flushCalls := channel.flushCalls + 1 }) := by
  rw [flush]
  cases channel.nextFlush.failure <;> rfl

/-- A byte is delivered if the device takes it, the device is flushed if it has taken the byte and
flushes are on, and the byte is counted if neither phase fails. -/
theorem write_eq (b : UInt8) :
    channel.write b = (channel.failure?.elim (.ok ()) .error,
      { writes := (if channel.willFlush then channel.nextFlush.writes else none).getD
          (next channel.writes).2
        flushes := channel.flushes.drop channel.willFlush.toNat
        flushing := channel.flushing
        delivered := if channel.accepts then channel.delivered.push b else channel.delivered
        flushCalls := channel.flushCalls + channel.willFlush.toNat
        written := channel.written + (channel.accepts && !channel.willFail).toNat }) := by
  rcases hnext : next channel.writes with ⟨outcome, rest⟩
  have haccepts : channel.accepts = (outcome == .accepted) := by rw [accepts, hnext]
  cases outcome with
  | nothing =>
    have hrefused : channel.accepts = false := haccepts
    simp [write, deliver, failure?, willFlush, hnext, hrefused, refusal?, Failure.nothingWritten]
  | failed failure =>
    have hrefused : channel.accepts = false := haccepts
    simp [write, deliver, failure?, willFlush, hnext, hrefused, refusal?]
  | accepted =>
    have htaken : channel.accepts = true := haccepts
    cases hon : channel.flushing with
    | false =>
      simp [write, deliver, failure?, willFail, willFlush, count, hnext, htaken, hon, refusal?]
    | true =>
      have hsame (flushing : Bool) (delivered : Array UInt8) :
          nextFlush { channel with writes := rest, flushing, delivered } = channel.nextFlush := rfl
      cases hflush : channel.nextFlush.failure <;>
      simp [write, deliver, flush_eq, failure?, willFail, willFlush, count, hnext, htaken, hon,
        hflush, hsame, refusal?]

theorem failure?_eq_none_iff :
    channel.failure? = none ↔ channel.accepts = true ∧ channel.willFail = false := by
  rcases hnext : next channel.writes with ⟨outcome, rest⟩
  have haccepts : channel.accepts = (outcome == .accepted) := by rw [accepts, hnext]
  cases outcome with
  | nothing => simp [failure?, hnext, haccepts, refusal?]
  | failed failure => simp [failure?, hnext, haccepts, refusal?]
  | accepted => cases hon : channel.flushing <;>
      simp [failure?, hnext, haccepts, refusal?, willFail, willFlush, hon]

/-- A write that succeeds is counted, and no other. -/
theorem written_write (b : UInt8) :
    (channel.write b).2.written = channel.written + (channel.write b).1.isOk.toNat := by
  have hok : (channel.write b).1.isOk = (channel.accepts && !channel.willFail) := by
    rw [Bool.eq_iff_iff, Bool.and_eq_true, Bool.not_eq_true', ← failure?_eq_none_iff, write_eq]
    cases channel.failure? <;> simp [Except.isOk, Except.toBool]
  rw [hok, write_eq]

end Phases

/-- A channel that has served some calls: what is left of its script, and the totals. -/
structure Account (script : OutputScript) (calls : List OutputCall) (channel : OutputChannel) :
    Prop where
  writes_left : final channel.writes = (final script.writes).drop (calls.countP isWrite)
  flushes_left : channel.flushes =
    (script.flushes.drop channel.flushCalls).map fun failure => ⟨failure, none⟩
  flushing_eq : channel.flushing = OutputScript.flushing calls
  flushCalls_eq : channel.flushCalls = (occasions calls).countP script.callsFlush
  delivered_eq : channel.delivered.toList = (occasions calls).filterMap script.emitted?
  balance : channel.delivered.size =
    channel.written + (occasions calls).countP script.failsInFlush

theorem account_ofDevice (script : OutputScript) :
    Account script [] (ofDevice script.writes script.flushes) := by
  constructor <;> rfl

namespace Account

variable {script : OutputScript} {calls : List OutputCall} {channel : OutputChannel}

theorem next_eq (h : Account script calls channel) :
    (next channel.writes).1 = script.writePhase calls := by
  rw [(next_final channel.writes).1, h.writes_left, List.getElem?_drop]
  rfl

theorem nextFlush_eq (h : Account script calls channel) :
    channel.nextFlush = ⟨script.flushPhase calls, none⟩ := by
  rw [nextFlush, h.flushes_left, List.headD_eq_head?_getD, List.head?_map, List.head?_drop,
    h.flushCalls_eq, flushPhase]
  cases script.flushes[(occasions calls).countP script.callsFlush]? <;> rfl

theorem accepts_eq (h : Account script calls channel) :
    channel.accepts = (script.writePhase calls == .accepted) := by
  rw [accepts, h.next_eq]

theorem willFlush_eq (h : Account script calls channel) (b : UInt8) :
    channel.willFlush = script.callsFlush (calls, .write b) := by
  rw [willFlush, h.accepts_eq, h.flushing_eq]
  rfl

theorem willFail_eq (h : Account script calls channel) (b : UInt8) :
    channel.willFail = script.failsInFlush (calls, .write b) := by
  rw [willFail, h.willFlush_eq b, h.nextFlush_eq]
  rfl

theorem write (h : Account script calls channel) (b : UInt8) :
    Account script (calls ++ [.write b]) (channel.write b).2 := by
  have haccepts := h.accepts_eq
  have hflush := h.willFlush_eq b
  have hfail := h.willFail_eq b
  have hkept : (if channel.willFlush then channel.nextFlush.writes else none) = none := by
    rw [h.nextFlush_eq]
    exact ite_self none
  rw [write_eq, hkept, Option.getD_none]
  constructor
  · have hrest := (next_final channel.writes).2
    rw [h.writes_left, List.drop_drop] at hrest
    simpa [List.countP_append, isWrite] using hrest
  · rw [h.flushes_left, ← List.map_drop, List.drop_drop]
  · simpa [OutputScript.flushing, switch?] using h.flushing_eq
  · rw [countP_occasions_concat, ← h.flushCalls_eq, ← hflush]
  · rw [occasions_concat, List.filterMap_append, ← h.delivered_eq]
    by_cases hphase : script.writePhase calls = .accepted
    · simp [haccepts, hphase, emitted?]
    · simp [haccepts, hphase, emitted?]
  · -- a byte that the device takes is counted, or its flush fails
    have hbalance := h.balance
    rw [countP_occasions_concat, ← hfail]
    cases htaken : channel.accepts with
    | false =>
      have hnever : channel.willFail = false := by simp [willFail, willFlush, htaken]
      simpa [hnever] using hbalance
    | true =>
      simp only [if_true, Array.size_push, Bool.true_and]
      cases channel.willFail <;> simp only [Bool.not_true, Bool.not_false, Bool.toNat_true,
        Bool.toNat_false] <;> omega

theorem flush (h : Account script calls channel) :
    Account script (calls ++ [.flush]) channel.flush.2 := by
  rw [flush_eq, h.nextFlush_eq]
  constructor
  · simpa [isWrite] using h.writes_left
  · rw [← List.drop_one, h.flushes_left, ← List.map_drop, List.drop_drop]
  · simpa [OutputScript.flushing, switch?] using h.flushing_eq
  · rw [countP_occasions_concat, ← h.flushCalls_eq]
    rfl
  · rw [occasions_concat, List.filterMap_append, ← h.delivered_eq]
    exact (List.append_nil _).symm
  · rw [countP_occasions_concat]
    exact h.balance

theorem setFlushing (h : Account script calls channel) (on : Bool) :
    Account script (calls ++ [.setFlushing on]) { channel with flushing := on } := by
  constructor
  · simpa [isWrite] using h.writes_left
  · exact h.flushes_left
  · simp [OutputScript.flushing, switch?]
  · simpa [countP_occasions_concat, callsFlush] using h.flushCalls_eq
  · rw [occasions_concat, List.filterMap_append, ← h.delivered_eq]
    exact (List.append_nil _).symm
  · rw [countP_occasions_concat]
    exact h.balance

theorem failure?_eq (h : Account script calls channel) :
    channel.failure? = (script.writePhase calls).refusal?.or
      (if OutputScript.flushing calls then script.flushPhase calls else none) := by
  rw [failure?, h.next_eq, h.nextFlush_eq, h.flushing_eq]

theorem write_ok_iff (h : Account script calls channel) (b : UInt8) :
    (channel.write b).1 = .ok () ↔ script.writePhase calls = .accepted ∧
      (OutputScript.flushing calls = true → script.flushPhase calls = none) := by
  have hanswer : (channel.write b).1 = .ok () ↔ channel.failure? = none := by
    rw [write_eq]
    cases channel.failure? <;> simp
  rw [hanswer, h.failure?_eq, Option.or_eq_none_iff]
  apply and_congr
  · cases script.writePhase calls <;> simp [refusal?]
  · cases OutputScript.flushing calls <;> simp

/-- A refused byte changes nothing but what is left of the script. -/
theorem write_refused (h : Account script calls channel) (b : UInt8) {failure : Failure}
    (hrefusal : (script.writePhase calls).refusal? = some failure) :
    channel.write b = (.error failure, { channel with writes := (next channel.writes).2 }) := by
  have haccepts : channel.accepts = false := by
    rw [h.accepts_eq]
    apply beq_false_of_ne
    intro haccepted
    rw [haccepted] at hrefusal
    cases hrefusal
  rw [write_eq, h.failure?_eq, hrefusal]
  simp [willFlush, haccepts]

/-- A byte whose flush fails has been delivered. -/
theorem write_failsInFlush (h : Account script calls channel) {b : UInt8}
    (hfails : script.failsInFlush (calls, .write b) = true) :
    ∃ failure, script.flushPhase calls = some failure ∧ (channel.write b).1 = .error failure ∧
      (channel.write b).2.delivered = channel.delivered.push b := by
  simp only [failsInFlush, callsFlush, Bool.and_eq_true, beq_iff_eq] at hfails
  obtain ⟨⟨haccepted, hon⟩, hsome⟩ := hfails
  obtain ⟨failure, hfailure⟩ := Option.isSome_iff_exists.mp hsome
  have haccepts : channel.accepts = true := by rw [h.accepts_eq, haccepted]; rfl
  refine ⟨failure, hfailure, ?_, ?_⟩
  · rw [write_eq, h.failure?_eq, haccepted, hon, hfailure]
    rfl
  · rw [write_eq, haccepts]
    rfl

end Account

end OutputChannel

namespace Console

/-- Makes one call on the output. -/
def call (c : Console) : OutputCall → Except Failure Unit × Console
  | .write b => c.write b
  | .flush => c.flush
  | .setFlushing on => (.ok (), c.setFlushing on)

def afterCalls (c : Console) (calls : List OutputCall) : Console :=
  calls.foldl (fun c call => (c.call call).2) c

theorem call_account {script : OutputScript} {calls : List OutputCall} {c : Console}
    (h : c.output.Account script calls) (call : OutputCall) :
    (c.call call).2.output.Account script (calls ++ [call]) := by
  cases call with
  | write b => exact h.write b
  | flush => exact h.flush
  | setFlushing on => exact h.setFlushing on

theorem written_call (c : Console) (call : OutputCall) :
    (c.call call).2.output.written =
      c.output.written + (call.isWrite && (c.call call).1.isOk).toNat := by
  cases call with
  | write b => exact c.output.written_write b
  | flush =>
    have hflush : (c.call .flush).2.output = c.output.flush.2 := rfl
    rw [hflush, OutputChannel.flush_eq]
    rfl
  | setFlushing on => rfl

/-- The console that has served some calls on a fresh device. -/
def served (input : InputChannel) (script : OutputScript) (calls : List OutputCall) : Console :=
  (Console.mk input (.ofDevice script.writes script.flushes)).afterCalls calls

section Served

variable (input : InputChannel) (script : OutputScript) (calls : List OutputCall)

theorem served_concat (call : OutputCall) :
    served input script (calls ++ [call]) = ((served input script calls).call call).2 := by
  rw [served, afterCalls, List.foldl_append]
  rfl

theorem served_account : (served input script calls).output.Account script calls := by
  induction calls using List.reverseRecOn with
  | nil => exact OutputChannel.account_ofDevice script
  | append_singleton calls call ih =>
    rw [served_concat]
    exact call_account ih call

theorem served_written :
    (served input script calls).output.written = (occasions calls).countP fun occasion =>
      occasion.2.isWrite && ((served input script occasion.1).call occasion.2).1.isOk := by
  induction calls using List.reverseRecOn with
  | nil => rfl
  | append_singleton calls call ih =>
    rw [served_concat, written_call, countP_occasions_concat, ih]

end Served

/-- The accounts of an output, after any calls and for the next byte. The device holds the bytes of
the writes that it has accepted, in their order. A write succeeds if the device accepts the byte and
the flush behind it, where flushes are on, does not fail; one that the device refuses leaves the
device as it was, without a flush. The count is that of the writes that have succeeded, and the
device holds one byte more for each write that has failed in its flush. -/
theorem output_accounts (input : InputChannel) (script : OutputScript) (calls : List OutputCall) :
    let c := served input script calls
    c.delivered = (occasions calls).filterMap script.emitted? ∧
    c.output.flushCalls = (occasions calls).countP script.callsFlush ∧
    c.output.written = (occasions calls).countP (fun occasion =>
      occasion.2.isWrite && ((served input script occasion.1).call occasion.2).1.isOk) ∧
    c.delivered.length = c.output.written + (occasions calls).countP script.failsInFlush ∧
    ∀ b,
      ((c.write b).1 = .ok () ↔ script.writePhase calls = .accepted ∧
        (flushing calls = true → script.flushPhase calls = none)) ∧
      (∀ failure, (script.writePhase calls).refusal? = some failure →
        (c.write b).1 = .error failure ∧ (c.write b).2.delivered = c.delivered ∧
          (c.write b).2.output.flushCalls = c.output.flushCalls) ∧
      (script.failsInFlush (calls, .write b) = true →
        ∃ failure, script.flushPhase calls = some failure ∧ (c.write b).1 = .error failure ∧
          (c.write b).2.delivered = c.delivered ++ [b]) := by
  intro c
  have haccount : c.output.Account script calls := served_account input script calls
  refine ⟨haccount.delivered_eq, haccount.flushCalls_eq, served_written input script calls,
    haccount.balance, fun b => ⟨haccount.write_ok_iff b, ?_, ?_⟩⟩
  · intro failure hrefusal
    have hwrite := haccount.write_refused b hrefusal
    rw [write, hwrite]
    exact ⟨rfl, rfl, rfl⟩
  · intro hfails
    obtain ⟨failure, hflush, herror, hdelivered⟩ := haccount.write_failsInFlush hfails
    refine ⟨failure, hflush, herror, ?_⟩
    exact (congrArg Array.toList hdelivered).trans Array.toList_push

/-- A byte taken behind an interruption and lost in its flush, one that the device does not take,
one that it refuses, and one that is written without a flush. -/
theorem output_accounts_each_failure :
    let broken : Failure := ⟨.named "BrokenPipe", "closed"⟩
    let full : Failure := ⟨.named "StorageFull", "full"⟩
    let script : OutputScript :=
      ⟨[.failed ⟨.interrupted, "signal"⟩, .accepted, .nothing, .failed broken], [some full]⟩
    let after := served (.ofBytes []) script
    ((after []).write 1).1 = .error full ∧ ((after []).write 1).2.delivered = [1] ∧
    ((after [.write 1]).write 2).1 = .error ⟨.writeZero, "failed to write whole buffer"⟩ ∧
    ((after [.write 1, .write 2]).write 3).1 = .error broken ∧
    ((after [.write 1, .write 2, .write 3, .setFlushing false]).write 4).1 = .ok () ∧
    let c := after [.write 1, .write 2, .write 3, .setFlushing false, .write 4]
    c.delivered = [1, 4] ∧ c.output.written = 1 ∧ c.output.flushCalls = 1 := by
  intro broken full script after
  have accounts := output_accounts (.ofBytes []) script
  obtain ⟨-, -, -, -, hfirst⟩ := accounts []
  obtain ⟨-, -, -, -, hsecond⟩ := accounts [.write 1]
  obtain ⟨-, -, -, -, hthird⟩ := accounts [.write 1, .write 2]
  obtain ⟨-, -, -, -, hfourth⟩ := accounts [.write 1, .write 2, .write 3, .setFlushing false]
  obtain ⟨failure, hflush, herror, hdelivered⟩ := (hfirst 1).2.2 (by decide)
  cases hflush
  obtain ⟨hbytes, hflushes, -, hbalance, -⟩ :=
    accounts [.write 1, .write 2, .write 3, .setFlushing false, .write 4]
  refine ⟨herror, hdelivered, ((hsecond 2).2.1 _ rfl).1, ((hthird 3).2.1 _ rfl).1,
    (hfourth 4).1.mpr ⟨by decide, by decide⟩, hbytes, ?_, hflushes⟩
  rw [hbytes] at hbalance
  exact (Nat.add_right_cancel hbalance).symm

end Console

end UniversalMachine
