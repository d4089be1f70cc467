import UniversalMachine.Proofs.Refinement
import UniversalMachine.Proofs.Stepping

/-! The exact conditions under which a step faults.
One table lists them by the operator of the word that is to be executed, with the class of the fault
and the data it carries. On an input held in memory a step faults exactly as the table says, and
never for the sake of a device. -/

namespace UniversalMachine

namespace Heap

variable {h : Heap} {index offset value size : Word} {e : HeapError}

/-- Why a word of a block cannot be reached, and the class of the fault. -/
inductive BadAccess (h : Heap) (index offset : Word) : Fault.Kind → HeapError → Prop where
  | dead : h.isLive index = false → BadAccess h index offset .outOfBoundsArray (.notLive index)
  | outside {b : Block} : h.block? index = some b → b.size ≤ offset.toNat →
      BadAccess h index offset .outOfBoundsOffset (.offsetOutOfBounds index offset b.size)

theorem isLive_eq_false_iff : h.isLive index = false ↔ h.block? index = none := by
  rw [isLive, Option.isSome_eq_false_iff, Option.isNone_iff_eq_none]

theorem read_eq_error_iff :
    h.read index offset = .error e ↔ ∃ kind, BadAccess h index offset kind e := by
  constructor
  · intro herror
    rw [read] at herror
    split at herror
    · rename_i hnone
      cases herror
      exact ⟨_, .dead (isLive_eq_false_iff.mpr hnone)⟩
    · rename_i b hb
      split at herror
      · rename_i hout
        cases herror
        exact ⟨_, .outside hb (Array.getElem?_eq_none_iff.mp hout)⟩
      · cases herror
  · rintro ⟨kind, hbad⟩
    cases hbad with
    | dead hdead => rw [read, isLive_eq_false_iff.mp hdead]
    | outside hb hout =>
      rw [read, hb]
      dsimp only
      rw [Array.getElem?_eq_none hout]

theorem write_eq_error_iff :
    (h.write index offset value).1 = .error e ↔ ∃ kind, BadAccess h index offset kind e := by
  rw [← read_eq_error_iff, write]
  rcases h.read index offset with e' | w
  · simp
  · simp

/-- On a host that does not run out of memory an allocation fails for its size or for want of an
index. -/
theorem allocate_eq_error_iff (hgranted : h.granted = none) :
    (h.allocate size).1 = .error e ↔
      h.limit < size ∧ e = .allocationTooLarge size h.limit ∨
        size ≤ h.limit ∧ h.free = [] ∧ UInt32.size ≤ h.slots.size ∧ e = .indicesExhausted := by
  rw [allocate_eq, hasMemory_of_none hgranted]
  by_cases hlimit : h.limit < size
  · rw [if_pos hlimit]
    have hgt : ¬ size ≤ h.limit := UInt32.not_le.mpr hlimit
    simp [hlimit, hgt, eq_comm]
  · rw [if_neg hlimit, if_neg (by decide)]
    have hle : size ≤ h.limit := UInt32.not_lt.mp hlimit
    by_cases hfull : h.free = [] ∧ UInt32.size ≤ h.slots.size
    · rw [if_pos hfull]
      simp [hlimit, hle, hfull, eq_comm]
    · rw [if_neg hfull]
      constructor
      · intro herror
        cases herror
      · rintro (⟨hgt, -⟩ | ⟨-, hempty, hsize, -⟩)
        · exact absurd hgt hlimit
        · exact absurd ⟨hempty, hsize⟩ hfull

theorem reclaim_eq_error_iff :
    (h.reclaim index).1 = .error e ↔
      (index = 0 ∨ h.isLive index = false) ∧ e = .invalidReclaim index := by
  rw [reclaim]
  by_cases hzero : index = 0
  · rw [if_pos hzero]
    simp [hzero, @eq_comm _ e]
  · rw [if_neg hzero]
    cases h.isLive index <;> simp [hzero, @eq_comm _ e]

theorem loadProgram_eq_error_iff (hne : index ≠ 0) :
    (h.loadProgram index).1 = .error e ↔ h.isLive index = false ∧ e = .notLive index := by
  rw [loadProgram, if_neg hne, isLive_eq_false_iff]
  rcases h.block? index with _ | block
  · simp [eq_comm]
  · simp

end Heap

theorem Console.InMemory.read_ok {c : Console} (hc : c.InMemory) :
    ∃ value after, c.read = (.ok value, after) := by
  rcases hu : c.unread with _ | ⟨b, rest⟩
  · exact ⟨_, _, hc.read_end hu⟩
  · exact ⟨_, _, hc.read_byte hu⟩

namespace Machine

open Abstract (operator registerA registerB registerC)

/-- The conditions under which the word `w`, fetched at `pc`, cannot be executed, by the number of
its operator. An operator that is not listed never faults. -/
inductive Refused (limit pc w : Word) (reg : Register → Word) (h : Heap) :
    Nat → Fault.Kind → Fault → Prop where
  | arrayIndex {kind : Fault.Kind} {e : HeapError} :
      h.BadAccess (reg (registerB w)) (reg (registerC w)) kind e →
      Refused limit pc w reg h 1 kind (.heap pc e)
  | arrayAmendment {kind : Fault.Kind} {e : HeapError} :
      h.BadAccess (reg (registerA w)) (reg (registerB w)) kind e →
      Refused limit pc w reg h 2 kind (.heap pc e)
  | division : reg (registerC w) = 0 →
      Refused limit pc w reg h 5 .divisionByZero (.divisionByZero pc)
  | allocationTooLarge : limit < reg (registerC w) →
      Refused limit pc w reg h 8 .allocationTooLarge
        (.heap pc (.allocationTooLarge (reg (registerC w)) limit))
  | indicesExhausted : reg (registerC w) ≤ limit → h.free = [] → UInt32.size ≤ h.slots.size →
      Refused limit pc w reg h 8 .heapExhausted (.heap pc .indicesExhausted)
  | abandonment : reg (registerC w) = 0 ∨ h.isLive (reg (registerC w)) = false →
      Refused limit pc w reg h 9 .invalidReclaim (.heap pc (.invalidReclaim (reg (registerC w))))
  | output : 255 < (reg (registerC w)).toNat →
      Refused limit pc w reg h 10 .outputRange (.outputRange pc (reg (registerC w)))
  | loadProgram : reg (registerB w) ≠ 0 → h.isLive (reg (registerB w)) = false →
      Refused limit pc w reg h 12 .outOfBoundsArray (.heap pc (.notLive (reg (registerB w))))

variable {m : Machine} {w origin limit : Word} {i : Instruction} {fault : Fault}

theorem no_fault_iff {after : Machine} {reg : Register → Word} {h : Heap} {n : Nat}
    (hn : n ∉ [1, 2, 5, 8, 9, 10, 12]) :
    ((after, none) : Machine × Option Fault).2 = some fault ↔
      ∃ kind, Refused limit origin w reg h n kind fault := by
  constructor
  · intro hfault
    cases hfault
  · rintro ⟨kind, hrefused⟩
    cases hrefused <;> simp at hn

/-- An instruction that makes one call on the heap faults exactly when that call fails. -/
theorem call_fault_iff {α : Type} (call : Except HeapError α) {r : Machine × Option Fault}
    (hok : ∀ value, call = .ok value → r.2 = none)
    (herror : ∀ e, call = .error e → r.2 = some (.heap origin e)) :
    r.2 = some fault ↔ ∃ e, call = .error e ∧ fault = .heap origin e := by
  constructor
  · intro hfault
    rcases call with e | value
    · rw [herror e rfl] at hfault
      exact ⟨e, rfl, (Option.some.inj hfault).symm⟩
    · rw [hok value rfl] at hfault
      cases hfault
  · rintro ⟨e, he, rfl⟩
    exact herror e he

theorem heap_fault_iff {α : Type} (call : Except HeapError α × Heap)
    {r : Machine × Option Fault}
    (hok : ∀ value heap, call = (.ok value, heap) → r.2 = none)
    (herror : ∀ e heap, call = (.error e, heap) → r.2 = some (.heap origin e)) :
    r.2 = some fault ↔ ∃ e, call.1 = .error e ∧ fault = .heap origin e :=
  call_fault_iff call.1 (fun value hv => hok value call.2 (Prod.ext hv rfl))
    fun e he => herror e call.2 (Prod.ext he rfl)

section Calls

variable {reg : Register → Word} {h : Heap}

theorem arrayIndex_refused_iff :
    (∃ e, h.read (reg (registerB w)) (reg (registerC w)) = .error e ∧ fault = .heap origin e) ↔
      ∃ kind, Refused limit origin w reg h 1 kind fault := by
  constructor
  · rintro ⟨e, he, rfl⟩
    obtain ⟨kind, hbad⟩ := Heap.read_eq_error_iff.mp he
    exact ⟨kind, .arrayIndex hbad⟩
  · rintro ⟨kind, hrefused⟩
    cases hrefused with
    | arrayIndex hbad => exact ⟨_, Heap.read_eq_error_iff.mpr ⟨kind, hbad⟩, rfl⟩

theorem arrayAmendment_refused_iff (value : Word) :
    (∃ e, (h.write (reg (registerA w)) (reg (registerB w)) value).1 = .error e ∧
        fault = .heap origin e) ↔
      ∃ kind, Refused limit origin w reg h 2 kind fault := by
  constructor
  · rintro ⟨e, he, rfl⟩
    obtain ⟨kind, hbad⟩ := Heap.write_eq_error_iff.mp he
    exact ⟨kind, .arrayAmendment hbad⟩
  · rintro ⟨kind, hrefused⟩
    cases hrefused with
    | arrayAmendment hbad => exact ⟨_, Heap.write_eq_error_iff.mpr ⟨kind, hbad⟩, rfl⟩

theorem allocation_refused_iff (hgranted : h.granted = none) :
    (∃ e, (h.allocate (reg (registerC w))).1 = .error e ∧ fault = .heap origin e) ↔
      ∃ kind, Refused h.limit origin w reg h 8 kind fault := by
  constructor
  · rintro ⟨e, he, rfl⟩
    rcases (Heap.allocate_eq_error_iff hgranted).mp he with
      ⟨hgt, rfl⟩ | ⟨hle, hempty, hsize, rfl⟩
    · exact ⟨_, .allocationTooLarge hgt⟩
    · exact ⟨_, .indicesExhausted hle hempty hsize⟩
  · rintro ⟨kind, hrefused⟩
    cases hrefused with
    | allocationTooLarge hgt =>
      exact ⟨_, (Heap.allocate_eq_error_iff hgranted).mpr (.inl ⟨hgt, rfl⟩), rfl⟩
    | indicesExhausted hle hempty hsize =>
      exact ⟨_, (Heap.allocate_eq_error_iff hgranted).mpr (.inr ⟨hle, hempty, hsize, rfl⟩), rfl⟩

theorem abandonment_refused_iff :
    (∃ e, (h.reclaim (reg (registerC w))).1 = .error e ∧ fault = .heap origin e) ↔
      ∃ kind, Refused limit origin w reg h 9 kind fault := by
  constructor
  · rintro ⟨e, he, rfl⟩
    obtain ⟨hbad, rfl⟩ := Heap.reclaim_eq_error_iff.mp he
    exact ⟨_, .abandonment hbad⟩
  · rintro ⟨kind, hrefused⟩
    cases hrefused with
    | abandonment hbad => exact ⟨_, Heap.reclaim_eq_error_iff.mpr ⟨hbad, rfl⟩, rfl⟩

theorem loadProgram_refused_iff (hne : reg (registerB w) ≠ 0) :
    (∃ e, (h.loadProgram (reg (registerB w))).1 = .error e ∧ fault = .heap origin e) ↔
      ∃ kind, Refused limit origin w reg h 12 kind fault := by
  constructor
  · rintro ⟨e, he, rfl⟩
    obtain ⟨hdead, rfl⟩ := (Heap.loadProgram_eq_error_iff hne).mp he
    exact ⟨_, .loadProgram hne hdead⟩
  · rintro ⟨kind, hrefused⟩
    cases hrefused with
    | loadProgram _ hdead =>
      exact ⟨_, (Heap.loadProgram_eq_error_iff hne).mpr ⟨hdead, rfl⟩, rfl⟩

end Calls

theorem execute_fault_iff (hm : m.Sound) (hd : Instruction.decode w = .ok i) :
    (execute i origin m).2 = some fault ↔
      ∃ kind, Refused m.heap.limit origin w m.reg m.heap (operator w) kind fault := by
  obtain ⟨hop, hfields⟩ := Instruction.readFrom_of_decode hd
  cases i with
  | conditionalMove a b c | addition a b c | multiplication a b c | notAnd a b c | halt
  | orthography a value =>
    rw [hop]
    exact no_fault_iff (by simp [Instruction.opcode, Opcode.code])
  | arrayIndex a b c =>
    obtain ⟨rfl, rfl, rfl⟩ := hfields
    rw [show operator w = 1 from hop, ← arrayIndex_refused_iff]
    exact call_fault_iff _ (fun value hv => by rw [execute, hv]) fun e he => by rw [execute, he]
  | arrayAmendment a b c =>
    obtain ⟨rfl, rfl, rfl⟩ := hfields
    rw [show operator w = 2 from hop, ← arrayAmendment_refused_iff (m.reg (registerC w))]
    exact heap_fault_iff _ (fun done heap hh => by rw [execute, hh])
      fun e heap he => by rw [execute, he]
  | division a b c =>
    obtain ⟨rfl, rfl, rfl⟩ := hfields
    rw [show operator w = 5 from hop, execute]
    constructor
    · intro hfault
      split at hfault
      · rename_i hc
        cases hfault
        exact ⟨_, .division hc⟩
      · cases hfault
    · rintro ⟨kind, hrefused⟩
      cases hrefused with
      | division hc => rw [if_pos hc]
  | allocation b c =>
    obtain ⟨rfl, rfl⟩ := hfields
    rw [show operator w = 8 from hop, ← allocation_refused_iff hm.granted]
    exact heap_fault_iff _ (fun index heap ha => by rw [execute, ha])
      fun e heap he => by rw [execute, he]
  | abandonment c =>
    obtain rfl := hfields
    rw [show operator w = 9 from hop, ← abandonment_refused_iff]
    exact heap_fault_iff _ (fun done heap hh => by rw [execute, hh])
      fun e heap he => by rw [execute, he]
  | output c =>
    obtain rfl := hfields
    rw [show operator w = 10 from hop, execute, hm.console.write_eq]
    constructor
    · intro hfault
      split at hfault
      · rename_i hrange
        cases hfault
        exact ⟨_, .output (UInt32.lt_iff_toNat_lt.mp hrange)⟩
      · cases hfault
    · rintro ⟨kind, hrefused⟩
      cases hrefused with
      | output hrange =>
        have hlt : Word.maxOutput < m.reg (registerC w) := UInt32.lt_iff_toNat_lt.mpr hrange
        rw [if_pos hlt]
  | input c =>
    obtain ⟨value, after, hread⟩ := hm.console.read_ok
    rw [show operator w = 11 from hop, execute, hread]
    exact no_fault_iff (by decide)
  | loadProgram b c =>
    obtain ⟨rfl, rfl⟩ := hfields
    rw [show operator w = 12 from hop]
    by_cases hzero : m.reg (registerB w) = 0
    · rw [execute, if_pos hzero]
      constructor
      · intro hfault
        cases hfault
      · rintro ⟨kind, hrefused⟩
        cases hrefused with
        | loadProgram hne => exact absurd hzero hne
    · rw [← loadProgram_refused_iff hzero]
      exact heap_fault_iff _ (fun done heap hh => by rw [execute, if_neg hzero, hh])
        fun e heap he => by rw [execute, if_neg hzero, he]

/-- The fatal conditions of a machine that is about to step, each with the class of its fault and
the fault. -/
inductive Fatal (limit : Word) (m : Machine) : Fault.Kind → Fault → Prop where
  | pcOutOfRange : m.heap.program.size ≤ m.pc.toNat →
      Fatal limit m .pcOutOfRange (.pcOutOfRange m.pc m.heap.program.size)
  | unknownOpcode {w : Word} : m.heap.program[m.pc.toNat]? = some w →
      operator w = 14 ∨ operator w = 15 →
      Fatal limit m .unknownOpcode (.unknownOpcode m.pc ⟨.ofNat (operator w), w⟩)
  | refused {w : Word} {kind : Fault.Kind} {fault : Fault} :
      m.heap.program[m.pc.toNat]? = some w →
      Refused limit m.pc w m.reg m.heap (operator w) kind fault → Fatal limit m kind fault

theorem decode_eq_error_iff {e : UnknownOpcode} :
    Instruction.decode w = .error e ↔
      (operator w = 14 ∨ operator w = 15) ∧ e = ⟨.ofNat (operator w), w⟩ := by
  have hfield : w.opcodeField.toNat = operator w := Word.opcodeField_toNat w
  have hcode : w.opcodeField = .ofNat (operator w) := by
    rw [← hfield, UInt32.ofNat_toNat]
  have hbound : operator w < 16 := Nat.div_lt_of_lt_mul (UInt32.toNat_lt w)
  rw [Instruction.decode]
  rcases hop : Opcode.ofCode? w.opcodeField.toNat with _ | op
  · have hle : Opcode.all.length ≤ operator w :=
      List.getElem?_eq_none_iff.mp (hfield ▸ hop)
    have hunknown : operator w = 14 ∨ operator w = 15 := by
      change 14 ≤ operator w at hle
      omega
    rw [← hcode]
    constructor
    · intro herror
      cases herror
      exact ⟨hunknown, rfl⟩
    · rintro ⟨-, rfl⟩
      rfl
  · have hknown : operator w < 14 := by
      rw [← hfield, ← Opcode.code_of_ofCode? hop]
      cases op <;> decide
    constructor
    · intro herror
      cases op <;> cases herror
    · rintro ⟨hunknown, -⟩
      omega

theorem fetch_eq_error_iff :
    m.fetch = .error fault ↔
      m.heap.program.size ≤ m.pc.toNat ∧ fault = .pcOutOfRange m.pc m.heap.program.size ∨
        ∃ w, m.heap.program[m.pc.toNat]? = some w ∧ (operator w = 14 ∨ operator w = 15) ∧
          fault = .unknownOpcode m.pc ⟨.ofNat (operator w), w⟩ := by
  rw [fetch]
  rcases hw : m.heap.program[m.pc.toNat]? with _ | w
  · have hout : m.heap.program.size ≤ m.pc.toNat := Array.getElem?_eq_none_iff.mp hw
    simp [hout, eq_comm]
  · have hin : ¬ m.heap.program.size ≤ m.pc.toNat := by
      obtain ⟨hlt, -⟩ := Array.getElem?_eq_some_iff.mp hw
      omega
    dsimp only
    rcases hd : Instruction.decode w with e | i
    · obtain ⟨hunknown, rfl⟩ := decode_eq_error_iff.mp hd
      simp [hin, hunknown, eq_comm (b := fault)]
    · have hknown : ¬ (operator w = 14 ∨ operator w = 15) := by
        intro hunknown
        rw [decode_eq_error_iff.mpr ⟨hunknown, rfl⟩] at hd
        cases hd
      simp [hin, hknown]

theorem stepFault?_eq (hrun : m.status = .running) (hlimit : m.exhausted = false) :
    m.stepFault? =
      match m.fetch with
      | .error fault => some fault
      | .ok (w, i) => (execute i m.pc (m.enter w i)).2 := by
  rw [stepFault?, tick_of_running hrun hlimit]
  rcases hf : m.fetch with fault | ⟨w, i⟩
  · rw [advance_of_fetch_error hf]
  · rw [advance_eq_close hf]
    exact (close_keeps _).2.2.2.2

theorem Refused.kind_pc {reg : Register → Word} {h : Heap} {n : Nat} {kind : Fault.Kind}
    (hrefused : Refused limit origin w reg h n kind fault) :
    fault.kind = kind ∧ fault.pc? = some origin := by
  cases hrefused with
  | arrayIndex hbad | arrayAmendment hbad =>
    cases hbad with
    | dead _ => exact ⟨rfl, rfl⟩
    | outside _ _ => exact ⟨rfl, rfl⟩
  | division _ | allocationTooLarge _ | indicesExhausted _ _ _ | abandonment _ | output _
  | loadProgram _ _ => exact ⟨rfl, rfl⟩

theorem Fatal.kind_pc {kind : Fault.Kind} (h : Fatal limit m kind fault) :
    fault.kind = kind ∧ fault.pc? = some m.pc := by
  cases h with
  | pcOutOfRange _ => exact ⟨rfl, rfl⟩
  | unknownOpcode _ _ => exact ⟨rfl, rfl⟩
  | refused _ hrefused => exact hrefused.kind_pc

theorem Refused.not_device {reg : Register → Word} {h : Heap} {n : Nat} {kind : Fault.Kind}
    (hrefused : Refused limit origin w reg h n kind fault) (pc : Word) (failure : Failure) :
    fault ≠ .device pc failure := by
  intro hdevice
  subst hdevice
  cases hrefused

theorem Fatal.not_device {kind : Fault.Kind} (h : Fatal limit m kind fault) (pc : Word)
    (failure : Failure) : fault ≠ .device pc failure := by
  cases h with
  | pcOutOfRange _ => exact nofun
  | unknownOpcode _ _ => exact nofun
  | refused _ hrefused => exact hrefused.not_device pc failure

theorem Refused.operator_le {reg : Register → Word} {h : Heap} {n : Nat} {kind : Fault.Kind}
    (hrefused : Refused limit origin w reg h n kind fault) : n ≤ 12 := by
  cases hrefused <;> decide

theorem enter_fault_iff (hm : m.Sound) (hd : Instruction.decode w = .ok i) :
    (execute i m.pc (m.enter w i)).2 = some fault ↔
      ∃ kind, Refused m.heap.limit m.pc w m.reg m.heap (operator w) kind fault := by
  obtain ⟨log, henter⟩ := enter_eq m w i
  have hstart : (m.enter w i).Sound := by
    rw [henter]
    exact ⟨hm.heap, hm.console, hm.granted⟩
  rw [execute_fault_iff hstart hd, enter_reg, enter_heap]

theorem stepFault?_eq_some_iff (hm : m.Sound) (hrun : m.status = .running)
    (hlimit : m.exhausted = false) (fault : Fault) :
    m.stepFault? = some fault ↔ ∃ kind, Fatal m.heap.limit m kind fault := by
  rw [stepFault?_eq hrun hlimit]
  constructor
  · intro hfault
    rcases hf : m.fetch with fetched | ⟨w, i⟩
    · rw [hf] at hfault
      cases hfault
      rcases fetch_eq_error_iff.mp hf with ⟨hout, rfl⟩ | ⟨w, hw, hunknown, rfl⟩
      · exact ⟨_, .pcOutOfRange hout⟩
      · exact ⟨_, .unknownOpcode hw hunknown⟩
    · rw [hf] at hfault
      obtain ⟨hw, hd⟩ := fetch_eq_ok_iff.mp hf
      obtain ⟨kind, hrefused⟩ := (enter_fault_iff hm hd).mp hfault
      exact ⟨kind, .refused hw hrefused⟩
  · rintro ⟨kind, hfatal⟩
    cases hfatal with
    | pcOutOfRange hout => rw [fetch_eq_error_iff.mpr (.inl ⟨hout, rfl⟩)]
    | unknownOpcode hw hunknown =>
      rw [fetch_eq_error_iff.mpr (.inr ⟨_, hw, hunknown, rfl⟩)]
    | @refused w _ _ hw hrefused =>
      -- the operators of the table all decode, so the fetch succeeds
      have hle := hrefused.operator_le
      rcases hd : Instruction.decode w with e | i
      · obtain ⟨hunknown, -⟩ := decode_eq_error_iff.mp hd
        omega
      · rw [fetch_eq_ok_iff.mpr ⟨hw, hd⟩]
        exact (enter_fault_iff hm hd).mpr ⟨kind, hrefused⟩

/-- On an input held in memory, a machine that is running and below its limit faults exactly on
the fatal conditions. The fault has the class of the condition and the place of the instruction, and
it is never a failure of a device or an error in data from outside. -/
theorem step_faults_iff_fatal {p : Program} {input : Bytes} {config : Config}
    (hr : Reachable p input config m) (hrun : m.status = .running) (hlimit : m.exhausted = false)
    (fault : Fault) :
    (m.stepFault? = some fault ↔ ∃ kind, Fatal config.maxBlockWords m kind fault) ∧
      (∀ kind, Fatal config.maxBlockWords m kind fault →
        fault.kind = kind ∧ fault.pc? = some m.pc) ∧
      (m.stepFault? = some fault →
        (∀ pc failure, fault ≠ .device pc failure) ∧ ∀ e, fault ≠ .data e) := by
  obtain ⟨-, hmax⟩ := hr.settings
  have hiff := stepFault?_eq_some_iff hr.sound hrun hlimit fault
  rw [hmax] at hiff
  refine ⟨hiff, fun kind hfatal => hfatal.kind_pc, fun hfault => ?_⟩
  obtain ⟨kind, hfatal⟩ := hiff.mp hfault
  refine ⟨hfatal.not_device, ?_⟩
  rintro e rfl
  obtain ⟨-, hpc⟩ := hfatal.kind_pc
  cases hpc

/-- The second instruction of the program outputs 256, which is no byte. -/
theorem step_faults_iff_fatal_output :
    let m := (boot [0xD2000100, 0xA0000001] (.ofBytes []) {}).step
    (m.status = .running ∧ m.exhausted = false) ∧
    m.stepFault? = some (.outputRange 1 256) ∧
    ∃ kind, Fatal ({} : Config).maxBlockWords m kind (.outputRange 1 256) ∧
      kind = .outputRange ∧ m.pc = 1 := by
  intro m
  have hr : Reachable [0xD2000100, 0xA0000001] [] {} m := .step .boot
  have hrun : m.status = .running := by decide
  have hlimit : m.exhausted = false := by decide
  have hfault : m.stepFault? = some (.outputRange 1 256) := by decide
  obtain ⟨hiff, hclass, -⟩ := step_faults_iff_fatal hr hrun hlimit (.outputRange 1 256)
  obtain ⟨kind, hfatal⟩ := hiff.mp hfault
  obtain ⟨hkind, hpc⟩ := hclass kind hfatal
  exact ⟨⟨hrun, hlimit⟩, hfault, kind, hfatal, hkind.symm, (Option.some.inj hpc).symm⟩

end Machine

end UniversalMachine
