import UniversalMachine.Proofs.InstructionText
import UniversalMachine.Proofs.LabelPlacement

/-! Both passes of the assembler together.
A program that is assembled has one word for each statement, in order, and each word is what its
statement says: the instruction with its operands as written, or the datum. -/

namespace UniversalMachine.Assembly

/-- The operands that an instruction is written with. In the place of an orthography value may stand
a label of that value. -/
inductive WrittenAs (lines : List Line) : Instruction → List Operand → Prop where
  | plain (i : Instruction) : WrittenAs lines i i.operands
  | label {a : Register} {value : Word} {name : String} : LabelAt lines name value.toNat →
      WrittenAs lines (.orthography a value) [.register a, .datum (.label name)]

/-- What a statement among the given lines says of its word. -/
def Statement.StandsFor (lines : List Line) (w : Word) : Statement → Prop
  | .instruction mnemonic operands =>
    ∃ i, Instruction.decode w = .ok i ∧
      i.opcode.mnemonic.toList = mnemonic.toList.map Char.toLower ∧
      WrittenAs lines i operands ∧ i.Fits
  | .word (.immediate value) => (w.toNat : Int) = value % UInt32.size
  | .word (.label name) => LabelAt lines name w.toNat

section Operands

variable {line position : Nat} {mnemonic : String} {symbols : SymbolTable} {i : Instruction}

theorem toRegister_eq_ok {o : Operand} {r : Register}
    (h : o.toRegister line mnemonic position = .ok r) : o = .register r := by
  cases o with
  | register s =>
    cases h
    rfl
  | datum d => cases d <;> cases h

theorem toImmediate_eq_ok {o : Operand} {value : Word}
    (h : o.toImmediate line symbols = .ok value) :
    value ≤ Word.maxImmediate ∧
      (o = .datum (.immediate value.toNat) ∨
        ∃ name, o = .datum (.label name) ∧ symbols.lookup name = some value) := by
  cases o with
  | register r => cases h
  | datum d =>
    cases d with
    | immediate v =>
      rw [Operand.toImmediate] at h
      split at h
      · rename_i hrange
        cases h
        have hmax : v.toNat ≤ Word.maxImmediate.toNat := by omega
        have hsmall : v.toNat < UInt32.size :=
          Nat.lt_of_le_of_lt hmax (UInt32.toNat_lt _)
        have hnat : (UInt32.ofNat v.toNat).toNat = v.toNat := UInt32.toNat_ofNat_of_lt' hsmall
        refine ⟨?_, Or.inl ?_⟩
        · rw [UInt32.le_iff_toNat_le, hnat]
          exact hmax
        · rw [hnat, Int.toNat_of_nonneg hrange.1]
      · cases h
    | label name =>
      rw [Operand.toImmediate] at h
      split at h
      · cases h
      · rename_i found hfound
        split at h
        · rename_i hmax
          cases h
          exact ⟨hmax, Or.inr ⟨name, rfl, hfound⟩⟩
        · cases h

theorem ternary_eq_ok {make : Register → Register → Register → Instruction} {x y z : Operand}
    (h : Statement.ternary make line mnemonic x y z = .ok i) :
    ∃ a b c, x = .register a ∧ y = .register b ∧ z = .register c ∧ i = make a b c := by
  obtain ⟨a, hx, h⟩ := bind_eq_ok_iff.mp h
  obtain ⟨b, hy, h⟩ := bind_eq_ok_iff.mp h
  obtain ⟨c, hz, h⟩ := bind_eq_ok_iff.mp h
  cases h
  exact ⟨a, b, c, toRegister_eq_ok hx, toRegister_eq_ok hy, toRegister_eq_ok hz, rfl⟩

theorem binary_eq_ok {make : Register → Register → Instruction} {x y : Operand}
    (h : Statement.binary make line mnemonic x y = .ok i) :
    ∃ b c, x = .register b ∧ y = .register c ∧ i = make b c := by
  obtain ⟨b, hx, h⟩ := bind_eq_ok_iff.mp h
  obtain ⟨c, hy, h⟩ := bind_eq_ok_iff.mp h
  cases h
  exact ⟨b, c, toRegister_eq_ok hx, toRegister_eq_ok hy, rfl⟩

theorem unary_eq_ok {make : Register → Instruction} {x : Operand}
    (h : Statement.unary make line mnemonic x = .ok i) :
    ∃ c, x = .register c ∧ i = make c := by
  obtain ⟨c, hx, h⟩ := bind_eq_ok_iff.mp h
  cases h
  exact ⟨c, toRegister_eq_ok hx, rfl⟩

end Operands

/-- An instruction that is accepted has the operator that is named and the operands that are
written. -/
theorem toInstruction_eq_ok {line : Nat} {symbols : SymbolTable} {mnemonic : String}
    {operands : List Operand} {i : Instruction}
    (h : Statement.toInstruction line symbols mnemonic operands = .ok i) :
    Opcode.ofMnemonic? mnemonic = some i.opcode ∧ i.Fits ∧
      (operands = i.operands ∨ ∃ a value name, i = .orthography a value ∧
        operands = [.register a, .datum (.label name)] ∧ symbols.lookup name = some value) := by
  rw [Statement.toInstruction] at h
  split at h
  · cases h
  · rename_i op hop
    rw [hop]
    split at h
    case h_1 | h_2 | h_3 | h_4 | h_5 | h_6 | h_7 =>
      obtain ⟨a, b, c, rfl, rfl, rfl, rfl⟩ := ternary_eq_ok h
      exact ⟨rfl, trivial, Or.inl rfl⟩
    case h_8 =>
      cases h
      exact ⟨rfl, trivial, Or.inl rfl⟩
    case h_9 | h_13 =>
      obtain ⟨b, c, rfl, rfl, rfl⟩ := binary_eq_ok h
      exact ⟨rfl, trivial, Or.inl rfl⟩
    case h_10 | h_11 | h_12 =>
      obtain ⟨c, rfl, rfl⟩ := unary_eq_ok h
      exact ⟨rfl, trivial, Or.inl rfl⟩
    case h_14 =>
      obtain ⟨a, hx, hrest⟩ := bind_eq_ok_iff.mp h
      obtain ⟨value, hy, hdone⟩ := bind_eq_ok_iff.mp hrest
      cases hdone
      obtain rfl := toRegister_eq_ok hx
      obtain ⟨hmax, rfl | ⟨name, rfl, hlookup⟩⟩ := toImmediate_eq_ok hy
      · exact ⟨rfl, hmax, Or.inl rfl⟩
      · exact ⟨rfl, hmax, Or.inr ⟨a, value, name, rfl, rfl, hlookup⟩⟩
    case h_15 => cases h

theorem mnemonic_of_ofMnemonic? {mnemonic : String} {op : Opcode}
    (h : Opcode.ofMnemonic? mnemonic = some op) :
    op.mnemonic.toList = mnemonic.toList.map Char.toLower := by
  have hfound := List.find?_some h
  exact beq_iff_eq.mp hfound

theorem toNat_ofInt (value : Int) : ((UInt32.ofInt value).toNat : Int) = value % UInt32.size := by
  have hmod : UInt32.ofInt value = UInt32.ofNat (value % UInt32.size).toNat := rfl
  have hnonneg : 0 ≤ value % UInt32.size := Int.emod_nonneg value (by decide)
  have hlt : value % UInt32.size < UInt32.size := Int.emod_lt_of_pos value (by decide)
  have hsmall : (value % UInt32.size).toNat < UInt32.size := (Int.toNat_lt hnonneg).mpr hlt
  rw [hmod, UInt32.toNat_ofNat_of_lt' hsmall, Int.toNat_of_nonneg hnonneg]

theorem standsFor_of_encode {lines : List Line} {symbols : SymbolTable} {number : Nat}
    {s : Statement} {w : Word}
    (hsymbols : ∀ name value, symbols.lookup name = some value → LabelAt lines name value.toNat)
    (h : s.encode number symbols = .ok w) : s.StandsFor lines w := by
  cases s with
  | instruction mnemonic operands =>
    obtain ⟨i, hi, h⟩ := bind_eq_ok_iff.mp h
    obtain ⟨hop, hfits, hwritten⟩ := toInstruction_eq_ok hi
    cases h
    refine ⟨i, Instruction.decode_encode hfits, mnemonic_of_ofMnemonic? hop, ?_, hfits⟩
    rcases hwritten with rfl | ⟨a, value, name, rfl, rfl, hlookup⟩
    · exact .plain i
    · exact .label (hsymbols name value hlookup)
  | word d =>
    cases d with
    | immediate value =>
      rw [Statement.encode, Datum.toWord] at h
      split at h
      · cases h
        exact toNat_ofInt value
      · cases h
    | label name =>
      rw [Statement.encode, Datum.toWord] at h
      split at h
      · cases h
      · rename_i found hlookup
        cases h
        exact hsymbols name w hlookup

/-- The second pass gives the words of the statements, in their order. -/
theorem encodeLines_eq_ok {symbols : SymbolTable} {lines : List Line} {p : Program}
    (h : Layout.encodeLines symbols lines = .ok p) :
    List.Forall₂ (fun s w => ∃ number, Statement.encode number symbols s = .ok w)
      (statements lines) p := by
  induction lines generalizing p with
  | nil =>
    cases h
    exact .nil
  | cons line rest ih =>
    rw [Layout.encodeLines] at h
    rw [statements_cons]
    split at h
    · rename_i hs
      have hone : statements [line] = [] := by
        simp [statements, hs]
      rw [hone]
      exact ih h
    · rename_i s hs
      obtain ⟨w, hw, h⟩ := bind_eq_ok_iff.mp h
      obtain ⟨behind, hbehind, h⟩ := bind_eq_ok_iff.mp h
      have hone : statements [line] = [s] := by
        simp [statements, hs]
      cases h
      rw [hone]
      exact .cons ⟨line.number, hw⟩ (ih hbehind)

theorem statements_filter (lines : List Line) :
    statements (lines.filter fun line => line.statement.isSome) = statements lines := by
  rw [statements, List.filterMap_filter]
  congr 1
  funext line
  cases hs : line.statement with
  | none => rfl
  | some s => rfl

/-- A program that is assembled has one word for each statement of its source, in order. Each label
is defined once and stands for the number of statements before its line, and each word is what its
statement says. -/
theorem assemble_two_passes {source : String} {p : Program} (h : assemble source = .ok p) :
    ∃ lines layout, ReadAs 1 (Text.lines source.toList) lines ∧
      Layout.ofSource source = .ok layout ∧
      p.length = (statements lines).length ∧
      (lines.flatMap Line.labels).Nodup ∧
      (∀ name value, layout.symbols.lookup name = some value ↔ LabelAt lines name value.toNat) ∧
      (∀ name n, LabelAt lines name n → n ≤ p.length ∧ n < UInt32.size) ∧
      List.Forall₂ (fun s w => Statement.StandsFor lines w s) (statements lines) p := by
  obtain ⟨layout, hlayout, hencode⟩ := bind_eq_ok_iff.mp h
  obtain ⟨lines, hread, hlaid⟩ := laid_of_ofLines hlayout
  have hlookup : ∀ name value, layout.symbols.lookup name = some value ↔
      LabelAt lines name value.toNat := by
    intro name value
    rw [hlaid.lookup_iff name value]
    constructor
    · rintro (hnil | ⟨n, hn, hvalue⟩)
      · cases hnil
      · rw [hvalue, Nat.zero_add]
        exact hn
    · intro hn
      exact Or.inr ⟨value.toNat, hn, (Nat.zero_add _).symm⟩
  have hwords := encodeLines_eq_ok hencode
  rw [hlaid.lines_eq, statements_filter] at hwords
  have hlength : p.length = (statements lines).length := hwords.length_eq.symm
  refine ⟨lines, layout, hread, hlayout, hlength, hlaid.labels_nodup, hlookup, ?_, ?_⟩
  · intro name n hn
    have hsmall := hlaid.offset_lt name n hn
    exact ⟨hlength ▸ hn.le_length, by omega⟩
  · apply hwords.imp
    rintro s w ⟨number, hw⟩
    exact standsFor_of_encode (fun name value => (hlookup name value).mp) hw

theorem assemble_two_passes_forward :
    let source := "ortho r1, end\n.word -1\nend: halt"
    let p : Program := [0xD2000002, 0xFFFFFFFF, 0x70000000]
    assemble source = .ok p ∧
    ∃ lines, ReadAs 1 (Text.lines source.toList) lines ∧ (statements lines).length = 3 ∧
      List.Forall₂ (fun s w => Statement.StandsFor lines w s) (statements lines) p := by
  intro source p
  have hvalue : (assemble source).toOption = some p := by decide +kernel
  have hassemble : assemble source = .ok p := by
    generalize assemble source = outcome at hvalue
    cases outcome with
    | error e => cases hvalue
    | ok q => rw [Option.some.inj hvalue]
  obtain ⟨lines, layout, hread, -, hlength, -, -, -, hwords⟩ := assemble_two_passes hassemble
  exact ⟨hassemble, lines, hread, hlength.symm, hwords⟩

end UniversalMachine.Assembly
