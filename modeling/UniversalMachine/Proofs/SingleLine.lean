import UniversalMachine.Proofs.LineGrammar
import UniversalMachine.Proofs.Lines
import UniversalMachine.Proofs.TwoPasses

/-! One line of source, as an instruction and as a program. The text of an instruction is read as
that instruction, unless its value is too large for a word, and whatever is read survives being
written again. A line that is read as an instruction is assembled to its word, and one that is not
is refused in the same way, as long as its own labels play no part. -/

namespace UniversalMachine

theorem Instruction.fits_iff {i : Instruction} :
    i.Fits ↔ ∀ a value, i = .orthography a value → value ≤ 0x1FFFFFF := by
  constructor
  · rintro hfits a value rfl
    exact hfits
  · intro hsmall
    cases i with
    | orthography a value => exact hsmall a value rfl
    | _ => trivial

namespace Assembly

variable {text : String} {i : Instruction} {symbols known : SymbolTable}

section Instructions

theorem parseInstruction_of_parse {line : Line} {mnemonic : String} {operands : List Operand}
    (hparse : Line.parse 1 text.toList = .ok line)
    (hstatement : line.statement = some (.instruction mnemonic operands)) :
    parseInstruction text = Statement.toInstruction 1 [] mnemonic operands := by
  rw [parseInstruction, hparse, ok_bind, hstatement]

/-- A text is read as an instruction when its statement names the operator and has the operands,
with no label in the place of a value. -/
theorem parseInstruction_eq_ok_iff :
    parseInstruction text = .ok i ↔ i.Fits ∧ ∃ line mnemonic,
      Line.parse 1 text.toList = .ok line ∧
      line.statement = some (.instruction mnemonic i.operands) ∧
      Opcode.ofMnemonic? mnemonic = some i.opcode := by
  constructor
  · intro h
    obtain ⟨line, hparse, h⟩ := bind_eq_ok_iff.mp h
    split at h
    · cases h
    · cases h
    · rename_i mnemonic operands hstatement
      obtain ⟨hop, hfits, rfl | ⟨a, value, name, -, -, hlookup⟩⟩ := toInstruction_eq_ok h
      · exact ⟨hfits, line, mnemonic, hparse, hstatement, hop⟩
      · cases hlookup
  · rintro ⟨hfits, line, mnemonic, hparse, hstatement, hop⟩
    rw [parseInstruction_of_parse hparse hstatement]
    exact toInstruction_of_mnemonic 1 [] hop hfits

theorem parseInstruction_text (hfits : i.Fits) : parseInstruction i.text = .ok i := by
  apply parseInstruction_eq_ok_iff.mpr
  exact ⟨hfits, _, _, parse_text 1 i, rfl, Opcode.ofMnemonic?_mnemonic i.opcode⟩

theorem parseInstruction_text_too_large (a : Register) {value : Word}
    (hlarge : Word.maxImmediate < value) :
    parseInstruction (Instruction.orthography a value).text =
      .error (.invalidImmediate 1 value.toNat) := by
  have hrange : ¬ (0 ≤ (value.toNat : Int) ∧ (value.toNat : Int) ≤ Word.maxImmediate.toNat) := by
    have hnat := UInt32.lt_iff_toNat_lt.mp hlarge
    omega
  rw [parseInstruction_of_parse (parse_text 1 _) rfl, Statement.toInstruction,
    Opcode.ofMnemonic?_mnemonic]
  simp only [Instruction.opcode, Instruction.operands, Operand.toRegister, Operand.toImmediate,
    if_neg hrange, ok_bind]
  rfl

/-- Reading and writing of instructions. An instruction is read from its own text, except for a
value that does not fit in a word: that is refused by its value. Whatever text an instruction is
read from, the instruction comes back from its word and from its own text. -/
theorem parseInstruction_text_inverse :
    (∀ i : Instruction, (∀ a value, i = .orthography a value → value ≤ 0x1FFFFFF) →
      parseInstruction i.text = .ok i) ∧
    (∀ (a : Register) (value : Word), 0x1FFFFFF < value →
      parseInstruction (Instruction.orthography a value).text =
        .error (.invalidImmediate 1 value.toNat)) ∧
    ∀ (text : String) (i : Instruction), parseInstruction text = .ok i →
      Instruction.decode i.encode = .ok i ∧ parseInstruction i.text = .ok i := by
  refine ⟨?_, ?_, ?_⟩
  · intro i hsmall
    exact parseInstruction_text (Instruction.fits_iff.mpr hsmall)
  · intro a value hlarge
    exact parseInstruction_text_too_large a hlarge
  · intro text i h
    obtain ⟨hfits, -⟩ := parseInstruction_eq_ok_iff.mp h
    exact ⟨Instruction.decode_encode hfits, parseInstruction_text hfits⟩

/-- The largest value that fits and the next one, and a text that is not the instruction's own. -/
theorem parseInstruction_text_inverse_boundary :
    let i := Instruction.orthography 3 0x1FFFFFF
    let text := "here: ORTHO r3 , 0x1ffffff ; all ones"
    parseInstruction i.text = .ok i ∧
      parseInstruction (Instruction.orthography 3 0x2000000).text =
        .error (.invalidImmediate 1 0x2000000) ∧
      parseInstruction text = .ok i ∧ Instruction.decode i.encode = .ok i := by
  intro i text
  obtain ⟨hsmall, hlarge, hread⟩ := parseInstruction_text_inverse
  have htext : parseInstruction text = .ok i := eq_ok_of_toOption (by decide +kernel)
  refine ⟨hsmall i ?_, hlarge 3 0x2000000 (by decide), htext, (hread text i htext).1⟩
  intro a value hi
  obtain ⟨-, rfl⟩ := Instruction.orthography.inj hi
  exact UInt32.le_refl _

end Instructions

section Labels

/-- New and distinct labels can be defined. -/
theorem exists_define_eq_ok (line : Nat) {offset : Nat} {names : List String}
    (hoffset : offset < UInt32.size) (hnodup : names.Nodup)
    (hnew : ∀ name ∈ names, symbols.lookup name = none) :
    ∃ known, SymbolTable.define line offset names symbols = .ok known := by
  induction names generalizing symbols with
  | nil => exact ⟨symbols, rfl⟩
  | cons first rest ih =>
    obtain ⟨hfirst, hnodup⟩ := List.nodup_cons.mp hnodup
    obtain ⟨hnone, hrest⟩ := List.forall_mem_cons.mp hnew
    have hbehind : ∀ name ∈ rest,
        List.lookup name ((first, UInt32.ofNat offset) :: symbols) = none := by
      intro name hmem
      have hne : name ≠ first := fun e => hfirst (e ▸ hmem)
      rw [lookup_cons_eq_ite, if_neg hne]
      exact hrest name hmem
    obtain ⟨known, hknown⟩ := ih hnodup hbehind
    refine ⟨known, ?_⟩
    rw [SymbolTable.define, if_neg (Nat.not_le.mpr hoffset), hnone]
    exact hknown

theorem toImmediate_congr (line : Nat) {o : Operand}
    (hsame : ∀ name, o = .datum (.label name) → known.lookup name = symbols.lookup name) :
    o.toImmediate line known = o.toImmediate line symbols := by
  cases o with
  | register r => rfl
  | datum d =>
    cases d with
    | immediate value => rfl
    | label name => rw [Operand.toImmediate, Operand.toImmediate, hsame name rfl]

/-- Only the labels among its operands matter to an instruction, also where it is refused. -/
theorem toInstruction_congr (line : Nat) (mnemonic : String) {operands : List Operand}
    (hsame : ∀ name, .datum (.label name) ∈ operands → known.lookup name = symbols.lookup name) :
    Statement.toInstruction line known mnemonic operands =
      Statement.toInstruction line symbols mnemonic operands := by
  rw [Statement.toInstruction, Statement.toInstruction]
  cases Opcode.ofMnemonic? mnemonic with
  | none => rfl
  | some op =>
    -- a value stands only behind a register, so a label can matter only among two operands
    rcases operands with _ | ⟨x, _ | ⟨y, _ | ⟨z, _ | ⟨w, rest⟩⟩⟩⟩
    · cases op <;> rfl
    · cases op <;> rfl
    · have hy : y.toImmediate line known = y.toImmediate line symbols := by
        apply toImmediate_congr
        rintro name rfl
        exact hsame name (by simp)
      cases op with
      | orthography => simp only [hy]
      | _ => rfl
    · cases op <;> rfl
    · cases op <;> rfl

end Labels

section Programs

/-- A text without a line end is a source of one line. -/
theorem ofSource_line (hne : text ≠ "") (hline : '\n' ∉ text.toList) :
    Layout.ofSource text = Layout.ofLines 1 0 [] [text.toList] := by
  have htext : text.toList ≠ [] := fun h => hne (String.toList_eq_nil_iff.mp h)
  rw [Layout.ofSource, Text.lines_of_not_mem hline htext]

theorem assemble_line_error {e : Error} (hne : text ≠ "") (hline : '\n' ∉ text.toList)
    (hparse : Line.parse 1 text.toList = .error e) : assemble text = .error e := by
  rw [assemble, ofSource_line hne hline, Layout.ofLines, hparse]
  rfl

/-- A line with a statement is assembled to the one word of its statement. -/
theorem assemble_line {line : Line} {s : Statement} (hne : text ≠ "")
    (hline : '\n' ∉ text.toList) (hparse : Line.parse 1 text.toList = .ok line)
    (hstatement : line.statement = some s)
    (hdefine : SymbolTable.define 1 0 line.labels [] = .ok known) :
    assemble text = (s.encode 1 known).map fun w => [w] := by
  obtain ⟨hnumber, -⟩ := Line.parse_eq_ok_iff.mp hparse
  rw [assemble, ofSource_line hne hline, Layout.ofLines, hparse, ok_bind, hdefine, ok_bind,
    hstatement]
  simp only [Layout.ofLines, ok_bind, pure_eq_ok, Layout.encode, Layout.encodeLines, hstatement,
    hnumber]
  cases s.encode 1 known <;> rfl

/-- Where its own labels play no part, an instruction that stands alone is assembled to its word or
refused as it is refused when read. -/
theorem assemble_eq_parseInstruction {line : Line} {mnemonic : String} {operands : List Operand}
    (hne : text ≠ "") (hline : '\n' ∉ text.toList)
    (hparse : Line.parse 1 text.toList = .ok line)
    (hstatement : line.statement = some (.instruction mnemonic operands))
    (hnodup : line.labels.Nodup)
    (hunused : ∀ name ∈ line.labels, .datum (.label name) ∉ operands) :
    assemble text = (parseInstruction text).map fun i => [i.encode] := by
  obtain ⟨known, hdefine⟩ : ∃ known, SymbolTable.define 1 0 line.labels [] = .ok known :=
    exists_define_eq_ok 1 (by decide) hnodup fun name _ => rfl
  obtain ⟨-, -, hlookup⟩ := define_eq_ok hdefine
  have hsame : ∀ name, .datum (.label name) ∈ operands →
      known.lookup name = List.lookup name [] := by
    intro name hmem
    have hother : name ∉ line.labels := fun hlabel => hunused name hlabel hmem
    rw [hlookup name, if_neg hother]
  rw [assemble_line hne hline hparse hstatement hdefine,
    parseInstruction_of_parse hparse hstatement, Statement.encode,
    toInstruction_congr 1 mnemonic hsame]
  cases Statement.toInstruction 1 [] mnemonic operands <;> rfl

/-- Reading and assembling agree on a single line. What cannot be read as a line is refused by both
with the same error. An instruction whose labels are distinct and not used by itself is assembled to
the word of the instruction that is read, and refused with the error with which reading it fails. -/
theorem assemble_agrees_on_line (text : String) (hne : text ≠ "") (hline : '\n' ∉ text.toList) :
    (∀ e, Line.parse 1 text.toList = .error e →
      parseInstruction text = .error e ∧ assemble text = .error e) ∧
    ∀ line mnemonic operands, Line.parse 1 text.toList = .ok line →
      line.statement = some (.instruction mnemonic operands) → line.labels.Nodup →
      (∀ name ∈ line.labels, .datum (.label name) ∉ operands) →
      (∀ i, parseInstruction text = .ok i → assemble text = .ok [i.encode]) ∧
      ∀ e, parseInstruction text = .error e → assemble text = .error e := by
  refine ⟨?_, ?_⟩
  · intro e hparse
    refine ⟨?_, assemble_line_error hne hline hparse⟩
    rw [parseInstruction, hparse]
    rfl
  · intro line mnemonic operands hparse hstatement hnodup hunused
    have hagree := assemble_eq_parseInstruction hne hline hparse hstatement hnodup hunused
    refine ⟨?_, ?_⟩
    · intro i hi
      rw [hagree, hi]
      rfl
    · intro e he
      rw [hagree, he]
      rfl

/-- An instruction behind two labels, the same with a label that stands for nothing, and a line that
cannot be read. -/
theorem assemble_agrees_on_line_labelled :
    let fine := "a: b: ortho r1, 5"
    let dangling := "a: b: ortho r1, c"
    let unreadable := "a: b: ortho r1,"
    (parseInstruction fine = .ok (.orthography 1 5) ∧ assemble fine = .ok [0xD2000005]) ∧
    (parseInstruction dangling = .error (.undefinedLabel 1 "c") ∧
      assemble dangling = .error (.undefinedLabel 1 "c")) ∧
    Line.parse 1 unreadable.toList = .error (.malformed 1 15 .trailingComma) ∧
      assemble unreadable = .error (.malformed 1 15 .trailingComma) := by
  intro fine dangling unreadable
  have hfine : Line.parse 1 fine.toList = .ok
      ⟨1, ["a", "b"], some (.instruction "ortho" [.register 1, .datum (.immediate 5)])⟩ :=
    eq_ok_of_toOption (by decide +kernel)
  have hdangling : Line.parse 1 dangling.toList = .ok
      ⟨1, ["a", "b"], some (.instruction "ortho" [.register 1, .datum (.label "c")])⟩ :=
    eq_ok_of_toOption (by decide +kernel)
  have hunreadable : Line.parse 1 unreadable.toList = .error (.malformed 1 15 .trailingComma) := by
    decide +kernel
  have hread : parseInstruction fine = .ok (.orthography 1 5) :=
    eq_ok_of_toOption (by decide +kernel)
  have hrefused : parseInstruction dangling = .error (.undefinedLabel 1 "c") := by decide +kernel
  refine ⟨⟨hread, ?_⟩, ⟨hrefused, ?_⟩, hunreadable, ?_⟩
  · obtain ⟨-, hagree⟩ := assemble_agrees_on_line fine (by decide) (by decide +kernel)
    exact (hagree _ _ _ hfine rfl (by decide) (by decide)).1 _ hread
  · obtain ⟨-, hagree⟩ := assemble_agrees_on_line dangling (by decide) (by decide +kernel)
    exact (hagree _ _ _ hdangling rfl (by decide) (by decide)).2 _ hrefused
  · obtain ⟨hsame, -⟩ := assemble_agrees_on_line unreadable (by decide) (by decide +kernel)
    exact (hsame _ hunreadable).2

end Programs

end Assembly

end UniversalMachine
