import UniversalMachine.Proofs.LetterCase

/-! Reading a text in lower case.
Reading commutes with folding a text that has no quotes: the names that are kept are folded, and a
refusal names the same place. So, where no label is defined, the case of a source does not
matter. -/

namespace UniversalMachine.Assembly

section Folding

/-! What is read from a folded text: names are folded, also in errors, and places are kept. -/

def Defect.folded : Defect → Defect
  | unexpectedInput text => unexpectedInput text.toLower
  | expectedInstruction found => expectedInstruction found.folded
  | expectedOperand found => expectedOperand found.folded
  | d => d

def Error.folded : Error → Error
  | malformed line column defect => malformed line column defect.folded
  | invalidRegister line name => invalidRegister line name.toLower
  | undefinedLabel line name => undefinedLabel line name.toLower
  | duplicateLabel line name => duplicateLabel line name.toLower
  | invalidDirective line name => invalidDirective line name.toLower
  | e => e

def Datum.folded : Datum → Datum
  | immediate value => immediate value
  | label name => label name.toLower

def Operand.folded : Operand → Operand
  | register r => register r
  | datum d => datum d.folded

/-- A mnemonic is in lower case already. -/
def Statement.folded : Statement → Statement
  | instruction mnemonic operands => instruction mnemonic (operands.map Operand.folded)
  | word d => word d.folded

def Line.folded (line : Line) : Line :=
  { line with
    labels := line.labels.map String.toLower
    statement := line.statement.map Statement.folded }

def Placed.folded (p : Placed) : Placed := { p with token := p.token.folded }

/-- A result with its value and its error folded. -/
def foldedWith {α : Type} (f : α → α) : Except Error α → Except Error α
  | .ok a => .ok (f a)
  | .error e => .error e.folded

variable {α β : Type} {f : α → α} {g : β → β}

theorem foldedWith_bind {x : Except Error α} {next after : α → Except Error β}
    (h : ∀ a, x = .ok a → after (f a) = foldedWith g (next a)) :
    (foldedWith f x >>= after) = foldedWith g (x >>= next) := by
  cases x with
  | error e => rfl
  | ok a => exact h a rfl

theorem foldedWith_eq_ok_iff {x : Except Error α} {b : α} :
    foldedWith f x = .ok b ↔ ∃ a, x = .ok a ∧ f a = b := by
  cases x with
  | error e => simp [foldedWith]
  | ok a => simp [foldedWith]

end Folding

namespace Line

theorem tokens_folded (number : Nat) (items : List Item) :
    tokens number (items.map Item.folded) =
      foldedWith (List.map Placed.folded) (tokens number items) := by
  induction items with
  | nil => rfl
  | cons item rest ih =>
    obtain ⟨lexeme, start, stop⟩ := item
    have hbehind (t : Token) :
        (tokens number (rest.map Item.folded) >>= fun behind =>
            pure (⟨t.folded, start + 1⟩ :: behind)) =
          foldedWith (List.map Placed.folded) (tokens number rest >>= fun behind =>
            pure (⟨t, start + 1⟩ :: behind)) := by
      rw [ih]
      exact foldedWith_bind fun _ _ => rfl
    cases lexeme with
    | invalid text => rfl
    | token t =>
      cases t with
      | newline => rfl
      | _ => exact hbehind _

theorem splitLabels_folded (placed : List Placed) :
    splitLabels (placed.map Placed.folded) =
      ((splitLabels placed).1.map String.toLower, (splitLabels placed).2.map Placed.folded) := by
  fun_induction splitLabels placed with
  | case1 => rfl
  | case2 p => rfl
  | case3 p q rest name hname hcolon ih =>
    simp only [List.map_cons, splitLabels, Placed.folded, hname, hcolon, Token.folded, ih]
  | case4 p q rest hnone =>
    obtain ⟨s, start⟩ := p
    obtain ⟨t, column⟩ := q
    cases s with
    | identifier name =>
      cases t with
      | colon => exact (hnone name rfl rfl).elim
      | _ => rfl
    | _ => rfl

theorem operand_folded (number : Nat) (p : Placed) :
    operand number p.folded = foldedWith Operand.folded (operand number p) := by
  obtain ⟨t, column⟩ := p
  cases t with
  | hex value | binary value =>
    simp only [Placed.folded, Token.folded, operand]
    split <;> rfl
  | _ => rfl

theorem operands_folded (number : Nat) (placed : List Placed) :
    operands number (placed.map Placed.folded) =
      foldedWith (List.map Operand.folded) (operands number placed) := by
  rw [operands_eq_separated, operands_eq_separated]
  fun_induction separated number placed with
  | case1 => rfl
  | case2 p =>
    rw [List.map_singleton, separated, operand_folded]
    exact foldedWith_bind fun _ _ => rfl
  | case3 p q rest ih =>
    have hcomma : q.folded.token ≠ .comma ↔ q.token ≠ .comma := by
      obtain ⟨t, column⟩ := q
      cases t <;> simp [Placed.folded, Token.folded]
    rw [List.map_cons, List.map_cons, separated, operand_folded]
    apply foldedWith_bind
    intro o _
    simp only [hcomma, List.isEmpty_map]
    split
    · rfl
    split
    · rfl
    rw [ih]
    exact foldedWith_bind fun _ _ => rfl

theorem sameName_toLower (name other : String) :
    sameName name.toLower other = sameName name other := by
  rw [sameName, sameName, map_toLower_toLower]

theorem statementOf_folded (number : Nat) (head : Placed) (os : List Operand) :
    statementOf number head.folded (os.map Operand.folded) =
      foldedWith Statement.folded (statementOf number head os) := by
  obtain ⟨t, column⟩ := head
  cases t with
  | identifier name =>
    simp only [Placed.folded, Token.folded, statementOf, map_toLower_toLower]
    rfl
  | directive name =>
    simp only [Placed.folded, Token.folded, statementOf, sameName_toLower]
    split
    · rcases os with _ | ⟨o, _ | ⟨o', rest⟩⟩
      · rfl
      · cases o <;> rfl
      · simp [foldedWith, Error.folded]
    · rfl
  | _ => rfl

theorem ofTokens_folded (number : Nat) (placed : List Placed) :
    ofTokens number (placed.map Placed.folded) = foldedWith folded (ofTokens number placed) := by
  rw [ofTokens, ofTokens, splitLabels_folded]
  rcases splitLabels placed with ⟨labels, _ | ⟨head, rest⟩⟩
  · rfl
  · simp only [List.map_cons, operands_folded]
    apply foldedWith_bind
    intro os _
    rw [statementOf_folded]
    exact foldedWith_bind fun _ _ => rfl

/-- A line without quotes is read in lower case as it is read, with its names folded; and it is
refused for the same reason in the same place. -/
theorem parse_toLower (number : Nat) {text : List Char} (hquote : Lexer.quote ∉ text) :
    parse number (text.map Char.toLower) = foldedWith folded (parse number text) := by
  rw [parse, parse, Lexer.items, Lexer.itemsFrom_toLower 0 hquote, tokens_folded]
  exact foldedWith_bind fun placed _ => ofTokens_folded number placed

end Line

section Statements

variable {line position : Nat} {mnemonic : String}

theorem toRegister_folded (o : Operand) :
    o.folded.toRegister line mnemonic position =
      foldedWith id (o.toRegister line mnemonic position) := by
  rcases o with r | (value | name) <;> rfl

theorem toImmediate_folded (o : Operand) :
    o.folded.toImmediate line [] = foldedWith id (o.toImmediate line []) := by
  rcases o with r | (value | name)
  · rfl
  · simp only [Operand.folded, Datum.folded, Operand.toImmediate]
    split <;> rfl
  · rfl

theorem ternary_folded (make : Register → Register → Register → Instruction) (x y z : Operand) :
    Statement.ternary make line mnemonic x.folded y.folded z.folded =
      foldedWith id (Statement.ternary make line mnemonic x y z) := by
  rw [Statement.ternary, toRegister_folded]
  refine foldedWith_bind fun a _ => ?_
  rw [toRegister_folded]
  refine foldedWith_bind fun b _ => ?_
  rw [toRegister_folded]
  exact foldedWith_bind fun _ _ => rfl

theorem binary_folded (make : Register → Register → Instruction) (x y : Operand) :
    Statement.binary make line mnemonic x.folded y.folded =
      foldedWith id (Statement.binary make line mnemonic x y) := by
  rw [Statement.binary, toRegister_folded]
  refine foldedWith_bind fun b _ => ?_
  rw [toRegister_folded]
  exact foldedWith_bind fun _ _ => rfl

theorem unary_folded (make : Register → Instruction) (x : Operand) :
    Statement.unary make line mnemonic x.folded =
      foldedWith id (Statement.unary make line mnemonic x) := by
  rw [Statement.unary, toRegister_folded]
  exact foldedWith_bind fun _ _ => rfl

/-- Where no label is known, the names of labels enter an instruction's errors only. -/
theorem toInstruction_folded (operands : List Operand) :
    Statement.toInstruction line [] mnemonic (operands.map Operand.folded) =
      foldedWith id (Statement.toInstruction line [] mnemonic operands) := by
  rw [Statement.toInstruction, Statement.toInstruction]
  cases Opcode.ofMnemonic? mnemonic with
  | none => rfl
  | some op =>
    rcases operands with _ | ⟨x, _ | ⟨y, _ | ⟨z, _ | ⟨w, rest⟩⟩⟩⟩
    · cases op <;> rfl
    · cases op with
      | abandonment | output | input => exact unary_folded _ x
      | _ => rfl
    · cases op with
      | allocation | loadProgram => exact binary_folded _ x y
      | orthography =>
        simp only [List.map_cons, List.map_nil, toRegister_folded, toImmediate_folded]
        refine foldedWith_bind fun a _ => ?_
        exact foldedWith_bind fun _ _ => rfl
      | _ => rfl
    · cases op with
      | conditionalMove | arrayIndex | arrayAmendment | addition | multiplication | division
      | notAnd => exact ternary_folded _ x y z
      | _ => rfl
    · cases op <;> simp [foldedWith, Error.folded]

theorem encode_folded (s : Statement) :
    s.folded.encode line [] = foldedWith id (s.encode line []) := by
  cases s with
  | instruction mnemonic operands =>
    simp only [Statement.folded, Statement.encode, toInstruction_folded]
    exact foldedWith_bind fun _ _ => rfl
  | word d =>
    cases d with
    | immediate value =>
      simp only [Statement.folded, Datum.folded, Statement.encode, Datum.toWord]
      split <;> rfl
    | label name => rfl

theorem parseInstruction_toLower {text : String} (hquote : Lexer.quote ∉ text.toList) :
    parseInstruction text.toLower = foldedWith id (parseInstruction text) := by
  rw [parseInstruction, parseInstruction, toList_toLower, Line.parse_toLower 1 hquote]
  refine foldedWith_bind fun found _ => ?_
  rcases found with ⟨number, labels, _ | (⟨mnemonic, operands⟩ | d)⟩
  · rfl
  · exact toInstruction_folded operands
  · rfl

end Statements

section Sources

/-- No line that can be read defines a label. -/
def Unlabelled (source : String) : Prop :=
  ∀ text ∈ Text.lines source.toList, ∀ number line, Line.parse number text = .ok line →
    line.labels = []

def Layout.folded (layout : Layout) : Layout :=
  { layout with lines := layout.lines.map Line.folded }

theorem not_mem_toLower {c : Char} (hc : c.toNat < 65) {text : List Char} (h : c ∉ text) :
    c ∉ text.map Char.toLower := by
  intro hm
  obtain ⟨d, hd, he⟩ := List.mem_map.mp hm
  exact h ((toLower_eq_iff hc).mp he ▸ hd)

theorem dropReturn_toLower (text : List Char) :
    Text.dropReturn (text.map Char.toLower) = (Text.dropReturn text).map Char.toLower := by
  have hlast : (text.map Char.toLower).getLast? = some '\r' ↔ text.getLast? = some '\r' := by
    rw [List.getLast?_map, Option.map_eq_some_iff]
    simp only [toLower_eq_iff (show '\r'.toNat < 65 by decide), exists_eq_right]
  rw [Text.dropReturn, Text.dropReturn]
  by_cases h : text.getLast? = some '\r'
  · rw [if_pos h, if_pos (hlast.mpr h), List.map_dropLast]
  · rw [if_neg h, if_neg (mt hlast.mp h)]

theorem lines_toLower (text : List Char) :
    Text.lines (text.map Char.toLower) = (Text.lines text).map (List.map Char.toLower) := by
  induction text using Text.lines_induction with
  | last text h =>
    by_cases hempty : text = []
    · rw [hempty, List.map_nil, Text.lines_nil, List.map_nil]
    · have hlower : text.map Char.toLower ≠ [] := mt List.map_eq_nil_iff.mp hempty
      rw [Text.lines_of_not_mem h hempty,
        Text.lines_of_not_mem (not_mem_toLower (by decide) h) hlower, List.map_singleton]
  | line text rest h ih =>
    have hend : '\n'.toLower = '\n' := by decide
    rw [List.map_append, List.map_cons, hend,
      Text.lines_append_newline (not_mem_toLower (by decide) h), Text.lines_append_newline h,
      List.map_cons, dropReturn_toLower, ih]

variable {texts : List (List Char)} {number offset : Nat}

/-- Lines without labels leave the symbol table as it is. -/
theorem symbols_of_unlabelled {symbols : SymbolTable} {layout : Layout}
    (hlabels : ∀ text ∈ texts, ∀ number line, Line.parse number text = .ok line →
      line.labels = [])
    (h : Layout.ofLines number offset symbols texts = .ok layout) : layout.symbols = symbols := by
  induction texts generalizing number offset layout with
  | nil =>
    cases h
    rfl
  | cons text rest ih =>
    obtain ⟨hfirst, hrest⟩ := List.forall_mem_cons.mp hlabels
    obtain ⟨line, known, behind, hparse, hdefine, hbehind, rfl⟩ := ofLines_cons_eq_ok h
    rw [hfirst number line hparse] at hdefine
    cases hdefine
    have hsymbols := ih hrest hbehind
    exact hsymbols

theorem ofLines_toLower (hquote : ∀ text ∈ texts, Lexer.quote ∉ text)
    (hlabels : ∀ text ∈ texts, ∀ number line, Line.parse number text = .ok line →
      line.labels = []) :
    Layout.ofLines number offset [] (texts.map (List.map Char.toLower)) =
      foldedWith Layout.folded (Layout.ofLines number offset [] texts) := by
  induction texts generalizing number offset with
  | nil => rfl
  | cons text rest ih =>
    obtain ⟨htext, hquote⟩ := List.forall_mem_cons.mp hquote
    obtain ⟨hfirst, hlabels⟩ := List.forall_mem_cons.mp hlabels
    rw [List.map_cons, Layout.ofLines, Line.parse_toLower number htext]
    apply foldedWith_bind
    intro line hparse
    have hnone := hfirst number line hparse
    obtain ⟨found, labels, statement⟩ := line
    obtain rfl : labels = [] := hnone
    -- with no label to define, both sides go on with the empty table
    cases statement with
    | none => exact ih hquote hlabels
    | some s =>
      change (Layout.ofLines _ _ [] _ >>= _) = _
      rw [ih hquote hlabels]
      exact foldedWith_bind fun _ _ => rfl

theorem encodeLines_folded (lines : List Line) :
    Layout.encodeLines [] (lines.map Line.folded) =
      foldedWith id (Layout.encodeLines [] lines) := by
  induction lines with
  | nil => rfl
  | cons line rest ih =>
    obtain ⟨number, labels, statement⟩ := line
    cases statement with
    | none => exact ih
    | some s =>
      simp only [List.map_cons, Layout.encodeLines, Line.folded, Option.map_some, encode_folded, ih]
      apply foldedWith_bind
      intro w _
      exact foldedWith_bind fun _ _ => rfl

theorem quote_not_mem_line {source : String} (hquote : Lexer.quote ∉ source.toList)
    {text : List Char} (htext : text ∈ Text.lines source.toList) : Lexer.quote ∉ text :=
  fun hmem => hquote ((Text.written_lines source.toList).subset text htext hmem)

theorem assemble_toLower {source : String} (hquote : Lexer.quote ∉ source.toList)
    (hlabels : Unlabelled source) : assemble source.toLower = foldedWith id (assemble source) := by
  have hlines : Text.lines source.toLower.toList =
      (Text.lines source.toList).map (List.map Char.toLower) := by
    rw [toList_toLower, lines_toLower]
  rw [assemble, assemble, Layout.ofSource, hlines,
    ofLines_toLower (fun text htext => quote_not_mem_line hquote htext) hlabels]
  apply foldedWith_bind
  intro layout hlayout
  have hsymbols := symbols_of_unlabelled hlabels hlayout
  obtain ⟨lines, symbols⟩ := layout
  obtain rfl : symbols = [] := hsymbols
  exact encodeLines_folded lines

end Sources

section Cases

variable {text : String}

theorem toLower_toUpper_text (text : String) : text.toUpper.toLower = text.toLower := by
  rw [← String.toList_inj, toList_toLower, toList_toLower, String.toUpper, String.toList_map,
    List.map_map]
  exact List.map_congr_left fun c _ => toLower_toUpper c

theorem quote_not_mem_toUpper (hquote : Lexer.quote ∉ text.toList) :
    Lexer.quote ∉ text.toUpper.toList := by
  have hlower := not_mem_toLower (by decide) hquote
  rw [← toList_toLower, ← toLower_toUpper_text, toList_toLower] at hlower
  intro hmem
  exact hlower (List.mem_map_of_mem (f := Char.toLower) hmem)

theorem unlabelled_toLower_iff (hquote : Lexer.quote ∉ text.toList) :
    Unlabelled text.toLower ↔ Unlabelled text := by
  have hlines := lines_toLower text.toList
  rw [Unlabelled, Unlabelled, toList_toLower, hlines, List.forall_mem_map]
  refine forall₂_congr fun line hline => forall_congr' fun number => ?_
  rw [Line.parse_toLower number (quote_not_mem_line hquote hline)]
  simp only [foldedWith_eq_ok_iff, forall_exists_index, and_imp, forall_apply_eq_imp_iff₂]
  simp [Line.folded]

/-- Two texts that differ only in the case of letters have the same reading. -/
theorem parseInstruction_toUpper (hquote : Lexer.quote ∉ text.toList) :
    foldedWith id (parseInstruction text.toUpper) = foldedWith id (parseInstruction text) := by
  rw [← parseInstruction_toLower hquote, ← parseInstruction_toLower (quote_not_mem_toUpper hquote),
    toLower_toUpper_text]

theorem assemble_toUpper (hquote : Lexer.quote ∉ text.toList) (hlabels : Unlabelled text) :
    foldedWith id (assemble text.toUpper) = foldedWith id (assemble text) := by
  have hupper : Unlabelled text.toUpper := by
    rw [← unlabelled_toLower_iff (quote_not_mem_toUpper hquote), toLower_toUpper_text,
      unlabelled_toLower_iff hquote]
    exact hlabels
  rw [← assemble_toLower hquote hlabels, ← assemble_toLower (quote_not_mem_toUpper hquote) hupper,
    toLower_toUpper_text]

/-- The case of ASCII letters does not matter outside of quotes and labels. A text without quotes is
read as an instruction exactly when it is so in upper case, or in lower case, and the instruction is
the same. A source without quotes that defines no label has a program exactly when it has it in
upper case, or in lower case; what it uses cannot be a label then. -/
theorem letter_case_irrelevant :
    (∀ text : String, Lexer.quote ∉ text.toList → ∀ i,
      (parseInstruction text = .ok i ↔ parseInstruction text.toUpper = .ok i) ∧
        (parseInstruction text = .ok i ↔ parseInstruction text.toLower = .ok i)) ∧
    ∀ source : String, Lexer.quote ∉ source.toList → Unlabelled source → ∀ p,
      (assemble source = .ok p ↔ assemble source.toUpper = .ok p) ∧
        (assemble source = .ok p ↔ assemble source.toLower = .ok p) := by
  have hok {α : Type} {x : Except Error α} {a : α} : foldedWith id x = .ok a ↔ x = .ok a := by
    simp [foldedWith_eq_ok_iff]
  refine ⟨?_, ?_⟩
  · intro text hquote i
    refine ⟨?_, ?_⟩
    · rw [← hok, ← parseInstruction_toUpper hquote, hok]
    · rw [parseInstruction_toLower hquote, hok]
  · intro source hquote hlabels p
    refine ⟨?_, ?_⟩
    · rw [← hok, ← assemble_toUpper hquote hlabels, hok]
    · rw [assemble_toLower hquote hlabels, hok]

/-- Every kind of token that has letters, a label that is not used, and letters beyond ASCII. -/
theorem letter_case_irrelevant_mixed :
    let text := "loop: Ortho R3, 0xaF ; é"
    let source := "nAND r1, R2, r3\n.Word 0B101 # dž\r\nALLOC r0, R7"
    (Lexer.quote ∉ text.toList ∧ parseInstruction text = .ok (.orthography 3 0xAF) ∧
      parseInstruction text.toUpper = .ok (.orthography 3 0xAF)) ∧
    Lexer.quote ∉ source.toList ∧ Unlabelled source ∧
      assemble source.toUpper = .ok [0x60000053, 5, 0x80000007] := by
  intro text source
  have htext : Lexer.quote ∉ text.toList := by decide +kernel
  have hsource : Lexer.quote ∉ source.toList := by decide +kernel
  have hread : parseInstruction text = .ok (.orthography 3 0xAF) :=
    eq_ok_of_toOption (by decide +kernel)
  have hprogram : assemble source = .ok [0x60000053, 5, 0x80000007] :=
    eq_ok_of_toOption (by decide +kernel)
  have hlabels : Unlabelled source := by
    have hlines : Text.lines source.toList = ["nAND r1, R2, r3".toList, ".Word 0B101 # dž".toList,
        "ALLOC r0, R7".toList] := by decide +kernel
    have hnone (line : List Char) (h : ((Line.parse 1 line).toOption.map Line.labels) = some []) :
        ∀ number found, Line.parse number line = .ok found → found.labels = [] := by
      intro number found hparse
      rw [parse_renumbered 1 hparse] at h
      exact Option.some.inj h
    rw [Unlabelled, hlines]
    refine List.forall_mem_cons.mpr ⟨hnone _ (by decide +kernel), ?_⟩
    refine List.forall_mem_cons.mpr ⟨hnone _ (by decide +kernel), ?_⟩
    exact List.forall_mem_singleton.mpr (hnone _ (by decide +kernel))
  obtain ⟨hinstruction, hassemble⟩ := letter_case_irrelevant
  exact ⟨⟨htext, hread, (hinstruction text htext _).1.mp hread⟩, hsource, hlabels,
    (hassemble source hsource hlabels _).1.mp hprogram⟩

/-- With labels the case matters: two of them may become one. -/
example : (assemble "a: A: halt").toOption = some [0x70000000] ∧
    assemble "a: A: halt".toUpper = .error (.duplicateLabel 1 "A") := by decide +kernel

end Cases

end UniversalMachine.Assembly
