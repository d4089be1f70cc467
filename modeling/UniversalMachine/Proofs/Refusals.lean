import UniversalMachine.Assembly.Statement
import UniversalMachine.Proofs.LineGrammar

/-! What reading and encoding can refuse.
Each function has one list of the errors that it gives, with what they say of their place. What is
wrong with the form of a line is reported by the byte at which an item of the line starts, and the
item there is one that the report fits. In a statement that has been read the places are lost. -/

namespace UniversalMachine.Assembly

/-- The items of a text in front of its first line end. -/
def firstItems (text : List Char) : List Item :=
  (Lexer.items text).takeWhile fun item => item.lexeme != .token .newline

/-- What stands at the place where reading a line finds a defect. -/
inductive Defect.FoundAt : Defect → Lexeme → Prop where
  | unexpectedInput (piece : String) : FoundAt (.unexpectedInput piece) (.invalid piece)
  | expectedInstruction {t : Token} : (∀ name, t ≠ .identifier name ∧ t ≠ .directive name) →
      FoundAt (.expectedInstruction t) (.token t)
  | expectedComma {t : Token} : t ≠ .comma → FoundAt .expectedComma (.token t)
  | expectedOperand {t : Token} : Operand.ofToken? t = none →
      FoundAt (.expectedOperand t) (.token t)
  | numberTooLarge {t : Token} {value : Nat} : t = .hex value ∨ t = .binary value →
      Lexer.signedMax < value → FoundAt .numberTooLarge (.token t)
  | trailingComma : FoundAt .trailingComma (.token .comma)
  | dataIsRegister {name : String} : Line.sameName name "word" = true →
      FoundAt .dataIsRegister (.token (.directive name))

namespace Line

/-- The token is the first one behind the leading labels of a line. -/
def HeadedBy (text : List Char) (t : Token) : Prop :=
  ∃ labels behind, firstLine text = (labelTokens labels ++ t :: behind).map .token ∧
    ¬ StartsWithLabel (t :: behind)

/-- What can be wrong with a line. Only a directive can have the wrong number of operands here, or
be unknown. -/
inductive Refused (number : Nat) (text : List Char) : Error → Prop where
  | malformed {item : Item} {defect : Defect} : item ∈ firstItems text →
      defect.FoundAt item.lexeme → Refused number text (.malformed number (item.start + 1) defect)
  | operandCount {name : String} {count : Nat} : HeadedBy text (.directive name) →
      sameName name "word" = true → count ≠ 1 →
      Refused number text (.operandCount number ".word" 1 count)
  | invalidDirective {name : String} : HeadedBy text (.directive name) →
      sameName name "word" = false → Refused number text (.invalidDirective number name)

section Tokens

variable {number : Nat} {found : List Item}

theorem tokens_takeWhile (number : Nat) (found : List Item) :
    tokens number (found.takeWhile fun item => item.lexeme != .token .newline) =
      tokens number found := by
  induction found with
  | nil => rfl
  | cons item rest ih =>
    rw [List.takeWhile_cons]
    by_cases hnewline : item.lexeme = .token .newline
    · simp [tokens, hnewline]
    · rw [if_pos (bne_iff_ne.mpr hnewline), tokens, tokens, ih]

theorem tokens_failsWith (number : Nat) (found : List Item) :
    FailsWith (fun e => ∃ item ∈ found, ∃ piece, item.lexeme = .invalid piece ∧
      e = .malformed number (item.start + 1) (.unexpectedInput piece)) (tokens number found) := by
  induction found with
  | nil => exact failsWith_ok _ []
  | cons item rest ih =>
    rw [tokens]
    split
    · rename_i piece hitem
      exact failsWith_error ⟨item, List.mem_cons_self, piece, hitem, rfl⟩
    · exact failsWith_ok _ []
    · refine FailsWith.bind (ih.mono ?_) fun behind => failsWith_ok _ _
      rintro e ⟨other, hother, hpiece⟩
      exact ⟨other, List.mem_cons_of_mem item hother, hpiece⟩

/-- Each token that is taken is that of an item, and its column that of the item's first byte. -/
theorem exists_item_of_mem {placed : List Placed} {p : Placed}
    (h : tokens number found = .ok placed) (hp : p ∈ placed) :
    ∃ item ∈ found, item.lexeme = .token p.token ∧ p.column = item.start + 1 := by
  induction found generalizing placed with
  | nil =>
    cases h
    cases hp
  | cons item rest ih =>
    rw [tokens] at h
    split at h
    · cases h
    · cases h
      cases hp
    · rename_i t _ hitem
      obtain ⟨behind, hbehind, h⟩ := bind_eq_ok_iff.mp h
      cases h
      rcases List.mem_cons.mp hp with rfl | hp
      · exact ⟨item, List.mem_cons_self, hitem, rfl⟩
      · obtain ⟨other, hother, hplace⟩ := ih hbehind hp
        exact ⟨other, List.mem_cons_of_mem item hother, hplace⟩

end Tokens

section Statements

theorem splitLabels_suffix (placed : List Placed) : (splitLabels placed).2 <:+ placed := by
  fun_induction splitLabels placed with
  | case1 => exact List.suffix_rfl
  | case2 p => exact List.suffix_rfl
  | case3 p q rest name hname hcolon ih =>
    exact ih.trans ((List.suffix_cons q rest).trans (List.suffix_cons p (q :: rest)))
  | case4 p q rest hnone => exact List.suffix_rfl

theorem operand_failsWith (number : Nat) (p : Placed) :
    FailsWith (fun e => ∃ defect : Defect, defect.FoundAt (.token p.token) ∧
      e = .malformed number p.column defect) (operand number p) := by
  rw [operand]
  split
  case h_3 value ht | h_4 value ht =>
    split
    · exact failsWith_ok _ _
    · rename_i hlarge
      refine failsWith_error ⟨.numberTooLarge, .numberTooLarge ?_ (Int.not_le.mp hlarge), rfl⟩
      simp [ht]
  case h_7 =>
    refine failsWith_error ⟨_, .expectedOperand ?_, rfl⟩
    cases ht : p.token <;> simp_all [Operand.ofToken?]
  all_goals exact failsWith_ok _ _

theorem operands_failsWith (number : Nat) (placed : List Placed) :
    FailsWith (fun e => ∃ p ∈ placed, ∃ defect : Defect, defect.FoundAt (.token p.token) ∧
      e = .malformed number p.column defect) (operands number placed) := by
  rw [operands_eq_separated]
  fun_induction separated number placed with
  | case1 => exact failsWith_ok _ []
  | case2 p =>
    refine FailsWith.bind ((operand_failsWith number p).mono ?_) fun o => failsWith_ok _ _
    intro e he
    exact ⟨p, List.mem_cons_self, he⟩
  | case3 p q rest ih =>
    have hq : q ∈ p :: q :: rest := List.mem_cons_of_mem p List.mem_cons_self
    refine FailsWith.bind ((operand_failsWith number p).mono ?_) fun o => ?_
    · intro e he
      exact ⟨p, List.mem_cons_self, he⟩
    · split
      · rename_i hcomma
        exact failsWith_error ⟨q, hq, _, .expectedComma hcomma, rfl⟩
      · rename_i hcomma
        split
        · refine failsWith_error ⟨q, hq, .trailingComma, ?_, rfl⟩
          rw [not_not.mp hcomma]
          exact .trailingComma
        · refine FailsWith.bind (ih.mono ?_) fun behind => failsWith_ok _ _
          rintro e ⟨r, hr, he⟩
          exact ⟨r, List.mem_cons_of_mem p (List.mem_cons_of_mem q hr), he⟩

theorem operand_ne_trailingComma (number column : Nat) (p : Placed) :
    operand number p ≠ .error (.malformed number column .trailingComma) := by
  obtain ⟨t, start⟩ := p
  intro h
  cases t with
  | hex value | binary value =>
    simp only [operand] at h
    split at h <;> cases h
  | _ => cases h

/-- A comma that ends the operands is reported in its own place: there is always a last token. -/
theorem operands_of_trailingComma {number column : Nat} {placed : List Placed}
    (h : operands number placed = .error (.malformed number column .trailingComma)) :
    ∃ p, placed.getLast? = some p ∧ p.token = .comma ∧ p.column = column := by
  rw [operands_eq_separated] at h
  fun_induction separated number placed with
  | case1 => cases h
  | case2 p =>
    rcases bind_eq_error_iff.mp h with ho | ⟨o, -, ho⟩
    · exact absurd ho (operand_ne_trailingComma number column p)
    · cases ho
  | case3 p q rest ih =>
    rcases bind_eq_error_iff.mp h with ho | ⟨o, -, ho⟩
    · exact absurd ho (operand_ne_trailingComma number column p)
    split at ho
    · cases ho
    rename_i hcomma
    cases rest with
    | nil =>
      cases ho
      exact ⟨q, rfl, not_not.mp hcomma, rfl⟩
    | cons p' rest =>
      rcases bind_eq_error_iff.mp ho with hrest | ⟨behind, -, hbehind⟩
      · exact ih hrest
      · cases hbehind

end Statements

section Places

variable {number : Nat} {text : List Char} {placed : List Placed} {p : Placed}

theorem Refused.of_mem (h : tokens number (Lexer.items text) = .ok placed) (hp : p ∈ placed)
    {defect : Defect} (hfound : defect.FoundAt (.token p.token)) :
    Refused number text (.malformed number p.column defect) := by
  rw [← tokens_takeWhile] at h
  obtain ⟨item, hitem, htoken, hcolumn⟩ := exists_item_of_mem h hp
  rw [hcolumn]
  rw [← htoken] at hfound
  exact .malformed hitem hfound

/-- A statement is refused for its head. -/
theorem statementOf_failsWith (h : tokens number (Lexer.items text) = .ok placed) (hp : p ∈ placed)
    (hhead : HeadedBy text p.token) (os : List Operand) :
    FailsWith (Refused number text) (statementOf number p os) := by
  unfold statementOf
  split
  · exact failsWith_ok _ _
  · rename_i name hname
    rw [hname] at hhead
    split
    · rename_i hword
      split
      · exact failsWith_ok _ _
      · refine failsWith_error (.of_mem h hp ?_)
        rw [hname]
        exact .dataIsRegister hword
      · rename_i hdatum hregister
        refine failsWith_error (.operandCount hhead hword ?_)
        intro hone
        obtain ⟨o, rfl⟩ := List.length_eq_one_iff.mp hone
        cases o with
        | register r => exact hregister r rfl
        | datum d => exact hdatum d rfl
    · rename_i hword
      exact failsWith_error (.invalidDirective hhead (Bool.eq_false_iff.mpr hword))
  · rename_i hname hdirective
    refine failsWith_error (.of_mem h hp (.expectedInstruction ?_))
    exact fun name => ⟨hname name, hdirective name⟩

theorem ofTokens_failsWith (h : tokens number (Lexer.items text) = .ok placed) :
    FailsWith (Refused number text) (ofTokens number placed) := by
  obtain ⟨hsplit, hend⟩ := splitLabels_tokens placed
  have hsuffix := splitLabels_suffix placed
  unfold ofTokens
  split
  · exact failsWith_ok _ _
  · rename_i labels head rest hlabels
    rw [hlabels] at hsplit hend hsuffix
    have hhead : HeadedBy text head.token :=
      ⟨labels, rest.map Placed.token, (tokens_eq_ok h).trans (congrArg _ hsplit), hend⟩
    refine FailsWith.bind ((operands_failsWith number rest).mono ?_) fun os => ?_
    · rintro e ⟨p, hp, defect, hfound, rfl⟩
      exact .of_mem h (hsuffix.mem (List.mem_cons_of_mem head hp)) hfound
    · have hmem := hsuffix.mem List.mem_cons_self
      exact (statementOf_failsWith h hmem hhead os).bind fun s => failsWith_ok _ _

theorem parse_failsWith (number : Nat) (text : List Char) :
    FailsWith (Refused number text) (parse number text) := by
  rw [parse]
  cases h : tokens number (Lexer.items text) with
  | error e =>
    rw [← tokens_takeWhile] at h
    obtain ⟨item, hitem, piece, hpiece, rfl⟩ := tokens_failsWith number _ e h
    refine failsWith_error (.malformed hitem ?_)
    rw [hpiece]
    exact .unexpectedInput piece
  | ok placed => exact ofTokens_failsWith h

/-- What is refused in reading a line names that line. A defect in its form is at an item in front
of the first line end, by the item's first byte. All else that can be wrong is a directive, which is
the first item behind the labels: a data directive without exactly one operand, or an unknown one.
-/
theorem parse_error_places (number : Nat) (text : List Char) :
    (∀ line column defect, parse number text = .error (.malformed line column defect) →
      line = number ∧
        ∃ item ∈ firstItems text, column = item.start + 1 ∧ defect.FoundAt item.lexeme) ∧
    (∀ line mnemonic expected count,
      parse number text = .error (.operandCount line mnemonic expected count) →
      line = number ∧ mnemonic = ".word" ∧ expected = 1 ∧ count ≠ 1 ∧
        ∃ name, HeadedBy text (.directive name) ∧ sameName name "word" = true) ∧
    (∀ line name, parse number text = .error (.invalidDirective line name) →
      line = number ∧ HeadedBy text (.directive name) ∧ sameName name "word" = false) ∧
    ∀ e, parse number text = .error e →
      (∃ column defect, e = .malformed number column defect) ∨
        (∃ count, e = .operandCount number ".word" 1 count) ∨
        ∃ name, e = .invalidDirective number name := by
  refine ⟨?_, ?_, ?_, ?_⟩
  · intro line column defect h
    cases parse_failsWith number text _ h with
    | malformed hitem hfound => exact ⟨rfl, _, hitem, rfl, hfound⟩
  · intro line mnemonic expected count h
    cases parse_failsWith number text _ h with
    | operandCount hhead hword hcount => exact ⟨rfl, rfl, rfl, hcount, _, hhead, hword⟩
  · intro line name h
    cases parse_failsWith number text _ h with
    | invalidDirective hhead hword => exact ⟨rfl, hhead, hword⟩
  · intro e h
    cases parse_failsWith number text e h with
    | malformed hitem hfound => exact .inl ⟨_, _, rfl⟩
    | operandCount hhead hword hcount => exact .inr (.inl ⟨_, rfl⟩)
    | invalidDirective hhead hword => exact .inr (.inr ⟨_, rfl⟩)

/-- Behind two labels, a letter of two bytes and a comma that ends the list have their columns, and
a directive is told apart from them. -/
theorem parse_error_places_labelled :
    let comma := "a: b: in r1,\nhalt".toList
    let letter := "a: in r1, é".toList
    let pair := "a: .Word 1, 2".toList
    let unknown := "a: .text".toList
    (parse 7 comma = .error (.malformed 7 12 .trailingComma) ∧
      ∃ item ∈ firstItems comma, 12 = item.start + 1 ∧ item.lexeme = .token .comma) ∧
    (parse 7 letter = .error (.malformed 7 11 (.unexpectedInput "é")) ∧
      ∃ item ∈ firstItems letter, 11 = item.start + 1 ∧ item.lexeme = .invalid "é") ∧
    (parse 7 pair = .error (.operandCount 7 ".word" 1 2) ∧
      ∃ name, HeadedBy pair (.directive name) ∧ sameName name "word" = true) ∧
    parse 7 unknown = .error (.invalidDirective 7 "text") ∧
      HeadedBy unknown (.directive "text") := by
  intro comma letter pair unknown
  have hcomma : parse 7 comma = .error (.malformed 7 12 .trailingComma) := by decide +kernel
  have hletter : parse 7 letter = .error (.malformed 7 11 (.unexpectedInput "é")) := by
    decide +kernel
  have hpair : parse 7 pair = .error (.operandCount 7 ".word" 1 2) := by decide +kernel
  have hunknown : parse 7 unknown = .error (.invalidDirective 7 "text") := by decide +kernel
  obtain ⟨-, item, hitem, hstart, hfound⟩ := (parse_error_places 7 comma).1 _ _ _ hcomma
  obtain ⟨-, other, hother, hstart', hfound'⟩ := (parse_error_places 7 letter).1 _ _ _ hletter
  obtain ⟨-, -, -, -, hword⟩ := (parse_error_places 7 pair).2.1 _ _ _ _ hpair
  obtain ⟨-, hhead, -⟩ := (parse_error_places 7 unknown).2.2.1 _ _ hunknown
  refine ⟨⟨hcomma, item, hitem, hstart, ?_⟩, ⟨hletter, other, hother, hstart', ?_⟩, ⟨hpair, hword⟩,
    hunknown, hhead⟩
  · generalize item.lexeme = found at hfound
    cases hfound
    rfl
  · generalize other.lexeme = found at hfound'
    cases hfound'
    rfl

end Places

end Line

section Encoding

/-- What can be wrong with a statement. An operand of the wrong kind has no column. -/
inductive Statement.Refused (line : Nat) : Error → Prop where
  | unknownInstruction (mnemonic : String) : Refused line (.unknownInstruction line mnemonic)
  | operandCount (mnemonic : String) (expected found : Nat) :
      Refused line (.operandCount line mnemonic expected found)
  | operandNotRegister (position : Nat) (mnemonic : String) :
      Refused line (.malformed line 0 (.operandNotRegister position mnemonic))
  | immediateIsRegister (r : Register) :
      Refused line (.malformed line 0 (.immediateIsRegister r))
  | invalidRegister (name : String) : Refused line (.invalidRegister line name)
  | invalidImmediate (value : Int) : Refused line (.invalidImmediate line value)
  | undefinedLabel (name : String) : Refused line (.undefinedLabel line name)

variable {line : Nat} {symbols : SymbolTable}

theorem toRegister_failsWith (mnemonic : String) (position : Nat) (o : Operand) :
    FailsWith (Statement.Refused line) (o.toRegister line mnemonic position) := by
  rcases o with r | value | name
  · exact failsWith_ok _ r
  · exact failsWith_error (.operandNotRegister position mnemonic)
  · exact failsWith_error (.invalidRegister name)

theorem toImmediate_failsWith (o : Operand) :
    FailsWith (Statement.Refused line) (o.toImmediate line symbols) := by
  rcases o with r | value | name
  · exact failsWith_error (.immediateIsRegister r)
  · rw [Operand.toImmediate]
    split
    · exact failsWith_ok _ _
    · exact failsWith_error (.invalidImmediate value)
  · rw [Operand.toImmediate]
    split
    · exact failsWith_error (.undefinedLabel name)
    · split
      · exact failsWith_ok _ _
      · exact failsWith_error (.invalidImmediate _)

theorem toInstruction_failsWith (mnemonic : String) (os : List Operand) :
    FailsWith (Statement.Refused line) (Statement.toInstruction line symbols mnemonic os) := by
  have hreg (position : Nat) (o : Operand) :
      FailsWith (Statement.Refused line) (o.toRegister line mnemonic position) :=
    toRegister_failsWith mnemonic position o
  rw [Statement.toInstruction]
  split
  · exact failsWith_error (.unknownInstruction mnemonic)
  · split
    case h_1 | h_2 | h_3 | h_4 | h_5 | h_6 | h_7 =>
      exact (hreg 1 _).bind fun a => (hreg 2 _).bind fun b => (hreg 3 _).bind fun c =>
        failsWith_ok _ _
    case h_8 => exact failsWith_ok _ _
    case h_9 | h_13 => exact (hreg 1 _).bind fun b => (hreg 2 _).bind fun c => failsWith_ok _ _
    case h_10 | h_11 | h_12 => exact (hreg 1 _).bind fun c => failsWith_ok _ _
    case h_14 =>
      exact (hreg 1 _).bind fun a => (toImmediate_failsWith _).bind fun value => failsWith_ok _ _
    case h_15 => exact failsWith_error (.operandCount mnemonic _ _)

theorem encode_failsWith (s : Statement) :
    FailsWith (Statement.Refused line) (s.encode line symbols) := by
  rcases s with ⟨mnemonic, os⟩ | value | name
  · exact (toInstruction_failsWith mnemonic os).bind fun i => failsWith_ok _ _
  · rw [Statement.encode, Datum.toWord]
    split
    · exact failsWith_ok _ _
    · exact failsWith_error (.invalidImmediate value)
  · rw [Statement.encode, Datum.toWord]
    split
    · exact failsWith_error (.undefinedLabel name)
    · exact failsWith_ok _ _

end Encoding

end UniversalMachine.Assembly
