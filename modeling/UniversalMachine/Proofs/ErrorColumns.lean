import UniversalMachine.Proofs.ErrorLines
import UniversalMachine.Proofs.SourceTiling

/-! Columns of a source.
A column counts the bytes of its line up to the item that is wrong. An operand of the wrong kind is
found only once all lines have been read, when its place is no longer known, and is reported in
column zero. -/

namespace UniversalMachine.Assembly

/-- The defects of statements that have been read: an operand is of the wrong kind. -/
def Defect.isOfOperand : Defect → Bool
  | .operandNotRegister .. | .immediateIsRegister _ => true
  | _ => false

theorem Defect.FoundAt.not_ofOperand {defect : Defect} {found : Lexeme}
    (h : defect.FoundAt found) : defect.isOfOperand = false := by
  cases h <;> rfl

section Sources

variable {number offset line column : Nat} {symbols : SymbolTable} {text : List Char}
  {defect : Defect} {source : String}

theorem start_lt_byteLength {item : Item} (h : item ∈ Lexer.items text) :
    item.start < Lexer.byteLength text := by
  obtain ⟨-, hlt, piece, after, ⟨before, rfl, -, hstop⟩, -⟩ :=
    (Lexer.itemsFrom_tiled [] text).item_holds h
  have hle := Lexer.byteLength_le_append (before ++ piece) after
  omega

theorem define_ne_malformed (names : List String) :
    SymbolTable.define number offset names symbols ≠ .error (.malformed line column defect) := by
  intro h
  induction names generalizing symbols with
  | nil => cases h
  | cons name rest ih =>
    rw [SymbolTable.define] at h
    split at h
    · cases h
    · split at h
      · cases h
      · exact ih h

theorem parse_of_ofLines_malformed
    (h : Layout.ofLines number offset symbols [text] = .error (.malformed line column defect)) :
    Line.parse number text = .error (.malformed line column defect) := by
  rw [Layout.ofLines] at h
  cases hparse : Line.parse number text with
  | error e =>
    rw [hparse] at h
    cases h
    rfl
  | ok read =>
    rw [hparse, ok_bind] at h
    cases hdefine : SymbolTable.define number offset read.labels symbols with
    | error e =>
      rw [hdefine] at h
      cases h
      exact absurd hdefine (define_ne_malformed read.labels)
    | ok known =>
      rw [hdefine, ok_bind] at h
      split at h <;> cases h

/-- A defect in the form of a line is reported in column zero exactly when it is that of an operand,
which is found once all lines have been read. Any other column counts the bytes of its line up to an
item that the report fits. -/
theorem assemble_error_column (h : assemble source = .error (.malformed line column defect)) :
    ∃ k text, line = k + 1 ∧ (Text.lines source.toList)[k]? = some text ∧
      (column = 0 ↔ defect.isOfOperand = true) ∧
      (column = 0 ↔ ∃ layout, Layout.ofSource source = .ok layout) ∧
      (column ≠ 0 → 1 ≤ column ∧ column ≤ Lexer.byteLength text ∧
        ∃ item ∈ firstItems text, column = item.start + 1 ∧ defect.FoundAt item.lexeme) := by
  cases hlayout : Layout.ofSource source with
  | error e =>
    rw [assemble, hlayout] at h
    cases h
    obtain ⟨front, text, back, first, htexts, -, hrefused⟩ := exists_first_refused hlayout
    have hparse := Line.parse_failsWith _ _ _ (parse_of_ofLines_malformed hrefused)
    generalize herror : Error.malformed line column defect = e at hparse
    cases hparse with
    | operandCount => cases herror
    | invalidDirective => cases herror
    | malformed hitem hfound =>
      cases herror
      have hstart := start_lt_byteLength (List.takeWhile_subset _ hitem)
      refine ⟨front.length, text, Nat.add_comm _ _, ?_, ?_, ?_, ?_⟩
      · rw [htexts, List.getElem?_append_right (Nat.le_refl _), Nat.sub_self]
        rfl
      · simp [hfound.not_ofOperand]
      · simp
      · exact fun _ => ⟨by omega, by omega, _, hitem, rfl, hfound⟩
  | ok layout =>
    rw [assemble, hlayout, ok_bind, Layout.encode] at h
    obtain ⟨lines, hread, hlaid⟩ := laid_of_ofLines hlayout
    rw [hlaid.lines_eq, encodeLines_filter] at h
    obtain ⟨k, read, s, hline, -, herror, -⟩ := exists_first_unencodable h
    obtain ⟨hk, hnumber⟩ := (hread.getElem? k).2 read hline
    rw [hnumber] at herror
    have hplace : line = 1 + k ∧ column = 0 ∧ defect.isOfOperand = true := by
      cases encode_failsWith s _ herror with
      | operandNotRegister | immediateIsRegister => exact ⟨rfl, rfl, rfl⟩
    obtain ⟨rfl, rfl, hoperand⟩ := hplace
    refine ⟨k, _, Nat.add_comm 1 k, List.getElem?_eq_getElem hk, ?_, ?_, ?_⟩
    · simp [hoperand]
    · simp
    · exact fun hne => absurd rfl hne

/-- A comma that is missing has its column in its line, behind a letter of two bytes. A number in
the place of a register has none. -/
theorem assemble_error_column_each :
    let missing := "halt\r\nadd r1, 'é' r2\r\n"
    let number := "halt\nout 5"
    (assemble missing = .error (.malformed 2 14 .expectedComma) ∧
      ∃ text, (Text.lines missing.toList)[1]? = some text ∧ 14 ≤ Lexer.byteLength text) ∧
    assemble number = .error (.malformed 2 0 (.operandNotRegister 1 "out")) ∧
      ∃ layout, Layout.ofSource number = .ok layout := by
  intro missing number
  have hmissing : assemble missing = .error (.malformed 2 14 .expectedComma) := by decide +kernel
  have hnumber : assemble number = .error (.malformed 2 0 (.operandNotRegister 1 "out")) := by
    decide +kernel
  obtain ⟨k, text, hk, htext, -, -, hplace⟩ := assemble_error_column hmissing
  obtain rfl : k = 1 := (Nat.succ.inj hk).symm
  obtain ⟨-, hle, -⟩ := hplace (by decide)
  obtain ⟨-, -, -, -, -, hread, -⟩ := assemble_error_column hnumber
  exact ⟨⟨hmissing, text, htext, hle⟩, hnumber, hread.mp rfl⟩

/-- So a column need not be a place in its line. -/
theorem assemble_column_outside_line :
    ∃ source line column defect, assemble source = .error (.malformed line column defect) ∧
      ∀ text, (Text.lines source.toList)[line - 1]? = some text →
        ¬ (1 ≤ column ∧ column ≤ Lexer.byteLength text) := by
  refine ⟨"out 5\n", 1, 0, .operandNotRegister 1 "out", by decide +kernel, ?_⟩
  rintro text - ⟨hpos, -⟩
  exact absurd hpos (by decide)

end Sources

end UniversalMachine.Assembly
