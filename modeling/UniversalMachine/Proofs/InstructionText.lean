import UniversalMachine.Assembly.Statement
import UniversalMachine.Proofs.Codec
import UniversalMachine.Proofs.Reading
import Mathlib.Data.List.Forall2

/-! The text of an instruction is source for this instruction. -/

namespace UniversalMachine

/-- The operands as they are read from source. -/
def Instruction.operands : Instruction → List Assembly.Operand
  | conditionalMove a b c | arrayIndex a b c | arrayAmendment a b c | addition a b c
  | multiplication a b c | division a b c | notAnd a b c => [.register a, .register b, .register c]
  | halt => []
  | allocation b c | loadProgram b c => [.register b, .register c]
  | abandonment c | output c | input c => [.register c]
  | orthography a value => [.register a, .datum (.immediate value.toNat)]

theorem Opcode.ofMnemonic?_mnemonic (op : Opcode) : ofMnemonic? op.mnemonic = some op := by
  cases op <;> decide

theorem Opcode.mnemonic_toLower (op : Opcode) :
    String.ofList (op.mnemonic.toList.map Char.toLower) = op.mnemonic := by
  cases op <;> decide

namespace Assembly

open Lexer

theorem spells_mnemonic (op : Opcode) : Spells op.mnemonic.toList (.identifier op.mnemonic) := by
  obtain ⟨c, body, hname, hc, hb, hr⟩ : ∃ c body, op.mnemonic.toList = c :: body ∧
      isNameStart c = true ∧ (∀ d ∈ body, isNamePart d = true) ∧
      isRegisterName (c :: body) = false := by
    cases op <;> exact ⟨_, _, rfl, by decide, List.all_eq_true.mp (by decide), by decide⟩
  have h := spells_identifier hc hb hr
  rwa [← hname, String.ofList_toList] at h

theorem toNat_le_signedMax (w : Word) : (w.toNat : Int) ≤ signedMax := by
  have h := w.toNat_lt
  rw [signedMax]
  omega

/-- Pieces between commas give their tokens between commas. -/
theorem lexemes_intercalate {pieces : List (List Char)} {ts : List Token}
    (h : List.Forall₂ Spells pieces ts) :
    lexemes ([',', ' '].intercalate pieces) = (ts.intersperse .comma).map .token := by
  induction h with
  | nil => rw [List.intercalate_nil, lexemes_nil]; rfl
  | @cons piece t pieces ts hp hps ih =>
    cases hps with
    | nil =>
      have h := hp [] (stops_nil _)
      rw [List.append_nil, lexemes_nil] at h
      rw [List.intercalate_singleton, h]
      rfl
    | cons hq hqs =>
      rw [List.intercalate_cons_cons, List.append_assoc]
      have hstop : ∀ rest, Stops isNamePart ([',', ' '] ++ rest) :=
        fun rest => stops_cons (by decide) _
      rw [hp _ (hstop _), List.cons_append, List.singleton_append, lexemes_comma,
        lexemes_blank (by decide), ih]
      rfl

theorem spells_operandTexts (i : Instruction) :
    ∃ ts, List.Forall₂ Spells (i.operandTexts.map String.toList) ts ∧
      ts.map Operand.ofToken? = i.operands.map some := by
  cases i with
  | conditionalMove a b c | arrayIndex a b c | arrayAmendment a b c | addition a b c
  | multiplication a b c | division a b c | notAnd a b c =>
    exact ⟨[.register a, .register b, .register c],
      .cons (spells_register a) (.cons (spells_register b) (.cons (spells_register c) .nil)), rfl⟩
  | halt => exact ⟨[], .nil, rfl⟩
  | allocation b c | loadProgram b c =>
    exact ⟨[.register b, .register c],
      .cons (spells_register b) (.cons (spells_register c) .nil), rfl⟩
  | abandonment c | output c | input c =>
    exact ⟨[.register c], .cons (spells_register c) .nil, rfl⟩
  | orthography a value =>
    have hv : Spells (Digits.decimal value.toNat).toList (.number value.toNat) := by
      rw [Digits.decimal, String.toList_ofList]
      exact spells_decimal (toNat_le_signedMax value)
    exact ⟨[.register a, .number value.toNat], .cons (spells_register a) (.cons hv .nil), rfl⟩

theorem lexemes_text (i : Instruction) :
    ∃ ts : List Token, lexemes i.text.toList =
        (Token.identifier i.opcode.mnemonic :: ts.intersperse .comma).map .token ∧
      ts.map Operand.ofToken? = i.operands.map some := by
  obtain ⟨ts, hspell, hops⟩ := spells_operandTexts i
  refine ⟨ts, ?_, hops⟩
  have hlist := lexemes_intercalate hspell
  have hop := spells_mnemonic i.opcode
  rw [Instruction.text]
  split
  · rename_i hnone
    rw [hnone] at hspell
    cases hspell
    have h := hop [] (stops_nil _)
    rwa [List.append_nil, lexemes_nil] at h
  · have hsep : ", ".toList = [',', ' '] := rfl
    have hblank : " ".toList = [' '] := rfl
    rw [String.toList_append, String.toList_append, String.toList_intercalate, hsep, hblank,
      List.append_assoc, List.singleton_append, hop _ (stops_cons (by decide) _),
      lexemes_blank (by decide), hlist]
    rfl

theorem parse_text (number : Nat) (i : Instruction) :
    Line.parse number i.text.toList =
      .ok ⟨number, [], some (.instruction i.opcode.mnemonic i.operands)⟩ := by
  obtain ⟨ts, htext, hops⟩ := lexemes_text i
  apply Line.parse_of_lexemes htext hops
  intro column
  simp only [Line.statementOf, Opcode.mnemonic_toLower]

theorem toInstruction_of_mnemonic (line : Nat) (symbols : SymbolTable) {mnemonic : String}
    {i : Instruction} (hop : Opcode.ofMnemonic? mnemonic = some i.opcode) (h : i.Fits) :
    Statement.toInstruction line symbols mnemonic i.operands = .ok i := by
  rw [Statement.toInstruction, hop]
  cases i with
  | orthography a value =>
    have hmax : (value.toNat : Int) ≤ (Word.maxImmediate.toNat : Int) :=
      Int.ofNat_le.mpr (UInt32.le_iff_toNat_le.mp h)
    simp [Instruction.opcode, Instruction.operands, Operand.toRegister, Operand.toImmediate, hmax]
  | _ => rfl

theorem toInstruction_operands (line : Nat) (symbols : SymbolTable) {i : Instruction}
    (h : i.Fits) : Statement.toInstruction line symbols i.opcode.mnemonic i.operands = .ok i :=
  toInstruction_of_mnemonic line symbols (Opcode.ofMnemonic?_mnemonic i.opcode) h

end Assembly

end UniversalMachine
