import UniversalMachine.Assembly.Source
import UniversalMachine.Proofs.InstructionText

/-! A listing is source for the program that it shows.
Reading back the last column of a listing gives every word in its canonical form: the word of the
instruction that it stands for, or the word itself where it stands for none. -/

namespace UniversalMachine

/-- The word of the instruction that a word stands for. A word that stands for none is kept. -/
def Word.canonical (w : Word) : Word :=
  match Instruction.decode w with
  | .ok i => i.encode
  | .error _ => w

namespace Listing

/-- What follows the first two blanks in a row. -/
def behindGap : List Char → Option (List Char)
  | [] => none
  | c :: rest =>
    if c = ' ' ∧ rest.head? = some ' ' then some rest.tail else behindGap rest

/-- The last of the columns that two blanks divide. -/
def sourceColumn (line : List Char) : List Char := ((behindGap line).bind behindGap).getD []

/-- Whether a line shows a word: it is neither empty nor a comment. -/
def showsWord (line : List Char) : Bool := !line.isEmpty && line.head? != some ';'

/-- The source that a listing shows, without its header and its first two columns. -/
def source (listing : String) : String :=
  String.ofList
    (['\n'].intercalate (((Text.lines listing.toList).filter showsWord).map sourceColumn))

theorem behindGap_append {head : List Char} (h : ' ' ∉ head) (rest : List Char) :
    behindGap (head ++ ' ' :: ' ' :: rest) = some rest := by
  induction head with
  | nil => simp [behindGap]
  | cons c head ih =>
    have hc : c ≠ ' ' := fun e => h (e ▸ List.mem_cons_self)
    rw [List.cons_append, behindGap, if_neg fun e => hc e.1]
    exact ih fun hm => h (List.mem_cons_of_mem c hm)

theorem blank_not_mem_hex (width n : Nat) : ' ' ∉ (Digits.hexUpperPadded width n).toList := by
  intro h
  exact absurd (Digits.isHexadecimal_of_mem_hexUpperPadded h) (by decide)

theorem line_toList (offset w : Word) :
    (line offset w).toList =
      ('0' :: 'x' :: (Digits.hexUpperPadded 8 offset.toNat).toList ++ [':']) ++ ' ' :: ' ' ::
        ((Digits.hexUpperPadded 8 w.toNat).toList ++ ' ' :: ' ' :: (statement w).toList) := by
  simp [line]

theorem behindGap_line (offset w : Word) :
    behindGap (line offset w).toList =
      some ((Digits.hexUpperPadded 8 w.toNat).toList ++ ' ' :: ' ' :: (statement w).toList) := by
  have hoffset : ' ' ∉ '0' :: 'x' :: (Digits.hexUpperPadded 8 offset.toNat).toList ++ [':'] := by
    simp [blank_not_mem_hex]
  rw [line_toList, behindGap_append hoffset]

theorem sourceColumn_line (offset w : Word) :
    sourceColumn (line offset w).toList = (statement w).toList := by
  rw [sourceColumn, behindGap_line, Option.bind_some,
    behindGap_append (blank_not_mem_hex 8 w.toNat), Option.getD_some]

theorem showsWord_line (offset w : Word) : showsWord (line offset w).toList = true := by
  rw [line_toList]
  rfl

section Lines

open Text

theorem isLine_decimal (n : Nat) : IsLine (Digits.decimal n).toList := by
  rw [Digits.decimal, String.toList_ofList]
  exact IsLine.of_forall (by decide) (by decide) fun _ h => Digits.isDecimal_of_mem_lower h

theorem isLine_hexUpperPadded (width n : Nat) : IsLine (Digits.hexUpperPadded width n).toList :=
  IsLine.of_forall (by decide) (by decide) fun _ h => Digits.isHexadecimal_of_mem_hexUpperPadded h

theorem isLine_hex (bytes : Bytes) : IsLine bytes.hex.toList := by
  rw [Bytes.hex, String.toList_ofList]
  apply IsLine.of_forall (p := Digits.isHexadecimal) (by decide) (by decide)
  intro c hc
  obtain ⟨b, -, hc⟩ := List.mem_flatMap.mp hc
  rcases Digits.mem_padLeft hc with rfl | hc
  · decide
  · exact Digits.isHexadecimal_of_mem_lower hc

theorem isLine_name (r : Register) : IsLine r.name.toList := by
  simp [Register.name, isLine_decimal]

theorem isLine_mnemonic (op : Opcode) : IsLine op.mnemonic.toList := by
  cases op <;> simp [Opcode.mnemonic]

theorem isLine_message (e : UnknownOpcode) : IsLine e.message.toList := by
  change IsLine ("Unknown opcode " ++ Digits.decimal e.code.toNat ++ " in word 0x" ++
    Digits.hexUpperPadded 8 e.word.toNat).toList
  simp [isLine_decimal, isLine_hexUpperPadded]

theorem isLine_statement (w : Word) : IsLine (statement w).toList := by
  rw [statement]
  split
  · rename_i i _
    cases i <;> simp [Instruction.text, Instruction.operandTexts, Instruction.opcode,
      isLine_mnemonic, isLine_name, isLine_decimal]
  · simp [isLine_message, isLine_hexUpperPadded]

theorem isLine_line (offset w : Word) : IsLine (line offset w).toList := by
  rw [line_toList]
  simp [isLine_hexUpperPadded, isLine_statement]

theorem statement_ne_nil (w : Word) : (statement w).toList ≠ [] := by
  rw [statement]
  split
  · rename_i i _
    cases i <;> simp [Instruction.text, Instruction.operandTexts, Instruction.opcode,
      Opcode.mnemonic]
  · simp

end Lines

/-- The comments at the head of a listing. -/
def headerLines (words : Nat) (digest : String) : List (List Char) :=
  ["; Universal Machine Disassembly".toList, "; Words: ".toList ++ (Digits.decimal words).toList,
    "; SHA-256: ".toList ++ digest.toList]

theorem header_lines (words : Nat) {digest : String} (h : Text.IsLine digest.toList) :
    (∀ t ∈ headerLines words digest, Text.IsLine t ∧ t.head? = some ';') ∧
      ("; Universal Machine Disassembly\n" ++ "; Words: " ++ Digits.decimal words ++ "\n" ++
        "; SHA-256: " ++ digest ++ "\n" ++ "\n").toList =
      (headerLines words digest ++ [[]]).flatMap (· ++ ['\n']) := by
  constructor
  · simp [headerLines, isLine_decimal, h]
  · simp [headerLines]

theorem isLine_checksum (p : Program) : Text.IsLine p.checksum.toList := by
  rw [Program.checksum]
  exact isLine_hex (Sha256.digest p.toBytes)

/-- The texts of the lines that show words, the first of them at the given offset. -/
def shownLines (offset : Nat) (p : Program) : List (List Char) :=
  (p.zipIdx offset).map fun e => (line (UInt32.ofNat e.2) e.1).toList

theorem shownLines_cons (offset : Nat) (w : Word) (p : Program) :
    shownLines offset (w :: p) =
      (line (UInt32.ofNat offset) w).toList :: shownLines (offset + 1) p := by
  simp only [shownLines, List.zipIdx_cons, List.map_cons]

theorem body_toList (offset : Nat) (p : Program) :
    (String.join (body offset p)).toList = (shownLines offset p).flatMap (· ++ ['\n']) := by
  induction p generalizing offset with
  | nil => rfl
  | cons w p ih =>
    have h := ih (offset + 1)
    rw [String.toList_join] at h ⊢
    rw [body, shownLines_cons, List.flatMap_cons, List.flatMap_cons, h, String.toList_append]
    rfl

theorem mem_shownLines {offset : Nat} {p : Program} {t : List Char} (h : t ∈ shownLines offset p) :
    Text.IsLine t ∧ showsWord t = true := by
  obtain ⟨e, -, rfl⟩ := List.mem_map.mp h
  exact ⟨isLine_line (UInt32.ofNat e.2) e.1, showsWord_line (UInt32.ofNat e.2) e.1⟩

theorem map_sourceColumn_shownLines (offset : Nat) (p : Program) :
    (shownLines offset p).map sourceColumn = p.map fun w => (statement w).toList := by
  induction p generalizing offset with
  | nil => rfl
  | cons w p ih => rw [shownLines_cons, List.map_cons, List.map_cons, sourceColumn_line, ih]

/-- A listing is three comments, an empty line and the lines that show words, each with its end. -/
theorem ofProgram_toList (p : Program) :
    (ofProgram p).toList =
      (headerLines p.length p.checksum ++ [] :: shownLines 0 p).flatMap (· ++ ['\n']) := by
  have hheader : (header p).toList = _ := (header_lines p.length (isLine_checksum p)).2
  rw [ofProgram, String.toList_append, hheader, body_toList, ← List.flatMap_append,
    List.append_assoc, List.singleton_append]

theorem lines_ofProgram (p : Program) :
    Text.lines (ofProgram p).toList = headerLines p.length p.checksum ++ [] :: shownLines 0 p := by
  have hlines : ∀ t ∈ headerLines p.length p.checksum ++ [] :: shownLines 0 p, Text.IsLine t := by
    intro t ht
    rcases List.mem_append.mp ht with ht | ht
    · exact ((header_lines p.length (isLine_checksum p)).1 t ht).1
    · rcases List.mem_cons.mp ht with rfl | ht
      · exact Text.isLine_nil
      · exact (mem_shownLines ht).1
  have h := Text.lines_flatMap_newline hlines []
  rwa [List.append_nil, Text.lines_nil, List.append_nil, ← ofProgram_toList] at h

/-- The source that a listing shows is made of the statements of its words. -/
theorem source_ofProgram (p : Program) :
    (source (ofProgram p)).toList = ['\n'].intercalate (p.map fun w => (statement w).toList) := by
  have hnone : (headerLines p.length p.checksum).filter showsWord = [] := by
    rw [List.filter_eq_nil_iff]
    intro t ht
    simp [showsWord, ((header_lines p.length (isLine_checksum p)).1 t ht).2]
  have hempty : showsWord [] = false := rfl
  have hall : (shownLines 0 p).filter showsWord = shownLines 0 p := by
    rw [List.filter_eq_self]
    intro t ht
    exact (mem_shownLines ht).2
  rw [source, String.toList_ofList, lines_ofProgram, List.filter_append, hnone, List.nil_append,
    List.filter_cons_of_neg (by rw [hempty]; exact Bool.false_ne_true), hall,
    map_sourceColumn_shownLines]

section Statements

open Assembly Lexer

/-- A word shown as data is a directive and a number; the note behind it is a comment. -/
theorem lexemes_data (w : Word) {note : List Char} (hnote : '\n' ∉ note) :
    lexemes (".word 0x".toList ++ (Digits.hexUpperPadded 8 w.toNat).toList ++ "  ; ".toList ++
      note) = [Token.directive "word", .hex w.toNat].map .token := by
  have hread := Digits.read_hexUpperPadded 8 w.toNat
  have hdigits : ∀ d ∈ (Digits.hexUpperPadded 8 w.toNat).toList, Digits.isHexadecimal d = true :=
    fun d hd => Digits.isHexadecimal_of_mem_hexUpperPadded hd
  have hne : (Digits.hexUpperPadded 8 w.toNat).toList ≠ [] := by
    simp [Digits.hexUpperPadded, Digits.padLeft, Digits.upper, Nat.toDigits_ne_nil]
  generalize (Digits.hexUpperPadded 8 w.toNat).toList = digits at hread hdigits hne
  have hword : Spells ['.', 'w', 'o', 'r', 'd'] (.directive "word") :=
    spells_directive (by decide) (List.all_eq_true.mp (by decide))
  have hhex : Spells ('0' :: 'x' :: digits) (.hex w.toNat) := by
    have hfit : Digits.read 16 digits < unsignedBound := by
      have h := w.toNat_lt
      rw [hread, unsignedBound]
      omega
    rw [← hread]
    exact spells_hex hne hdigits hfit
  have hcomment : lexemes (';' :: ' ' :: note) = [] := by
    apply lexemes_comment (by decide)
    simp [hnote]
  have htext : ".word 0x".toList ++ digits ++ "  ; ".toList ++ note =
      ['.', 'w', 'o', 'r', 'd'] ++ ' ' :: ('0' :: 'x' :: digits ++ ' ' :: ' ' :: ';' :: ' ' ::
        note) := by
    simp
  rw [htext, hword _ (stops_cons (by decide) _), lexemes_blank (by decide),
    hhex _ (stops_cons (by decide) _), lexemes_blank (by decide), lexemes_blank (by decide),
    hcomment]
  rfl

/-- The source column of a word is read as one statement, and this statement has the word's
canonical form under every symbol table. -/
theorem parse_statement (number : Nat) (w : Word) :
    ∃ s, Line.parse number (statement w).toList = .ok ⟨number, [], some s⟩ ∧
      ∀ symbols, s.encode number symbols = .ok w.canonical := by
  cases hw : Instruction.decode w with
  | ok i =>
    refine ⟨.instruction i.opcode.mnemonic i.operands, ?_, ?_⟩
    · rw [statement, hw]
      exact parse_text number i
    · intro symbols
      rw [Statement.encode, toInstruction_operands number symbols (Instruction.fits_of_decode hw),
        Word.canonical, hw]
      rfl
  | error e =>
    have hlt := w.toNat_lt
    refine ⟨.word (.immediate w.toNat), ?_, ?_⟩
    · have htext := lexemes_data w (isLine_message e).no_newline
      rw [← String.toList_append, ← String.toList_append, ← String.toList_append] at htext
      have hops : [Token.hex w.toNat].map Operand.ofToken? =
          [Operand.datum (.immediate w.toNat)].map some := by
        simp [Operand.ofToken?, toNat_le_signedMax]
      rw [statement, hw]
      apply Line.parse_of_lexemes htext hops
      intro column
      rfl
    · intro symbols
      have hrange : (-2147483648 : Int) ≤ w.toNat ∧ (w.toNat : Int) ≤ 4294967295 := by
        omega
      have hself : UInt32.ofInt w.toNat = w := by
        apply UInt32.toNat_inj.mp
        rw [UInt32.ofInt, UInt32.toNat_ofNat']
        omega
      rw [Statement.encode, Datum.toWord, if_pos hrange, Word.canonical, hw, hself]

/-- Lines of statements that define no label leave the symbol table as it is. -/
theorem ofLines_statements (p : Program) (number offset : Nat) (symbols : SymbolTable) :
    ∃ lines, Layout.ofLines number offset symbols (p.map fun w => (statement w).toList) =
        .ok ⟨lines, symbols⟩ ∧
      ∀ table, Layout.encodeLines table lines = .ok (p.map Word.canonical) := by
  induction p generalizing number offset with
  | nil => exact ⟨[], rfl, fun _ => rfl⟩
  | cons w p ih =>
    obtain ⟨s, hparse, hencode⟩ := parse_statement number w
    obtain ⟨lines, hlines, hwords⟩ := ih (number + 1) (offset + 1)
    refine ⟨⟨number, [], some s⟩ :: lines, ?_, ?_⟩
    · simp [Layout.ofLines, hparse, SymbolTable.define, hlines]
    · intro table
      simp [Layout.encodeLines, hencode, hwords]

end Statements

/-- Assembling the source that a listing shows gives each word in its canonical form, and so gives
back a program whose instructions are all canonical. -/
theorem assemble_source_ofProgram (p : Program) :
    Assembly.assemble (source (ofProgram p)) = .ok (p.map Word.canonical) ∧
      ((∀ w ∈ p, ∀ i, Instruction.decode w = .ok i → i.encode = w) →
        Assembly.assemble (source (ofProgram p)) = .ok p) := by
  have hcanonical : Assembly.assemble (source (ofProgram p)) = .ok (p.map Word.canonical) := by
    have hlines : Text.lines (source (ofProgram p)).toList =
        p.map fun w => (statement w).toList := by
      rw [source_ofProgram, Text.lines_intercalate_newline]
      intro t ht
      obtain ⟨w, -, rfl⟩ := List.mem_map.mp ht
      exact ⟨isLine_statement w, statement_ne_nil w⟩
    obtain ⟨lines, hlayout, hwords⟩ := ofLines_statements p 1 0 []
    rw [Assembly.assemble, Assembly.Layout.ofSource, hlines, hlayout, Assembly.ok_bind]
    exact hwords []
  refine ⟨hcanonical, fun h => ?_⟩
  have hself : p.map Word.canonical = p := by
    conv_rhs => rw [← List.map_id p]
    apply List.map_congr_left
    intro w hw
    rw [Word.canonical]
    split
    · rename_i i hi
      exact h w hw i hi
    · rfl
  rw [hcanonical, hself]

theorem assemble_source_ofProgram_data :
    (∀ w ∈ [(0x70000000 : Word), 0xE0000000], ∀ i, Instruction.decode w = .ok i → i.encode = w) ∧
      Assembly.assemble (source (ofProgram [0x70000000, 0xE0000000])) =
        .ok [0x70000000, 0xE0000000] := by
  have h : ∀ w ∈ [(0x70000000 : Word), 0xE0000000], ∀ i,
      Instruction.decode w = .ok i → i.encode = w := by
    intro w hw i hi
    simp only [List.mem_cons, List.not_mem_nil, or_false] at hw
    rcases hw with rfl | rfl
    · cases hi
      rfl
    · cases hi
  exact ⟨h, (assemble_source_ofProgram _).2 h⟩

end Listing

end UniversalMachine
