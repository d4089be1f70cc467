import UniversalMachine.Proofs.LongestMatch
import UniversalMachine.Proofs.SingleLine
import Mathlib.Data.List.Induction
import Mathlib.Data.Nat.Digits.Defs

/-! Literals and the values they denote.
Digits have their usual values and a numeral has the value of its digits in its base, whatever their
number. Assembled as data or as an immediate, a literal gives this value where it is in range; where
it is not, the error names the value as long as it fits in 64 bits, and else the literal. -/

namespace UniversalMachine.Assembly

open Lexer

inductive Base where
  | binary
  | decimal
  | hexadecimal
  deriving DecidableEq, Repr

def Base.radix : Base → Nat
  | binary => 2
  | decimal => 10
  | hexadecimal => 16

/-- The digits in the order of their values, letters in lower case. -/
def lowerDigits : List Char :=
  ['0', '1', '2', '3', '4', '5', '6', '7', '8', '9', 'a', 'b', 'c', 'd', 'e', 'f']

/-- The digits in the order of their values, letters in upper case. -/
def upperDigits : List Char :=
  ['0', '1', '2', '3', '4', '5', '6', '7', '8', '9', 'A', 'B', 'C', 'D', 'E', 'F']

def Base.IsDigit (base : Base) (c : Char) : Prop :=
  c ∈ lowerDigits.take base.radix ∨ c ∈ upperDigits.take base.radix

instance (base : Base) (c : Char) : Decidable (base.IsDigit c) :=
  inferInstanceAs (Decidable (_ ∨ _))

/-- The place of a digit among the digits. -/
def digitValue (c : Char) : Nat := min (lowerDigits.idxOf c) (upperDigits.idxOf c)

/-- A row of digits, with any number of zeros in front. -/
structure Numeral (base : Base) where
  digits : List Char
  nonempty : digits ≠ []
  isDigit : ∀ c ∈ digits, base.IsDigit c

section Digits

variable {base : Base} {c : Char}

theorem digitValue_eq (h : base.IsDigit c) : Digits.value c = digitValue c := by
  have hlower : ∀ d ∈ lowerDigits, (Digits.value d == digitValue d) = true :=
    List.all_eq_true.mp (by decide)
  have hupper : ∀ d ∈ upperDigits, (Digits.value d == digitValue d) = true :=
    List.all_eq_true.mp (by decide)
  rcases h with h | h
  · exact beq_iff_eq.mp (hlower c (List.mem_of_mem_take h))
  · exact beq_iff_eq.mp (hupper c (List.mem_of_mem_take h))

/-- The class of characters by which the lexer knows the digits of a base. -/
def Base.accepts : Base → Char → Bool
  | binary => Digits.isBinary
  | decimal => Digits.isDecimal
  | hexadecimal => Digits.isHexadecimal

theorem accepts_of_isDigit (h : base.IsDigit c) : base.accepts c = true := by
  have hlower : ∀ d ∈ lowerDigits.take base.radix, base.accepts d = true := by
    cases base <;> exact List.all_eq_true.mp (by decide)
  have hupper : ∀ d ∈ upperDigits.take base.radix, base.accepts d = true := by
    cases base <;> exact List.all_eq_true.mp (by decide)
  rcases h with h | h
  · exact hlower c h
  · exact hupper c h

theorem isDigit_zero (base : Base) : base.IsDigit '0' := by
  left
  cases base <;> decide

end Digits

namespace Numeral

variable {base : Base} (n : Numeral base)

/-- The value of the digits by their places, the last digit counting once. -/
def value : Nat := Nat.ofDigits base.radix (n.digits.map digitValue).reverse

theorem zeros_append_ne_nil (k : Nat) : List.replicate k '0' ++ n.digits ≠ [] := by
  intro h
  exact n.nonempty (List.append_eq_nil_iff.mp h).2

theorem isDigit_of_mem_zeros_append (k : Nat) :
    ∀ c ∈ List.replicate k '0' ++ n.digits, base.IsDigit c := by
  intro c hc
  rcases List.mem_append.mp hc with hc | hc
  · rw [List.eq_of_mem_replicate hc]
    exact isDigit_zero base
  · exact n.isDigit c hc

/-- The numeral with more zeros in front. -/
def padded (k : Nat) : Numeral base :=
  ⟨List.replicate k '0' ++ n.digits, n.zeros_append_ne_nil k, n.isDigit_of_mem_zeros_append k⟩

/-- Reading from the left gives what the places say. -/
theorem read_eq_value : Digits.read base.radix n.digits = n.value := by
  have hplaces : ∀ text : List Char, (∀ c ∈ text, base.IsDigit c) →
      Digits.read base.radix text = Nat.ofDigits base.radix (text.map digitValue).reverse := by
    intro text
    induction text using List.reverseRecOn with
    | nil =>
      intro _
      rfl
    | append_singleton text c ih =>
      intro hdigits
      have hc := hdigits c (by simp)
      have htext := ih fun d hd => hdigits d (by simp [hd])
      rw [Digits.read_append_singleton, htext, digitValue_eq hc, List.map_append,
        List.map_singleton, List.reverse_append, List.reverse_singleton, List.singleton_append,
        Nat.ofDigits_cons, Nat.add_comm]
  exact hplaces n.digits n.isDigit

theorem value_padded (k : Nat) : (n.padded k).value = n.value := by
  rw [← read_eq_value, ← read_eq_value]
  exact Digits.read_zeros_append base.radix k n.digits

theorem exists_cons : ∃ c body, n.digits = c :: body ∧ base.accepts c = true ∧
    ∀ d ∈ body, base.accepts d = true := by
  obtain ⟨c, body, hcons⟩ := List.exists_cons_of_ne_nil n.nonempty
  have hall : ∀ d ∈ c :: body, base.accepts d = true := by
    intro d hd
    exact accepts_of_isDigit (n.isDigit d (hcons ▸ hd))
  exact ⟨c, body, hcons, List.forall_mem_cons.mp hall⟩

end Numeral

/-- The ways to write a number. Letters may be large or small, and a character stands for its code
point. -/
inductive Literal where
  | decimal (negative : Bool) (n : Numeral .decimal)
  | hexadecimal (large : Bool) (n : Numeral .hexadecimal)
  | binary (large : Bool) (n : Numeral .binary)
  | character (c : { c : Char // c ≠ quote ∧ c ≠ backslash ∧ c ≠ '\n' })

namespace Literal

def text : Literal → List Char
  | decimal negative n => if negative then '-' :: n.digits else n.digits
  | hexadecimal large n => '0' :: (if large then 'X' else 'x') :: n.digits
  | binary large n => '0' :: (if large then 'B' else 'b') :: n.digits
  | character c => [quote, c.val, quote]

def value : Literal → Int
  | decimal negative n => if negative then -n.value else n.value
  | hexadecimal _ n | binary _ n => n.value
  | character c => c.val.toNat

/-- The literal with more zeros in front of its digits. -/
def padded (k : Nat) : Literal → Literal
  | decimal negative n => decimal negative (n.padded k)
  | hexadecimal large n => hexadecimal large (n.padded k)
  | binary large n => binary large (n.padded k)
  | character c => character c

theorem value_padded (k : Nat) (l : Literal) : (l.padded k).value = l.value := by
  cases l with
  | decimal negative n => simp only [padded, value, n.value_padded]
  | hexadecimal large n => simp only [padded, value, n.value_padded]
  | binary large n => simp only [padded, value, n.value_padded]
  | character c => rfl

def shape : Literal → Shape
  | decimal _ _ => .number
  | hexadecimal _ _ => .hex
  | binary _ _ => .binary
  | character _ => .char

theorem matches_text (l : Literal) : l.shape.Matches l.text := by
  cases l with
  | decimal negative n =>
    obtain ⟨c, body, hcons, hc, hbody⟩ := n.exists_cons
    rw [text, hcons]
    cases negative with
    | false => exact .number hc hbody
    | true => exact .negative hc hbody
  | hexadecimal large n =>
    obtain ⟨c, body, hcons, hc, hbody⟩ := n.exists_cons
    have hmark : isHexMark (if large then 'X' else 'x') = true := by cases large <;> decide
    rw [text, hcons]
    exact .hex hmark hc hbody
  | binary large n =>
    obtain ⟨c, body, hcons, hc, hbody⟩ := n.exists_cons
    have hmark : isBinaryMark (if large then 'B' else 'b') = true := by cases large <;> decide
    rw [text, hcons]
    exact .binary hmark hc hbody
  | character c =>
    obtain ⟨c, hquote, hslash, hnewline⟩ := c
    exact .char hquote hslash hnewline

theorem lexemes_text (l : Literal) : lexemes l.text = [lexeme l.shape l.text] := by
  apply lexemes_of_matches l.matches_text
  · cases l <;> rfl
  · cases l <;> exact Shape.noConfusion

theorem numberValue_text (negative : Bool) (n : Numeral .decimal) :
    numberValue (decimal negative n).text = (decimal negative n).value := by
  have hread := n.read_eq_value
  cases negative with
  | true => exact congrArg (fun m : Nat => -(m : Int)) hread
  | false =>
    obtain ⟨c, body, hcons, hc, -⟩ := n.exists_cons
    have hdigits : (decimal false n).text = c :: body := hcons
    rw [hdigits, numberValue_of_isDecimal hc, ← hcons]
    exact congrArg Int.ofNat hread

theorem unsigned?_numeral {base : Base} (n : Numeral base) (mark : Char) :
    unsigned? base.radix ('0' :: mark :: n.digits) =
      if n.value < unsignedBound then some n.value else none := by
  simp only [unsigned?, List.drop_succ_cons, List.drop_zero, n.read_eq_value]

/-- The operand that a literal is read as. -/
def operand? (l : Literal) : Option Operand := (token? l.shape l.text).bind Operand.ofToken?

/-- A numeral with a base mark whose value needs more than 64 bits is refused by the lexer, and one
that needs all of them by the reader of operands. -/
theorem operand?_marked {base : Base} (n : Numeral base) (mark : Char) {make : Nat → Token}
    (hmake : ∀ value, Operand.ofToken? (make value) =
      if (value : Int) ≤ signedMax then some (.datum (.immediate value)) else none) :
    ((unsigned? base.radix ('0' :: mark :: n.digits)).map make).bind Operand.ofToken? =
      if signedMin ≤ n.value ∧ n.value ≤ signedMax then some (.datum (.immediate n.value))
      else none := by
  have hmin : signedMin ≤ n.value := by
    rw [signedMin]
    omega
  rw [unsigned?_numeral]
  by_cases hmax : (n.value : Int) ≤ signedMax
  · have hbound : n.value < unsignedBound := by
      rw [signedMax] at hmax
      rw [unsignedBound]
      omega
    simp only [hmin, hmax, hbound, hmake, and_self, if_true, Option.map_some, Option.bind_some]
  · simp only [hmax, and_false, if_false]
    by_cases hbound : n.value < unsignedBound
    · simp only [hbound, hmax, hmake, if_true, if_false, Option.map_some, Option.bind_some]
    · simp only [hbound, if_false, Option.map_none, Option.bind_none]

/-- A literal is read as its value if that fits in 64 bits, and else as nothing. -/
theorem operand?_eq (l : Literal) :
    l.operand? =
      if signedMin ≤ l.value ∧ l.value ≤ signedMax then some (.datum (.immediate l.value))
      else none := by
  cases l with
  | decimal negative n =>
    have htoken := numberValue_text negative n
    simp only [operand?, shape, token?, htoken, Bool.and_eq_true, decide_eq_true_eq]
    by_cases hfits : signedMin ≤ (decimal negative n).value ∧ (decimal negative n).value ≤ signedMax
    · rw [if_pos hfits, if_pos hfits]
      rfl
    · rw [if_neg hfits, if_neg hfits]
      rfl
  | hexadecimal large n => exact operand?_marked n _ fun value => rfl
  | binary large n => exact operand?_marked n _ fun value => rfl
  | character c =>
    obtain ⟨c, hquote, hslash, hnewline⟩ := c
    have hvalue : charValue? [quote, c, quote] = some c := by
      simp [charValue?, hslash]
    have hfits : signedMin ≤ (c.toNat : Int) ∧ (c.toNat : Int) ≤ signedMax := by
      have hlt : c.toNat < 4294967296 := c.val.toNat_lt
      rw [signedMin, signedMax]
      omega
    simp only [operand?, shape, text, token?, hvalue, value, hfits]
    rfl

theorem ne_of_token? {l : Literal} {t : Token} (h : token? l.shape l.text = some t) :
    t ≠ .newline ∧ t ≠ .colon := by
  cases l with
  | decimal negative n =>
    simp only [shape, token?] at h
    split at h
    · cases h
      exact ⟨Token.noConfusion, Token.noConfusion⟩
    · cases h
  | hexadecimal large n | binary large n | character c =>
    obtain ⟨value, -, rfl⟩ := Option.map_eq_some_iff.mp h
    exact ⟨Token.noConfusion, Token.noConfusion⟩

section Lines

/-! Lines that end in a literal, behind a head and the operands before it. -/

/-- Operands that more operands follow. -/
def leading (ts : List Token) : List Token := ts.flatMap fun t => [t, .comma]

theorem leading_append (ts : List Token) (t : Token) :
    leading ts ++ [t] = (ts ++ [t]).intersperse .comma := by
  induction ts with
  | nil => rfl
  | cons u us ih =>
    have hcons : (u :: us ++ [t]).intersperse .comma =
        u :: .comma :: (us ++ [t]).intersperse .comma := by
      cases us <;> rfl
    rw [hcons, ← ih]
    rfl

variable {number : Nat} {l : Literal} {text : List Char} {head : Token} {ts : List Token}
  {os : List Operand}

/-- Operands and the commas behind them are neither line ends nor colons. -/
theorem ne_of_mem_leading (hts : ∀ t ∈ ts, Operand.ofToken? t ≠ none) {u : Token}
    (hu : u ∈ leading ts) : u ≠ .newline ∧ u ≠ .colon := by
  obtain ⟨t, ht, hu⟩ := List.mem_flatMap.mp hu
  rcases List.mem_cons.mp hu with rfl | hu
  · constructor
    · rintro rfl
      exact hts _ ht rfl
    · rintro rfl
      exact hts _ ht rfl
  · obtain rfl := List.mem_singleton.mp hu
    exact ⟨Token.noConfusion, Token.noConfusion⟩

theorem lexemes_line (htext : lexemes text = (head :: leading ts).map .token ++ lexemes l.text)
    {t : Token} (htoken : token? l.shape l.text = some t) :
    lexemes text = (head :: (ts ++ [t]).intersperse .comma).map .token := by
  rw [htext, l.lexemes_text, lexeme, htoken, ← leading_append, ← List.cons_append, List.map_append]
  rfl

theorem parse_of_fits (htext : lexemes text = (head :: leading ts).map .token ++ lexemes l.text)
    (hos : ts.map Operand.ofToken? = os.map some)
    (hfits : signedMin ≤ l.value ∧ l.value ≤ signedMax) {s : Statement}
    (hs : ∀ column,
      Line.statementOf number ⟨head, column⟩ (os ++ [.datum (.immediate l.value)]) = .ok s) :
    Line.parse number text = .ok ⟨number, [], some s⟩ := by
  have hoperand := l.operand?_eq
  rw [if_pos hfits, operand?] at hoperand
  obtain ⟨t, htoken, ht⟩ := Option.bind_eq_some_iff.mp hoperand
  apply Line.parse_of_lexemes (lexemes_line htext htoken) _ hs
  rw [List.map_append, List.map_append, hos, List.map_singleton, ht]
  rfl

theorem parse_of_not_fits
    (htext : lexemes text = (head :: leading ts).map .token ++ lexemes l.text)
    (hhead : head ≠ .newline) (hts : ∀ t ∈ ts, Operand.ofToken? t ≠ none)
    (hlarge : ¬ (signedMin ≤ l.value ∧ l.value ≤ signedMax)) :
    ∃ column defect, Line.parse number text = .error (.malformed number column defect) := by
  have hoperand := l.operand?_eq
  rw [if_neg hlarge, operand?] at hoperand
  cases htoken : token? l.shape l.text with
  | none =>
    -- the literal itself is no token
    have hlexemes : (items text).map Item.lexeme =
        (head :: leading ts).map .token ++ [.invalid (String.ofList l.text)] := by
      have hinvalid := l.lexemes_text
      rw [lexeme, htoken] at hinvalid
      exact hinvalid ▸ htext
    have hnewline : .newline ∉ head :: leading ts := by
      intro hmem
      rcases List.mem_cons.mp hmem with heq | hmem
      · exact hhead heq.symm
      · exact (ne_of_mem_leading hts hmem).1 rfl
    obtain ⟨column, herror⟩ := Line.tokens_of_invalid number hlexemes hnewline
    refine ⟨column, .unexpectedInput (String.ofList l.text), ?_⟩
    rw [Line.parse, herror]
    rfl
  | some t =>
    -- the literal is a token, but not an operand
    have ht : Operand.ofToken? t = none := by rwa [htoken] at hoperand
    obtain ⟨hnewline, hcolon⟩ := ne_of_token? htoken
    have hplain : ∀ u ∈ (ts ++ [t]).intersperse .comma, u ≠ .newline ∧ u ≠ .colon := by
      intro u hu
      rw [← leading_append, List.mem_append, List.mem_singleton] at hu
      rcases hu with hu | rfl
      · exact ne_of_mem_leading hts hu
      · exact ⟨hnewline, hcolon⟩
    have hone : .newline ∉ head :: (ts ++ [t]).intersperse .comma := by
      intro hmem
      rcases List.mem_cons.mp hmem with heq | hmem
      · exact hhead heq.symm
      · exact (hplain _ hmem).1 rfl
    obtain ⟨placed, hplaced, hmap⟩ :=
      Line.tokens_of_lexemes number (lexemes_line htext htoken) hone
    obtain ⟨p, rest, rfl, rfl, hrest⟩ := List.map_eq_cons_iff.mp hmap
    have hsplit : Line.splitLabels (p :: rest) = ([], p :: rest) := by
      apply Line.splitLabels_cons
      intro hmem
      rw [hrest] at hmem
      exact (hplain _ (List.mem_of_mem_head? hmem)).2 rfl
    obtain ⟨column, defect, herror⟩ := Line.operands_of_unreadable number hrest hts ht
    refine ⟨column, defect, ?_⟩
    rw [Line.parse, hplaced, ok_bind, Line.ofTokens, hsplit]
    simp only [herror]
    rfl

variable {source : String}

theorem ne_empty_of_lexemes {found : Lexeme} {rest : List Lexeme}
    (h : lexemes source.toList = found :: rest) : source ≠ "" := by
  rintro rfl
  rw [String.toList_empty, lexemes_nil] at h
  cases h

theorem assemble_of_fits
    (htext : lexemes source.toList = (head :: leading ts).map .token ++ lexemes l.text)
    (hline : '\n' ∉ source.toList) (hos : ts.map Operand.ofToken? = os.map some)
    (hfits : signedMin ≤ l.value ∧ l.value ≤ signedMax) {s : Statement}
    (hs : ∀ column,
      Line.statementOf 1 ⟨head, column⟩ (os ++ [.datum (.immediate l.value)]) = .ok s) :
    assemble source = (s.encode 1 []).map fun w => [w] :=
  assemble_line (ne_empty_of_lexemes htext) hline (parse_of_fits htext hos hfits hs) rfl rfl

theorem assemble_of_not_fits
    (htext : lexemes source.toList = (head :: leading ts).map .token ++ lexemes l.text)
    (hline : '\n' ∉ source.toList) (hhead : head ≠ .newline)
    (hts : ∀ t ∈ ts, Operand.ofToken? t ≠ none)
    (hlarge : ¬ (signedMin ≤ l.value ∧ l.value ≤ signedMax)) :
    ∃ column defect, assemble source = .error (.malformed 1 column defect) := by
  obtain ⟨column, defect, hparse⟩ : ∃ column defect,
      Line.parse 1 source.toList = .error (.malformed 1 column defect) :=
    parse_of_not_fits htext hhead hts hlarge
  exact ⟨column, defect, assemble_line_error (ne_empty_of_lexemes htext) hline hparse⟩

end Lines

section Assembled

variable (l : Literal) (r : Register)

theorem newline_not_mem_text : '\n' ∉ l.text := by
  have hdigits : ∀ {base : Base} (n : Numeral base), '\n' ∉ n.digits := by
    intro base n hmem
    have haccepts := accepts_of_isDigit (n.isDigit _ hmem)
    cases base <;> exact absurd haccepts (by decide)
  cases l with
  | decimal negative n => cases negative <;> simp [text, hdigits n]
  | hexadecimal large n => cases large <;> simp [text, hdigits n]
  | binary large n => cases large <;> simp [text, hdigits n]
  | character c => simp [text, quote, c.property.2.2.symm]

theorem lexemes_data_line : lexemes (".word ".toList ++ l.text) =
    (Token.directive "word" :: leading []).map .token ++ lexemes l.text := by
  have hword : Spells ['.', 'w', 'o', 'r', 'd'] (.directive "word") :=
    spells_directive (by decide) (List.all_eq_true.mp (by decide))
  have htext : ".word ".toList ++ l.text = ['.', 'w', 'o', 'r', 'd'] ++ ' ' :: l.text := by simp
  rw [htext, hword _ (stops_cons (by decide) _), lexemes_blank (by decide)]
  rfl

theorem lexemes_immediate_line :
    lexemes ("ortho ".toList ++ r.name.toList ++ ", ".toList ++ l.text) =
      (Token.identifier "ortho" :: leading [.register r]).map .token ++ lexemes l.text := by
  have hortho : Spells ['o', 'r', 't', 'h', 'o'] (.identifier "ortho") :=
    spells_mnemonic .orthography
  have htext : "ortho ".toList ++ r.name.toList ++ ", ".toList ++ l.text =
      ['o', 'r', 't', 'h', 'o'] ++ ' ' :: (r.name.toList ++ ',' :: ' ' :: l.text) := by simp
  rw [htext, hortho _ (stops_cons (by decide) _), lexemes_blank (by decide),
    spells_register r _ (stops_cons (by decide) _), lexemes_comma, lexemes_blank (by decide)]
  rfl

theorem data_source : (".word " ++ String.ofList l.text).toList = ".word ".toList ++ l.text := by
  simp

theorem immediate_source : ("ortho " ++ r.name ++ ", " ++ String.ofList l.text).toList =
    "ortho ".toList ++ r.name.toList ++ ", ".toList ++ l.text := by
  simp

/-- A literal as a datum is its value modulo the word size, or is refused. -/
theorem assemble_data :
    (signedMin ≤ l.value ∧ l.value ≤ signedMax →
      assemble (".word " ++ String.ofList l.text) =
        ((Datum.immediate l.value).toWord 1 []).map fun w => [w]) ∧
    (¬ (signedMin ≤ l.value ∧ l.value ≤ signedMax) →
      ∃ column defect,
        assemble (".word " ++ String.ofList l.text) = .error (.malformed 1 column defect)) := by
  have htext := l.lexemes_data_line
  have hline : '\n' ∉ ".word ".toList ++ l.text := by
    simp [l.newline_not_mem_text]
  have hos : ([] : List Token).map Operand.ofToken? = ([] : List Operand).map some := rfl
  rw [← data_source] at htext hline
  constructor
  · intro hfits
    exact assemble_of_fits htext hline hos hfits fun column => rfl
  · intro hlarge
    exact assemble_of_not_fits htext hline Token.noConfusion
      (fun t ht => absurd ht List.not_mem_nil) hlarge

theorem assemble_immediate :
    (signedMin ≤ l.value ∧ l.value ≤ signedMax →
      assemble ("ortho " ++ r.name ++ ", " ++ String.ofList l.text) =
        ((Operand.datum (.immediate l.value)).toImmediate 1 []).map fun value =>
          [(Instruction.orthography r value).encode]) ∧
    (¬ (signedMin ≤ l.value ∧ l.value ≤ signedMax) →
      ∃ e, assemble ("ortho " ++ r.name ++ ", " ++ String.ofList l.text) = .error e) := by
  have hname : '\n' ∉ r.name.toList := by
    revert r
    decide
  have htext := l.lexemes_immediate_line r
  have hline : '\n' ∉ "ortho ".toList ++ r.name.toList ++ ", ".toList ++ l.text := by
    simp [hname, l.newline_not_mem_text]
  have hos : [Token.register r].map Operand.ofToken? = [Operand.register r].map some := rfl
  rw [← immediate_source] at htext hline
  constructor
  · intro hfits
    have hlower : String.ofList ("ortho".toList.map Char.toLower) = "ortho" :=
      Opcode.mnemonic_toLower .orthography
    have hstatement : ∀ column, Line.statementOf 1 ⟨.identifier "ortho", column⟩
        ([.register r] ++ [.datum (.immediate l.value)]) =
          .ok (.instruction "ortho" [.register r, .datum (.immediate l.value)]) :=
      fun column => by simp only [Line.statementOf, hlower, List.singleton_append]
    have hop : Opcode.ofMnemonic? "ortho" = some .orthography :=
      Opcode.ofMnemonic?_mnemonic .orthography
    rw [assemble_of_fits htext hline hos hfits hstatement, Statement.encode,
      Statement.toInstruction, hop]
    simp only [Operand.toRegister, ok_bind]
    cases (Operand.datum (.immediate l.value)).toImmediate 1 [] <;> rfl
  · intro hlarge
    obtain ⟨column, defect, herror⟩ := assemble_of_not_fits htext hline Token.noConfusion
      (by simp [Operand.ofToken?]) hlarge
    exact ⟨_, herror⟩

theorem toNat_encode_orthography {value : Int} (h : 0 ≤ value ∧ value < 33554432) :
    ((Instruction.orthography r (UInt32.ofNat value.toNat)).encode.toNat : Int) =
      0xD0000000 + r.val * 33554432 + value := by
  have hword : (UInt32.ofNat value.toNat).toNat = value.toNat :=
    UInt32.toNat_ofNat_of_lt' (by rw [UInt32.size]; omega)
  have hr := r.isLt
  rw [Instruction.encode, Word.orthography_toNat, hword, Register.toWord_toNat]
  omega

end Assembled

/-- Literals denote their values, with any number of zeros in front. As a datum a literal gives its
value modulo the word size if that is in the range of signed or unsigned words. Other values are
named by the error as long as they fit in 64 bits, and else the line is malformed. As an immediate a
literal gives its value if that has at most 25 bits, and every other one is refused. -/
theorem assemble_literal (l : Literal) (zeros : Nat) (r : Register) :
    let text := String.ofList (l.padded zeros).text
    let data := assemble (".word " ++ text)
    let immediate := assemble ("ortho " ++ r.name ++ ", " ++ text)
    (-2147483648 ≤ l.value ∧ l.value < 4294967296 →
      ∃ w, data = .ok [w] ∧ (w.toNat : Int) = l.value % 4294967296) ∧
    (¬ (-2147483648 ≤ l.value ∧ l.value < 4294967296) →
      -9223372036854775808 ≤ l.value ∧ l.value < 9223372036854775808 →
      data = .error (.invalidImmediate 1 l.value)) ∧
    (¬ (-9223372036854775808 ≤ l.value ∧ l.value < 9223372036854775808) →
      ∃ column defect, data = .error (.malformed 1 column defect)) ∧
    (0 ≤ l.value ∧ l.value < 33554432 →
      ∃ w, immediate = .ok [w] ∧
        (w.toNat : Int) = 0xD0000000 + r.val * 33554432 + l.value) ∧
    (¬ (0 ≤ l.value ∧ l.value < 33554432) → ∃ e, immediate = .error e) := by
  intro text data immediate
  obtain ⟨hdata, hmalformed⟩ := (l.padded zeros).assemble_data
  obtain ⟨himmediate, hrefused⟩ := (l.padded zeros).assemble_immediate r
  rw [l.value_padded] at hdata hmalformed himmediate hrefused
  rw [signedMin, signedMax] at hdata hmalformed himmediate hrefused
  refine ⟨?_, ?_, ?_, ?_, ?_⟩
  · intro hrange
    refine ⟨UInt32.ofInt l.value, (hdata (by omega)).trans ?_, toNat_ofInt l.value⟩
    rw [Datum.toWord, if_pos (by omega)]
    rfl
  · intro hrange hfits
    refine (hdata (by omega)).trans ?_
    rw [Datum.toWord, if_neg (by omega)]
    rfl
  · intro hlarge
    exact hmalformed (by omega)
  · intro hrange
    refine ⟨(Instruction.orthography r (UInt32.ofNat l.value.toNat)).encode,
      (himmediate (by omega)).trans ?_, toNat_encode_orthography r hrange⟩
    rw [Operand.toImmediate, if_pos ⟨hrange.1, Int.le_of_lt_add_one hrange.2⟩]
    rfl
  · intro hrange
    by_cases hfits : -9223372036854775808 ≤ l.value ∧ l.value ≤ 9223372036854775807
    · refine ⟨.invalidImmediate 1 l.value, (himmediate hfits).trans ?_⟩
      rw [Operand.toImmediate, if_neg fun h => hrange ⟨h.1, Int.lt_add_one_of_le h.2⟩]
      rfl
    · exact hrefused hfits

/-- The least datum behind zeros, the first value that is no datum, the first that is no number, and
a comment mark between quotes. -/
theorem assemble_literal_limits :
    (∃ w, assemble ".word -002147483648" = .ok [w] ∧ (w.toNat : Int) = 2147483648) ∧
    (∃ e, assemble "ortho r3, -002147483648" = .error e) ∧
    assemble ".word 0X100000000" = .error (.invalidImmediate 1 4294967296) ∧
    (∃ column defect,
      assemble ".word 9223372036854775808" = .error (.malformed 1 column defect)) ∧
    ∃ w, assemble "ortho r3, ';'" = .ok [w] ∧ (w.toNat : Int) = 0xD600003B := by
  have numeral : ∀ {base : Base} {digits : List Char},
      digits.all (fun c => decide (base.IsDigit c)) = true → ∀ c ∈ digits, base.IsDigit c :=
    fun h c hc => of_decide_eq_true (List.all_eq_true.mp h c hc)
  let least : Literal := .decimal true
    ⟨['2', '1', '4', '7', '4', '8', '3', '6', '4', '8'], List.cons_ne_nil _ _, numeral (by decide)⟩
  let excess : Literal := .hexadecimal true
    ⟨['1', '0', '0', '0', '0', '0', '0', '0', '0'], List.cons_ne_nil _ _, numeral (by decide)⟩
  let huge : Literal := .decimal false
    ⟨['9', '2', '2', '3', '3', '7', '2', '0', '3', '6', '8', '5', '4', '7', '7', '5', '8', '0',
      '8'], List.cons_ne_nil _ _, numeral (by decide)⟩
  let mark : Literal := .character ⟨';', by decide⟩
  have hleast : least.value = -2147483648 := rfl
  have hexcess : excess.value = 4294967296 := rfl
  have hhuge : huge.value = 9223372036854775808 := rfl
  have hmark : mark.value = 59 := rfl
  obtain ⟨hdata, -, -, -, hrefused⟩ := assemble_literal least 2 3
  obtain ⟨-, hinvalid, -⟩ := assemble_literal excess 0 0
  obtain ⟨-, -, hmalformed, -⟩ := assemble_literal huge 0 0
  obtain ⟨-, -, -, himmediate, -⟩ := assemble_literal mark 0 3
  rw [hleast] at hdata hrefused
  rw [hexcess] at hinvalid
  rw [hhuge] at hmalformed
  rw [hmark] at himmediate
  exact ⟨hdata (by decide), hrefused (by decide), hinvalid (by decide) (by decide),
    hmalformed (by decide), himmediate (by decide)⟩

end Literal

end UniversalMachine.Assembly
