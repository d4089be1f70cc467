import UniversalMachine.Proofs.ListingRoundTrip
import Mathlib.Logic.Function.Defs

/-! A listing keeps the program that it shows.
The second column of a line holds all the bits of its word, those that the instruction does not use
included, so reading this column back gives the program and not only its canonical form. -/

namespace UniversalMachine

namespace Digits

/-- The number that hexadecimal digits write. -/
def hex? (text : List Char) : Option Nat :=
  if text ≠ [] ∧ text.all isHexadecimal then some (read 16 text) else none

theorem length_word (w : Word) : (hexUpperPadded 8 w.toNat).toList.length = 8 := by
  have hlength : (Nat.toDigits 16 w.toNat).length ≤ 8 :=
    (Nat.length_toDigits_le_iff (by decide) (by decide)).mpr w.toNat_lt
  rw [hexUpperPadded, String.toList_ofList, padLeft, List.length_append, List.length_replicate,
    upper, List.length_map]
  omega

theorem hex?_word (w : Word) : hex? (hexUpperPadded 8 w.toNat).toList = some w.toNat := by
  have hne : (hexUpperPadded 8 w.toNat).toList ≠ [] := by
    apply List.ne_nil_of_length_pos
    rw [length_word]
    decide
  have hall : (hexUpperPadded 8 w.toNat).toList.all isHexadecimal = true :=
    List.all_eq_true.mpr fun _ hc => isHexadecimal_of_mem_hexUpperPadded hc
  rw [hex?, if_pos ⟨hne, hall⟩, read_hexUpperPadded]

end Digits

namespace Listing

section Columns

/-- What precedes the first two blanks in a row. -/
def beforeGap : List Char → List Char
  | [] => []
  | c :: rest => if c = ' ' ∧ rest.head? = some ' ' then [] else c :: beforeGap rest

/-- The offset of a line: its first ten characters are a hexadecimal number with its mark. -/
def offset? (line : List Char) : Option Nat :=
  match line.take 10 with
  | '0' :: 'x' :: digits => Digits.hex? digits
  | _ => none

/-- The second of the columns that two blanks divide. -/
def wordColumn (line : List Char) : List Char := ((behindGap line).map beforeGap).getD []

/-- The word of a line: the eight digits of its second column. -/
def word? (line : List Char) : Option Word :=
  if (wordColumn line).length = 8 then (Digits.hex? (wordColumn line)).map UInt32.ofNat else none

/-- The program of a listing, read from the lines behind its header. -/
def image? (listing : String) : Option Program := ((Text.lines listing.toList).drop 4).mapM word?

theorem beforeGap_append {head : List Char} (h : ' ' ∉ head) (rest : List Char) :
    beforeGap (head ++ ' ' :: ' ' :: rest) = head := by
  induction head with
  | nil => simp [beforeGap]
  | cons c head ih =>
    have hc : c ≠ ' ' := fun e => h (e ▸ List.mem_cons_self)
    rw [List.cons_append, beforeGap, if_neg fun e => hc e.1,
      ih fun hm => h (List.mem_cons_of_mem c hm)]

variable (offset w : Word)

theorem offset?_line : offset? (line offset w).toList = some offset.toNat := by
  have hten : (line offset w).toList.take 10 =
      '0' :: 'x' :: (Digits.hexUpperPadded 8 offset.toNat).toList := by
    rw [line_toList, List.append_assoc]
    apply List.take_left'
    rw [List.length_cons, List.length_cons, Digits.length_word]
  rw [offset?, hten]
  exact Digits.hex?_word offset

theorem wordColumn_line :
    wordColumn (line offset w).toList = (Digits.hexUpperPadded 8 w.toNat).toList := by
  rw [wordColumn, behindGap_line, Option.map_some,
    beforeGap_append (blank_not_mem_hex 8 w.toNat), Option.getD_some]

theorem word?_line : word? (line offset w).toList = some w := by
  rw [word?, wordColumn_line, if_pos (Digits.length_word w), Digits.hex?_word, Option.map_some,
    UInt32.ofNat_toNat]

end Columns

theorem getElem?_shownLines (offset : Nat) (p : Program) (k : Nat) :
    (shownLines offset p)[k]? = p[k]?.map fun w => (line (UInt32.ofNat (offset + k)) w).toList := by
  rw [shownLines, List.getElem?_map, List.getElem?_zipIdx, Option.map_map]
  rfl

theorem mapM_word?_shownLines (offset : Nat) (p : Program) :
    (shownLines offset p).mapM word? = some p := by
  induction p generalizing offset with
  | nil => rfl
  | cons w p ih =>
    rw [shownLines_cons, List.mapM_cons, word?_line, ih]
    rfl

theorem image?_ofProgram (p : Program) : image? (ofProgram p) = some p := by
  rw [image?, lines_ofProgram]
  exact mapM_word?_shownLines 0 p

/-- A listing is three comments, an empty line and one line for each word. A line shows where its
word stands and all of its bits, so no two programs have the same listing. -/
theorem listing_lossless :
    (∀ p : Program, p.length ≤ UInt32.size → ∃ comments shown : List (List Char),
      (ofProgram p).toList = (comments ++ [] :: shown).flatMap (· ++ ['\n']) ∧
      (∀ text ∈ comments ++ shown, '\n' ∉ text) ∧
      comments.length = 3 ∧ (∀ text ∈ comments, text.head? = some ';') ∧
      shown.length = p.length ∧
      ∀ (k : Nat) (w : Word), p[k]? = some w → ∃ text, shown[k]? = some text ∧
        offset? text = some k ∧
        (wordColumn text).length = 8 ∧ Digits.hex? (wordColumn text) = some w.toNat) ∧
    (∀ p : Program, image? (ofProgram p) = some p) ∧ Function.Injective ofProgram := by
  refine ⟨fun p hp => ?_, image?_ofProgram, fun p q h => ?_⟩
  · have hcomments := (header_lines p.length (isLine_checksum p)).1
    refine ⟨headerLines p.length p.checksum, shownLines 0 p, ofProgram_toList p, ?_, rfl,
      fun text ht => (hcomments text ht).2, ?_, ?_⟩
    · intro text ht
      rcases List.mem_append.mp ht with ht | ht
      · exact (hcomments text ht).1.no_newline
      · exact (mem_shownLines ht).1.no_newline
    · rw [shownLines, List.length_map, List.length_zipIdx]
    · intro k w hw
      have hk : k < UInt32.size := by
        have hlt := (List.getElem?_eq_some_iff.mp hw).1
        omega
      have hoffset : (UInt32.ofNat (0 + k)).toNat = k := by
        rw [Nat.zero_add]
        exact UInt32.toNat_ofNat_of_lt' hk
      refine ⟨(line (UInt32.ofNat (0 + k)) w).toList, ?_, ?_, ?_, ?_⟩
      · rw [getElem?_shownLines, hw, Option.map_some]
      · rw [offset?_line, hoffset]
      · rw [wordColumn_line, Digits.length_word]
      · rw [wordColumn_line, Digits.hex?_word]
  · have hback := congrArg image? h
    rw [image?_ofProgram, image?_ofProgram] at hback
    exact Option.some.inj hback

/-- A halt with bits that it does not use, and a word that stands for no instruction. -/
theorem listing_lossless_unused_bits :
    let p : Program := [0x7FFFFFFF, 0xE0000000]
    Instruction.decode 0x7FFFFFFF = .ok .halt ∧ p.length ≤ UInt32.size ∧
      (∃ comments shown : List (List Char),
        (ofProgram p).toList = (comments ++ [] :: shown).flatMap (· ++ ['\n']) ∧
        comments.length = 3 ∧ shown.length = 2 ∧
        ∃ halt data, shown[0]? = some halt ∧ offset? halt = some 0 ∧
          Digits.hex? (wordColumn halt) = some 0x7FFFFFFF ∧
          shown[1]? = some data ∧ offset? data = some 1 ∧
          Digits.hex? (wordColumn data) = some 0xE0000000) ∧
      ofProgram p ≠ ofProgram [0x70000000, 0xE0000000] := by
  intro p
  have hp : p.length ≤ UInt32.size := by decide
  obtain ⟨comments, shown, htext, -, hthree, -, htwo, hline⟩ := listing_lossless.1 p hp
  obtain ⟨halt, hhalt, hzero, -, hfirst⟩ := hline 0 0x7FFFFFFF rfl
  obtain ⟨data, hdata, hone, -, hsecond⟩ := hline 1 0xE0000000 rfl
  refine ⟨rfl, hp, ⟨comments, shown, htext, hthree, htwo, halt, data, hhalt, hzero, hfirst, hdata,
    hone, hsecond⟩, ?_⟩
  exact listing_lossless.2.2.ne (by decide)

end Listing

end UniversalMachine
