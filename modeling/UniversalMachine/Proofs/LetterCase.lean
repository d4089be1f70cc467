import UniversalMachine.Proofs.Concatenation

/-! The case of letters.
Outside of quotes, the case of an ASCII letter decides neither where a token ends nor what it stands
for; it is kept only in names. So reading commutes with folding a text to lower case, refusals and
their places included, and where no name matters the case of a source does not matter at all. -/

namespace UniversalMachine

section Characters

theorem toNat_toLower (c : Char) :
    (65 ≤ c.toNat ∧ c.toNat ≤ 90) ∧ c.toLower.toNat = c.toNat + 32 ∨
      ¬ (65 ≤ c.toNat ∧ c.toNat ≤ 90) ∧ c.toLower.toNat = c.toNat := by
  by_cases h : 'A'.val ≤ c.val ∧ c.val ≤ 'Z'.val
  · have hrange : 65 ≤ c.toNat ∧ c.toNat ≤ 90 := h
    have hlower : c.toLower = ⟨c.val + ('a'.val - 'A'.val), _⟩ := dif_pos h
    refine .inl ⟨hrange, ?_⟩
    rw [hlower, Char.toNat, UInt32.toNat_add]
    exact Nat.mod_eq_of_lt (Nat.lt_of_le_of_lt (Nat.add_le_add_right hrange.2 32) (by decide))
  · exact .inr ⟨h, congrArg Char.toNat (dif_neg h)⟩

theorem toNat_toUpper (c : Char) :
    (97 ≤ c.toNat ∧ c.toNat ≤ 122) ∧ c.toUpper.toNat + 32 = c.toNat ∨
      ¬ (97 ≤ c.toNat ∧ c.toNat ≤ 122) ∧ c.toUpper.toNat = c.toNat := by
  by_cases h : 'a'.val ≤ c.val ∧ c.val ≤ 'z'.val
  · have hrange : 97 ≤ c.val.toNat ∧ c.val.toNat ≤ 122 := h
    have hstep : ('A'.val - 'a'.val).toNat = UInt32.size - 32 := by decide
    have hupper : c.toUpper = ⟨c.val + ('A'.val - 'a'.val), _⟩ := dif_pos h
    refine .inl ⟨hrange, ?_⟩
    rw [hupper, Char.toNat, Char.toNat, UInt32.toNat_add, hstep, UInt32.size]
    omega
  · exact .inr ⟨h, congrArg Char.toNat (dif_neg h)⟩

theorem toLower_toLower (c : Char) : c.toLower.toLower = c.toLower := by
  have h := toNat_toLower c
  have hagain := toNat_toLower c.toLower
  apply Char.toNat_inj.mp
  omega

theorem toLower_toUpper (c : Char) : c.toUpper.toLower = c.toLower := by
  have hupper := toNat_toUpper c
  have hlower := toNat_toLower c
  have hboth := toNat_toLower c.toUpper
  apply Char.toNat_inj.mp
  omega

theorem utf8Size_toLower (c : Char) : c.toLower.utf8Size = c.utf8Size := by
  have hone {d : Char} (hd : d.toNat ≤ 127) : d.utf8Size = 1 :=
    Char.utf8Size_eq_one_iff.mpr (UInt32.le_iff_toNat_le.mpr hd)
  rcases toNat_toLower c with ⟨hrange, hlower⟩ | ⟨-, hsame⟩
  · rw [hone (by omega), hone (by omega)]
  · rw [Char.toNat_inj.mp hsame]

/-- A class of characters that does not tell the cases of a letter apart. -/
def Caseless (p : Char → Bool) : Prop := ∀ c : Char, p c.toLower = p c

theorem Caseless.of_letters {p : Char → Bool}
    (h : ∀ c d : Char, 65 ≤ c.toNat → c.toNat ≤ 90 → d.toNat = c.toNat + 32 →
      (p d = true ↔ p c = true)) : Caseless p := by
  intro c
  rcases toNat_toLower c with ⟨⟨hlow, hhigh⟩, hlower⟩ | ⟨-, hsame⟩
  · exact Bool.eq_iff_iff.mpr (h c c.toLower hlow hhigh hlower)
  · rw [Char.toNat_inj.mp hsame]

theorem toLower_eq_iff {c d : Char} (hd : d.toNat < 65) : c.toLower = d ↔ c = d := by
  have h := toNat_toLower c
  rw [← Char.toNat_inj, ← Char.toNat_inj]
  omega

theorem toLower_beq {d : Char} (hd : d.toNat < 65) (c : Char) : (c.toLower == d) = (c == d) := by
  rw [Bool.eq_iff_iff, beq_iff_eq, beq_iff_eq, toLower_eq_iff hd]

end Characters

namespace Assembly.Lexer

section Classes

theorem caseless_isDecimal : Caseless Digits.isDecimal := by
  apply Caseless.of_letters
  intro c d hlow hhigh hd
  rw [isDecimal_iff, isDecimal_iff]
  omega

theorem caseless_isHexadecimal : Caseless Digits.isHexadecimal := by
  apply Caseless.of_letters
  intro c d hlow hhigh hd
  rw [isHexadecimal_iff, isHexadecimal_iff]
  omega

theorem caseless_isNameStart : Caseless isNameStart := by
  apply Caseless.of_letters
  intro c d hlow hhigh hd
  rw [isNameStart_iff, isNameStart_iff]
  omega

theorem caseless_isHexMark : Caseless isHexMark := by
  apply Caseless.of_letters
  intro c d hlow hhigh hd
  rw [isHexMark_iff, isHexMark_iff]
  omega

theorem caseless_isBinaryMark : Caseless isBinaryMark := by
  apply Caseless.of_letters
  intro c d hlow hhigh hd
  rw [isBinaryMark_iff, isBinaryMark_iff]
  omega

theorem caseless_isRegisterDigit : Caseless isRegisterDigit := by
  apply Caseless.of_letters
  intro c d hlow hhigh hd
  simp only [isRegisterDigit, Bool.and_eq_true, decide_eq_true_eq, char_le_iff]
  change (48 ≤ d.toNat ∧ d.toNat ≤ 55) ↔ (48 ≤ c.toNat ∧ c.toNat ≤ 55)
  omega

theorem caseless_isNamePart : Caseless isNamePart := by
  intro c
  rw [isNamePart, isNamePart, caseless_isNameStart, caseless_isDecimal]

theorem caseless_isBinary : Caseless Digits.isBinary := by
  intro c
  simp (disch := decide) only [Digits.isBinary, toLower_beq]

theorem caseless_isBlank : Caseless isBlank := by
  intro c
  simp (disch := decide) only [isBlank, toLower_beq]

theorem caseless_isCommentMark : Caseless isCommentMark := by
  intro c
  simp (disch := decide) only [isCommentMark, toLower_beq]

theorem caseless_bne_newline : Caseless (· != '\n') := by
  intro c
  simp (disch := decide) only [bne, toLower_beq]

theorem value_toLower (c : Char) : Digits.value c.toLower = Digits.value c := by
  rcases toNat_toLower c with ⟨hrange, hlower⟩ | ⟨-, hsame⟩
  · have hdecimal : Digits.isDecimal c = false := by
      rw [Bool.eq_false_iff, ne_eq, isDecimal_iff]
      omega
    have hmarks : 'a'.toNat = 97 ∧ 'f'.toNat = 102 ∧ 'A'.toNat = 65 ∧ 'F'.toNat = 70 := by decide
    simp only [Digits.value, caseless_isDecimal c, hdecimal, Bool.false_eq_true, if_false,
      Bool.and_eq_true, decide_eq_true_eq, char_le_iff, hlower, hmarks]
    split_ifs <;> omega
  · rw [Char.toNat_inj.mp hsame]

theorem read_toLower (base : Nat) (text : List Char) :
    Digits.read base (text.map Char.toLower) = Digits.read base text := by
  rw [Digits.read, Digits.read, List.foldl_map]
  simp only [value_toLower]

end Classes

section Runs

variable {p : Char → Bool}

theorem takeWhile_toLower (hp : Caseless p) (text : List Char) :
    (text.map Char.toLower).takeWhile p = (text.takeWhile p).map Char.toLower := by
  have hsame : p ∘ Char.toLower = p := funext hp
  rw [List.takeWhile_map, hsame]

theorem run_toLower (hp : Caseless p) (text : List Char) :
    run p (text.map Char.toLower) = run p text := by
  rw [run, run, takeWhile_toLower hp, List.length_map]

theorem byteLength_toLower (text : List Char) :
    byteLength (text.map Char.toLower) = byteLength text := by
  rw [byteLength, byteLength, List.foldr_map]
  simp only [utf8Size_toLower]

end Runs

section Shapes

theorem isRegisterName_toLower (text : List Char) :
    isRegisterName (text.map Char.toLower) = isRegisterName text := by
  have hmark : Caseless fun r => r == 'r' || r == 'R' := by
    apply Caseless.of_letters
    intro c d hlow hhigh hd
    simp only [Bool.or_eq_true, beq_iff_eq, ← Char.toNat_inj]
    change (d.toNat = 114 ∨ d.toNat = 82) ↔ (c.toNat = 114 ∨ c.toNat = 82)
    omega
  match text with
  | [] => rfl
  | [r] => rfl
  | [r, d] =>
    change ((r.toLower == 'r' || r.toLower == 'R') && isRegisterDigit d.toLower) =
      ((r == 'r' || r == 'R') && isRegisterDigit d)
    exact congr (congrArg and (hmark r)) (caseless_isRegisterDigit d)
  | r :: d :: e :: rest => rfl

theorem longestName_toLower (c : Char) (rest : List Char) :
    longestName c.toLower (rest.map Char.toLower) = longestName c rest := by
  rw [longestName, longestName, takeWhile_toLower caseless_isNamePart, ← List.map_cons,
    isRegisterName_toLower, run_toLower caseless_isNamePart]

theorem longestNumber_toLower (c : Char) (rest : List Char) :
    longestNumber c.toLower (rest.map Char.toLower) = longestNumber c rest := by
  have hdecimal := run_toLower caseless_isDecimal rest
  cases rest with
  | nil => rfl
  | cons mark tail =>
    rw [List.map_cons] at hdecimal
    simp (disch := decide) only [List.map_cons, longestNumber, toLower_beq, caseless_isHexMark mark,
      caseless_isBinaryMark mark, run_toLower caseless_isHexadecimal, run_toLower caseless_isBinary,
      hdecimal]

/-- Outside of quotes the case of letters does not enter what is taken at a place. -/
theorem longest?_toLower {c : Char} (hc : c ≠ quote) (rest : List Char) :
    longest? c.toLower (rest.map Char.toLower) = longest? c rest := by
  by_cases hblank : isBlank c = true
  · rw [longest?_blank hblank, longest?_blank ((caseless_isBlank c).trans hblank),
      run_toLower caseless_isBlank]
  by_cases hcomment : isCommentMark c = true
  · rw [longest?_comment hcomment, longest?_comment ((caseless_isCommentMark c).trans hcomment),
      run_toLower caseless_bne_newline]
  by_cases hstart : isNameStart c = true
  · rw [longest?_name hstart, longest?_name ((caseless_isNameStart c).trans hstart),
      longestName_toLower]
  by_cases hdigit : Digits.isDecimal c = true
  · rw [longest?_number hdigit, longest?_number ((caseless_isDecimal c).trans hdigit),
      longestNumber_toLower]
  have hquote : (c == quote) = false := beq_eq_false_iff_ne.mpr hc
  have hmark (d : Char) (hd : d.toNat < 65) := toLower_beq hd c
  simp only [longest?, caseless_isBlank c, caseless_isCommentMark c, caseless_isNameStart c,
    caseless_isDecimal c, hblank, hcomment, hstart, hdigit, hmark '-' (by decide),
    hmark '.' (by decide), hmark quote (by decide), hmark ',' (by decide), hmark ':' (by decide),
    hmark '\n' (by decide), hquote, run_toLower caseless_isDecimal, Bool.false_eq_true, if_false]
  cases rest with
  | nil => rfl
  | cons d tail =>
    simp only [List.map_cons, caseless_isNameStart d, run_toLower caseless_isNamePart]

end Shapes

end Assembly.Lexer

namespace Assembly

theorem toList_toLower (text : String) : text.toLower.toList = text.toList.map Char.toLower :=
  String.toList_map

theorem ofList_toLower (text : List Char) :
    String.ofList (text.map Char.toLower) = (String.ofList text).toLower := by
  rw [← String.toList_inj, toList_toLower, String.toList_ofList, String.toList_ofList]

theorem map_toLower_toLower (name : String) :
    name.toLower.toList.map Char.toLower = name.toList.map Char.toLower := by
  rw [toList_toLower, List.map_map]
  exact List.map_congr_left fun c _ => toLower_toLower c

theorem toLower_singleton (c : Char) :
    (String.singleton c).toLower = String.singleton c.toLower := by
  rw [← String.toList_inj, toList_toLower, String.toList_singleton, String.toList_singleton,
    List.map_singleton]

/-- A token with its name in lower case. -/
def Token.folded : Token → Token
  | identifier name => identifier name.toLower
  | directive name => directive name.toLower
  | t => t

def Lexeme.folded : Lexeme → Lexeme
  | token t => token t.folded
  | invalid text => invalid text.toLower

def Item.folded (item : Item) : Item := { item with lexeme := item.lexeme.folded }

namespace Lexer

section Tokens

theorem numberValue_toLower (text : List Char) :
    numberValue (text.map Char.toLower) = numberValue text := by
  cases text with
  | nil => rfl
  | cons c digits =>
    by_cases hc : c = '-'
    · subst hc
      exact congrArg (fun n : Nat => -(n : Int)) (read_toLower 10 digits)
    · have hlower : c.toLower ≠ '-' := fun h => hc ((toLower_eq_iff (by decide)).mp h)
      rw [List.map_cons, numberValue_of_ne hc, numberValue_of_ne hlower, ← List.map_cons,
        read_toLower]

theorem unsigned?_toLower (base : Nat) (text : List Char) :
    unsigned? base (text.map Char.toLower) = unsigned? base text := by
  rw [unsigned?, unsigned?, ← List.map_drop, read_toLower]

/-- Only a name keeps the case of its letters. -/
theorem token?_toLower {shape : Shape} (hshape : shape ≠ .char) (text : List Char) :
    token? shape (text.map Char.toLower) = (token? shape text).map Token.folded := by
  cases shape with
  | char => exact absurd rfl hshape
  | identifier | directive =>
    simp only [token?, ← List.map_drop, ofList_toLower, Option.map_some, Token.folded]
  | register =>
    simp only [token?, ← List.map_drop, read_toLower, Option.map_map]
    rfl
  | number =>
    simp only [token?, numberValue_toLower]
    split <;> rfl
  | hex | binary =>
    simp only [token?, unsigned?_toLower, Option.map_map]
    rfl
  | blank | comment | comma | colon | newline => rfl

theorem lexeme_toLower {shape : Shape} (hshape : shape ≠ .char) (text : List Char) :
    lexeme shape (text.map Char.toLower) = (lexeme shape text).folded := by
  rw [lexeme, lexeme, token?_toLower hshape]
  cases token? shape text with
  | none => exact congrArg Lexeme.invalid (ofList_toLower text)
  | some t => rfl

/-- Only a quote opens a character literal. -/
theorem shape_ne_char {c : Char} {rest : List Char} {shape : Shape} {more : Nat} (hc : c ≠ quote)
    (h : longest? c rest = some (shape, more)) : shape ≠ .char := by
  rintro rfl
  obtain ⟨-, hmatches⟩ := matches_longest? h
  generalize rest.take more = body at hmatches
  cases hmatches with
  | char | escape => exact hc rfl

/-- Folding a text without quotes folds its names and keeps every place. -/
theorem itemsFrom_toLower (start : Nat) {text : List Char} (hquote : quote ∉ text) :
    itemsFrom start (text.map Char.toLower) = (itemsFrom start text).map Item.folded := by
  fun_induction itemsFrom start text with
  | case1 start => rw [List.map_nil, itemsFrom_nil, List.map_nil]
  | case2 start c rest hl stop ih =>
    obtain ⟨hc, hrest⟩ := not_or.mp (mt List.mem_cons.mpr hquote)
    rw [List.map_cons, itemsFrom, longest?_toLower (Ne.symm hc), hl, List.map_cons, ← ih hrest]
    simp only [utf8Size_toLower, Item.folded, Lexeme.folded, toLower_singleton, stop]
  | case3 start c rest shape more hl found stop behind hs ih =>
    obtain ⟨hc, hrest⟩ := not_or.mp (mt List.mem_cons.mpr hquote)
    have hbehind := ih fun hm => hrest (List.mem_of_mem_drop hm)
    rw [List.map_cons, itemsFrom, longest?_toLower (Ne.symm hc), hl]
    simp only [hs, if_true, ← List.map_take, ← List.map_drop, ← List.map_cons, byteLength_toLower]
    exact hbehind
  | case4 start c rest shape more hl found stop behind hs ih =>
    obtain ⟨hc, hrest⟩ := not_or.mp (mt List.mem_cons.mpr hquote)
    have hbehind := ih fun hm => hrest (List.mem_of_mem_drop hm)
    have hshape := shape_ne_char (Ne.symm hc) hl
    rw [List.map_cons, itemsFrom, longest?_toLower (Ne.symm hc), hl]
    simp only [hs, Bool.false_eq_true, if_false, ← List.map_take, ← List.map_drop, ← List.map_cons,
      byteLength_toLower, lexeme_toLower hshape]
    rw [List.map_cons]
    exact congrArg (_ :: ·) hbehind

end Tokens

end Lexer

end Assembly

end UniversalMachine
