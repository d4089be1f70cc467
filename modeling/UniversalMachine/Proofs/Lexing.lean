import UniversalMachine.Assembly.Lexer
import UniversalMachine.Proofs.Digits
import UniversalMachine.Proofs.Lines

/-! What the lexer makes of single pieces of source.
The places of lexemes are left aside. A piece that spells a token gives this token in front of any
text that does not go on with a name or a number; blanks and comments give nothing. -/

namespace UniversalMachine.Assembly.Lexer

/-- The lexemes of a text, without their places. -/
def lexemes (text : List Char) : List Lexeme := (items text).map Item.lexeme

theorem itemsFrom_nil (start : Nat) : itemsFrom start [] = [] := by
  rw [itemsFrom]

/-- The place where a text starts moves its lexemes and changes nothing else. -/
theorem lexemes_itemsFrom (start : Nat) (text : List Char) :
    (itemsFrom start text).map Item.lexeme = lexemes text := by
  suffices h : ∀ s t, (itemsFrom s text).map Item.lexeme = (itemsFrom t text).map Item.lexeme from
    h start 0
  intro s t
  fun_induction itemsFrom s text generalizing t with
  | case1 => rw [itemsFrom_nil]
  | case2 s c rest hl stop ih =>
    rw [itemsFrom, hl]
    simp only [List.map_cons]
    rw [ih]
  | case3 s c rest shape more hl found stop behind hs ih =>
    rw [itemsFrom, hl]
    simp only [hs, if_true]
    exact ih _
  | case4 s c rest shape more hl found stop behind hs ih =>
    rw [itemsFrom, hl]
    simp only [hs, Bool.false_eq_true, if_false, List.map_cons]
    rw [ih]

@[simp] theorem lexemes_nil : lexemes [] = [] := by
  rw [lexemes, items, itemsFrom_nil, List.map_nil]

theorem lexemes_skipped {c : Char} {rest : List Char} {shape : Shape} {more : Nat}
    (h : longest? c rest = some (shape, more)) (hs : isSkipped shape = true) :
    lexemes (c :: rest) = lexemes (rest.drop more) := by
  rw [lexemes, items, itemsFrom, h]
  simp only [hs, if_true]
  exact lexemes_itemsFrom _ _

theorem lexemes_found {c : Char} {body rest : List Char} {shape : Shape}
    (h : longest? c (body ++ rest) = some (shape, body.length)) (hs : isSkipped shape = false) :
    lexemes (c :: body ++ rest) = lexeme shape (c :: body) :: lexemes rest := by
  rw [List.cons_append, lexemes, items, itemsFrom, h]
  simp only [hs, Bool.false_eq_true, if_false, List.map_cons, List.take_left', List.drop_left']
  rw [lexemes_itemsFrom]

/-- A text that is empty or starts outside a class of characters. -/
def Stops (p : Char → Bool) (rest : List Char) : Prop := ∀ c ∈ rest.head?, p c = false

theorem stops_nil (p : Char → Bool) : Stops p [] := by
  intro c hc
  cases hc

theorem stops_cons {p : Char → Bool} {c : Char} (h : p c = false) (rest : List Char) :
    Stops p (c :: rest) := by
  intro d hd
  cases hd
  exact h

theorem Stops.mono {p q : Char → Bool} {rest : List Char} (h : Stops p rest)
    (hpq : ∀ c, q c = true → p c = true) : Stops q rest := by
  intro c hc
  have hp := h c hc
  by_contra hq
  rw [hpq c (Bool.not_eq_false _ ▸ hq)] at hp
  cases hp

theorem takeWhile_append_stops {p : Char → Bool} {body rest : List Char}
    (hb : ∀ c ∈ body, p c = true) (hr : Stops p rest) : (body ++ rest).takeWhile p = body := by
  rw [List.takeWhile_append_of_pos hb]
  cases rest with
  | nil => simp
  | cons c rest => simp [hr c rfl]

theorem run_append {p : Char → Bool} {body rest : List Char}
    (hb : ∀ c ∈ body, p c = true) (hr : Stops p rest) : run p (body ++ rest) = body.length := by
  rw [run, takeWhile_append_stops hb hr]

section Classes

/-! Classes of characters by code points. -/

theorem char_le_iff {c d : Char} : c ≤ d ↔ c.toNat ≤ d.toNat := Iff.rfl

theorem isBlank_iff {c : Char} :
    isBlank c = true ↔ c.toNat = 32 ∨ c.toNat = 9 ∨ c.toNat = 13 := by
  simp [isBlank, ← Char.toNat_inj, or_assoc]

theorem isCommentMark_iff {c : Char} : isCommentMark c = true ↔ c.toNat = 59 ∨ c.toNat = 35 := by
  simp [isCommentMark, ← Char.toNat_inj]

theorem isDecimal_iff {c : Char} : Digits.isDecimal c = true ↔ 48 ≤ c.toNat ∧ c.toNat ≤ 57 := by
  simp [Digits.isDecimal, char_le_iff]

theorem isHexadecimal_iff {c : Char} : Digits.isHexadecimal c = true ↔
    48 ≤ c.toNat ∧ c.toNat ≤ 57 ∨ 97 ≤ c.toNat ∧ c.toNat ≤ 102 ∨
      65 ≤ c.toNat ∧ c.toNat ≤ 70 := by
  simp [Digits.isHexadecimal, Digits.isDecimal, char_le_iff, or_assoc]

theorem isNameStart_iff {c : Char} : isNameStart c = true ↔
    97 ≤ c.toNat ∧ c.toNat ≤ 122 ∨ 65 ≤ c.toNat ∧ c.toNat ≤ 90 ∨ c.toNat = 95 := by
  simp [isNameStart, isLetter, char_le_iff, or_assoc, ← Char.toNat_inj]

theorem isNamePart_iff {c : Char} : isNamePart c = true ↔
    97 ≤ c.toNat ∧ c.toNat ≤ 122 ∨ 65 ≤ c.toNat ∧ c.toNat ≤ 90 ∨ c.toNat = 95 ∨
      48 ≤ c.toNat ∧ c.toNat ≤ 57 := by
  rw [isNamePart, Bool.or_eq_true, isNameStart_iff, isDecimal_iff]
  omega

theorem isHexMark_iff {c : Char} : isHexMark c = true ↔ c.toNat = 120 ∨ c.toNat = 88 := by
  simp [isHexMark, ← Char.toNat_inj]

theorem isBinaryMark_iff {c : Char} : isBinaryMark c = true ↔ c.toNat = 98 ∨ c.toNat = 66 := by
  simp [isBinaryMark, ← Char.toNat_inj]

theorem isNamePart_of_isDecimal {c : Char} (h : Digits.isDecimal c = true) :
    isNamePart c = true := by
  rw [isDecimal_iff] at h
  rw [isNamePart_iff]
  omega

theorem isNamePart_of_isHexadecimal {c : Char} (h : Digits.isHexadecimal c = true) :
    isNamePart c = true := by
  rw [isHexadecimal_iff] at h
  rw [isNamePart_iff]
  omega

/-- The marks of a base are neither digits nor do they end a number. -/
theorem no_mark {c : Char} (h : Digits.isDecimal c = true ∨ isNamePart c = false) :
    isHexMark c = false ∧ isBinaryMark c = false := by
  simp only [Bool.eq_false_iff, ne_eq, isDecimal_iff, isNamePart_iff, isHexMark_iff,
    isBinaryMark_iff] at *
  omega

end Classes

theorem longest?_blank {c : Char} (h : isBlank c = true) (rest : List Char) :
    longest? c rest = some (.blank, run isBlank rest) := by
  simp [longest?, h]

theorem longest?_comment {c : Char} (h : isCommentMark c = true) (rest : List Char) :
    longest? c rest = some (.comment, run (· != '\n') rest) := by
  have hb : isBlank c = false := by
    rw [Bool.eq_false_iff, ne_eq, isBlank_iff]
    rw [isCommentMark_iff] at h
    omega
  simp [longest?, hb, h]

theorem longest?_name {c : Char} (h : isNameStart c = true) (rest : List Char) :
    longest? c rest = some (longestName c rest) := by
  have hb : isBlank c = false ∧ isCommentMark c = false := by
    simp only [Bool.eq_false_iff, ne_eq, isBlank_iff, isCommentMark_iff]
    rw [isNameStart_iff] at h
    omega
  simp [longest?, hb, h]

theorem longest?_number {c : Char} (h : Digits.isDecimal c = true) (rest : List Char) :
    longest? c rest = some (longestNumber c rest) := by
  have hb : isBlank c = false ∧ isCommentMark c = false ∧ isNameStart c = false := by
    simp only [Bool.eq_false_iff, ne_eq, isBlank_iff, isCommentMark_iff, isNameStart_iff]
    rw [isDecimal_iff] at h
    omega
  simp [longest?, hb, h]

/-- A piece of text is read as one token, unless a name or a number goes on behind it. -/
def Spells (piece : List Char) (t : Token) : Prop :=
  ∀ rest, Stops isNamePart rest → lexemes (piece ++ rest) = .token t :: lexemes rest

theorem spells_name (shape : Shape) {c : Char} {body : List Char} {t : Token}
    (hc : isNameStart c = true) (hb : ∀ d ∈ body, isNamePart d = true)
    (hshape : shape = if isRegisterName (c :: body) then .register else .identifier)
    (ht : token? shape (c :: body) = some t) : Spells (c :: body) t := by
  intro rest hr
  have hl : longest? c (body ++ rest) = some (shape, body.length) := by
    rw [longest?_name hc, longestName, takeWhile_append_stops hb hr, run_append hb hr, hshape]
  have hs : isSkipped shape = false := by
    rw [hshape]
    split <;> rfl
  rw [lexemes_found hl hs, lexeme, ht]

theorem spells_identifier {c : Char} {body : List Char} (hc : isNameStart c = true)
    (hb : ∀ d ∈ body, isNamePart d = true) (hr : isRegisterName (c :: body) = false) :
    Spells (c :: body) (.identifier (String.ofList (c :: body))) := by
  apply spells_name .identifier hc hb _ rfl
  simp [hr]

theorem spells_register (r : Register) : Spells r.name.toList (.register r) := by
  have hname : r.name.toList = 'r' :: Digits.lower 10 r.val := by
    simp [Register.name, Digits.decimal]
  have hreg : isRegisterName ('r' :: Digits.lower 10 r.val) = true := by
    revert r
    decide
  have htoken : token? .register ('r' :: Digits.lower 10 r.val) = some (.register r) := by
    simp [token?, Digits.read_lower_ten, Register.ofIndex?, r.isLt]
  rw [hname]
  refine spells_name .register (by decide) ?_ ?_ htoken
  · intro d hd
    exact isNamePart_of_isDecimal (Digits.isDecimal_of_mem_lower hd)
  · rw [hreg, if_pos rfl]

/-- Decimal digits are never taken for a number with a base mark. -/
theorem longestNumber_decimal {c : Char} {body rest : List Char}
    (hb : ∀ d ∈ body, Digits.isDecimal d = true) (hr : Stops isNamePart rest) :
    longestNumber c (body ++ rest) = (.number, body.length) := by
  have hrun := run_append hb (hr.mono fun d hd => isNamePart_of_isDecimal hd)
  have hmark : ∀ mark ∈ (body ++ rest).head?,
      isHexMark mark = false ∧ isBinaryMark mark = false := by
    intro mark hm
    apply no_mark
    cases body with
    | nil => exact Or.inr (hr mark hm)
    | cons d body =>
      rw [List.cons_append, List.head?_cons, Option.mem_some_iff] at hm
      subst hm
      exact Or.inl (hb _ List.mem_cons_self)
  cases htext : body ++ rest with
  | nil =>
    obtain ⟨rfl, -⟩ := List.append_eq_nil_iff.mp htext
    rfl
  | cons mark tail =>
    rw [htext] at hmark hrun
    obtain ⟨hx, hy⟩ := hmark mark rfl
    simp [longestNumber, hx, hy, hrun]

theorem numberValue_of_ne {c : Char} (hc : c ≠ '-') (body : List Char) :
    numberValue (c :: body) = Digits.read 10 (c :: body) := by
  rw [numberValue]
  rintro digits he
  exact hc (List.cons.inj he).1

theorem numberValue_of_isDecimal {c : Char} (hc : Digits.isDecimal c = true) (body : List Char) :
    numberValue (c :: body) = Digits.read 10 (c :: body) := by
  apply numberValue_of_ne
  rintro rfl
  exact absurd hc (by decide)

theorem spells_decimal {n : Nat} (hn : (n : Int) ≤ signedMax) :
    Spells (Digits.lower 10 n) (.number n) := by
  have hdigits : ∀ d ∈ Digits.lower 10 n, Digits.isDecimal d = true :=
    fun d hd => Digits.isDecimal_of_mem_lower hd
  have hread := Digits.read_lower_ten n
  cases htext : Digits.lower 10 n with
  | nil => exact absurd htext Nat.toDigits_ne_nil
  | cons c body =>
    rw [htext] at hdigits hread
    have hc := hdigits c List.mem_cons_self
    intro rest hr
    have hl : longest? c (body ++ rest) = some (.number, body.length) := by
      rw [longest?_number hc,
        longestNumber_decimal (fun d hd => hdigits d (List.mem_cons_of_mem c hd)) hr]
    have hmin : signedMin ≤ (n : Int) := by
      rw [signedMin]
      omega
    rw [lexemes_found hl rfl, lexeme, token?, numberValue_of_isDecimal hc, hread]
    simp [hmin, hn]

theorem spells_hex {digits : List Char} (hne : digits ≠ [])
    (hd : ∀ d ∈ digits, Digits.isHexadecimal d = true)
    (hfit : Digits.read 16 digits < unsignedBound) :
    Spells ('0' :: 'x' :: digits) (.hex (Digits.read 16 digits)) := by
  intro rest hr
  have hrun := run_append hd (hr.mono fun d hd => isNamePart_of_isHexadecimal hd)
  have hpos : digits.length ≠ 0 := fun h => hne (List.length_eq_zero_iff.mp h)
  have hl : longest? '0' (('x' :: digits) ++ rest) = some (.hex, ('x' :: digits).length) := by
    rw [longest?_number (by decide), List.cons_append, longestNumber, hrun, List.length_cons]
    simp [isHexMark, hpos, Nat.add_comm]
  rw [lexemes_found hl rfl]
  simp [lexeme, token?, unsigned?, hfit]

theorem spells_directive {c : Char} {body : List Char} (hc : isNameStart c = true)
    (hb : ∀ d ∈ body, isNamePart d = true) :
    Spells ('.' :: c :: body) (.directive (String.ofList (c :: body))) := by
  intro rest hr
  have hl : longest? '.' ((c :: body) ++ rest) = some (.directive, (c :: body).length) := by
    have hdot : isNameStart '.' = false ∧ Digits.isDecimal '.' = false := by decide
    simp [longest?, isBlank, isCommentMark, hdot, hc, run_append hb hr, Nat.add_comm]
  rw [lexemes_found hl rfl]
  rfl

theorem lexemes_comma (rest : List Char) :
    lexemes (',' :: rest) = .token .comma :: lexemes rest := by
  have hl : longest? ',' ([] ++ rest) = some (.comma, 0) := rfl
  exact lexemes_found hl rfl

theorem lexemes_blank {c : Char} (hc : isBlank c = true) (rest : List Char) :
    lexemes (c :: rest) = lexemes rest := by
  have skip : ∀ d tail, isBlank d = true →
      lexemes (d :: tail) = lexemes (tail.drop (run isBlank tail)) := by
    intro d tail hd
    exact lexemes_skipped (longest?_blank hd tail) rfl
  rw [skip c rest hc]
  cases rest with
  | nil => rfl
  | cons d tail =>
    by_cases hd : isBlank d = true
    · rw [skip d tail hd]
      simp [run, hd]
    · simp [run, hd]

theorem lexemes_comment {c : Char} (hc : isCommentMark c = true) {rest : List Char}
    (hr : '\n' ∉ rest) : lexemes (c :: rest) = [] := by
  have hrun : run (· != '\n') rest = rest.length := by
    have h := run_append (Text.bne_newline hr) (stops_nil (· != '\n'))
    rwa [List.append_nil] at h
  rw [lexemes_skipped (longest?_comment hc rest) rfl, hrun, List.drop_length, lexemes_nil]

end UniversalMachine.Assembly.Lexer
