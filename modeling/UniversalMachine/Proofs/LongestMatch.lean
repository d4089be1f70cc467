import UniversalMachine.Proofs.Lexing
import Mathlib.Tactic.SplitIfs

/-! The rules of the lexer, and what it takes at one place.
A rule says which texts have a shape. Of all the rules and all the heads of a text that they match,
the lexer takes the longest; of two rules that match the same head, a register comes before a name.
-/

namespace UniversalMachine.Assembly

open Lexer

/-- The texts that have a shape. -/
inductive Shape.Matches : Shape → List Char → Prop where
  | blank {c : Char} {body : List Char} : isBlank c = true → (∀ d ∈ body, isBlank d = true) →
      Matches .blank (c :: body)
  | comment {c : Char} {body : List Char} : isCommentMark c = true → '\n' ∉ body →
      Matches .comment (c :: body)
  | identifier {c : Char} {body : List Char} : isNameStart c = true →
      (∀ d ∈ body, isNamePart d = true) → Matches .identifier (c :: body)
  | register {c d : Char} : c = 'r' ∨ c = 'R' → isRegisterDigit d = true →
      Matches .register [c, d]
  | number {c : Char} {body : List Char} : Digits.isDecimal c = true →
      (∀ d ∈ body, Digits.isDecimal d = true) → Matches .number (c :: body)
  | negative {c : Char} {body : List Char} : Digits.isDecimal c = true →
      (∀ d ∈ body, Digits.isDecimal d = true) → Matches .number ('-' :: c :: body)
  | hex {mark c : Char} {body : List Char} : isHexMark mark = true →
      Digits.isHexadecimal c = true → (∀ d ∈ body, Digits.isHexadecimal d = true) →
      Matches .hex ('0' :: mark :: c :: body)
  | binary {mark c : Char} {body : List Char} : isBinaryMark mark = true →
      Digits.isBinary c = true → (∀ d ∈ body, Digits.isBinary d = true) →
      Matches .binary ('0' :: mark :: c :: body)
  | char {c : Char} : c ≠ quote → c ≠ backslash → c ≠ '\n' → Matches .char [quote, c, quote]
  | escape {c : Char} : c ≠ '\n' → Matches .char [quote, backslash, c, quote]
  | directive {c : Char} {body : List Char} : isNameStart c = true →
      (∀ d ∈ body, isNamePart d = true) → Matches .directive ('.' :: c :: body)
  | comma : Matches .comma [',']
  | colon : Matches .colon [':']
  | newline : Matches .newline ['\n']

namespace Lexer

section Runs

variable {p : Char → Bool} {body rest : List Char}

theorem take_run (p : Char → Bool) (rest : List Char) : rest.take (run p rest) = rest.takeWhile p :=
  List.prefix_iff_eq_take.mp (List.takeWhile_prefix p) |>.symm

theorem run_le_length (p : Char → Bool) (rest : List Char) : run p rest ≤ rest.length :=
  (List.takeWhile_prefix p).length_le

theorem length_le_run (hb : ∀ d ∈ body, p d = true) (hp : body <+: rest) :
    body.length ≤ run p rest := by
  obtain ⟨tail, rfl⟩ := hp
  rw [run, List.takeWhile_append_of_pos hb, List.length_append]
  omega

theorem of_mem_take_run {d : Char} (h : d ∈ rest.take (run p rest)) : p d = true := by
  rw [take_run] at h
  exact List.mem_takeWhile_imp h

theorem exists_cons_take_run (h : run p rest ≠ 0) :
    ∃ d body, rest.take (run p rest) = d :: body ∧ p d = true ∧ ∀ e ∈ body, p e = true := by
  have hall : ∀ d ∈ rest.take (run p rest), p d = true := fun d hd => of_mem_take_run hd
  rw [run, ne_eq, List.length_eq_zero_iff, ← take_run] at h
  cases htake : rest.take (run p rest) with
  | nil => exact absurd htake h
  | cons d body =>
    rw [htake] at hall
    exact ⟨d, body, rfl, hall d List.mem_cons_self,
      fun e he => hall e (List.mem_cons_of_mem d he)⟩

theorem exists_cons_take_run_succ (mark : Char) (h : run p rest ≠ 0) :
    1 + run p rest ≤ (mark :: rest).length ∧
      ∃ d body, (mark :: rest).take (1 + run p rest) = mark :: d :: body ∧ p d = true ∧
        ∀ e ∈ body, p e = true := by
  obtain ⟨d, body, htake, hd, hbody⟩ := exists_cons_take_run h
  have hle := run_le_length p rest
  refine ⟨?_, d, body, ?_, hd, hbody⟩
  · rw [List.length_cons]
    omega
  · rw [Nat.add_comm, List.take_succ_cons, htake]

end Runs

section Digits

theorem isRegisterDigit_iff {d : Char} :
    isRegisterDigit d = true ↔ ∃ r : Register, d.toNat = '0'.toNat + r.val := by
  have hzero : '0'.toNat = 48 := rfl
  have hseven : '7'.toNat = 55 := rfl
  simp only [isRegisterDigit, Bool.and_eq_true, decide_eq_true_eq, char_le_iff]
  constructor
  · rintro ⟨hlow, hhigh⟩
    refine ⟨⟨d.toNat - 48, by omega⟩, ?_⟩
    simp only
    omega
  · rintro ⟨r, hr⟩
    have hlt := r.isLt
    omega

theorem longestNumber_hex {mark : Char} {rest : List Char} (hmark : isHexMark mark = true)
    (hrun : run Digits.isHexadecimal rest ≠ 0) :
    longestNumber '0' (mark :: rest) = (.hex, 1 + run Digits.isHexadecimal rest) := by
  simp [longestNumber, hmark, hrun]

theorem longestNumber_binary {mark : Char} {rest : List Char} (hmark : isBinaryMark mark = true)
    (hrun : run Digits.isBinary rest ≠ 0) :
    longestNumber '0' (mark :: rest) = (.binary, 1 + run Digits.isBinary rest) := by
  have hhex : isHexMark mark = false := by
    rw [isBinaryMark_iff] at hmark
    rw [Bool.eq_false_iff, ne_eq, isHexMark_iff]
    omega
  simp [longestNumber, hmark, hhex, hrun]

end Digits

section Found

/-! What is taken has the shape that is named. -/

variable {c : Char} {rest : List Char} {shape : Shape} {more : Nat}

theorem matches_longestName (hc : isNameStart c = true) (h : longestName c rest = (shape, more)) :
    more ≤ rest.length ∧ shape.Matches (c :: rest.take more) := by
  rw [longestName] at h
  obtain ⟨hshape, rfl⟩ := Prod.mk.inj h
  refine ⟨run_le_length _ _, ?_⟩
  split at hshape
  · rename_i hregister
    subst hshape
    rw [take_run]
    generalize rest.takeWhile isNamePart = body at hregister
    unfold isRegisterName at hregister
    split at hregister
    · rename_i r d heq
      cases heq
      simp only [Bool.and_eq_true, Bool.or_eq_true, beq_iff_eq] at hregister
      exact .register hregister.1 hregister.2
    · cases hregister
  · subst hshape
    exact .identifier hc fun d hd => of_mem_take_run hd

theorem matches_longestNumber (hc : Digits.isDecimal c = true)
    (h : longestNumber c rest = (shape, more)) :
    more ≤ rest.length ∧ shape.Matches (c :: rest.take more) := by
  cases rest with
  | nil =>
    cases h
    exact ⟨Nat.le_refl _, .number hc fun d hd => absurd hd List.not_mem_nil⟩
  | cons mark tail =>
    simp only [longestNumber, Bool.and_eq_true, beq_iff_eq, bne_iff_ne] at h
    split_ifs at h with hhex hbinary
    · obtain ⟨⟨rfl, hmark⟩, hrun⟩ := hhex
      obtain ⟨rfl, rfl⟩ := Prod.mk.inj h
      obtain ⟨hle, d, body, htake, hd, hbody⟩ := exists_cons_take_run_succ mark hrun
      rw [htake]
      exact ⟨hle, .hex hmark hd hbody⟩
    · obtain ⟨⟨rfl, hmark⟩, hrun⟩ := hbinary
      obtain ⟨rfl, rfl⟩ := Prod.mk.inj h
      obtain ⟨hle, d, body, htake, hd, hbody⟩ := exists_cons_take_run_succ mark hrun
      rw [htake]
      exact ⟨hle, .binary hmark hd hbody⟩
    · cases h
      exact ⟨run_le_length _ _, .number hc fun d hd => of_mem_take_run hd⟩

theorem matches_charExtent? (h : charExtent? rest = some more) :
    more ≤ rest.length ∧ Shape.Matches .char (quote :: rest.take more) := by
  unfold charExtent? at h
  split at h
  · cases h
  · rename_i c tail
    simp only [Bool.or_eq_true, beq_iff_eq, Bool.and_eq_true, bne_iff_ne] at h
    split_ifs at h with hescape hend
    · split at h
      · rename_i e q tail
        split_ifs at h with hclose
        cases h
        obtain ⟨he, rfl⟩ := hclose
        subst hescape
        exact ⟨by simp, .escape he⟩
      · cases h
    · split at h
      · rename_i q tail
        split_ifs at h with hclose
        cases h
        subst hclose
        obtain ⟨hquote, hnewline⟩ := not_or.mp hend
        exact ⟨by simp, .char hquote hescape hnewline⟩
      · cases h

theorem matches_longest? (h : longest? c rest = some (shape, more)) :
    more ≤ rest.length ∧ shape.Matches (c :: rest.take more) := by
  by_cases hblank : isBlank c = true
  · rw [longest?_blank hblank] at h
    cases h
    exact ⟨run_le_length _ _, .blank hblank fun d hd => of_mem_take_run hd⟩
  by_cases hcomment : isCommentMark c = true
  · rw [longest?_comment hcomment] at h
    cases h
    refine ⟨run_le_length _ _, .comment hcomment fun hm => ?_⟩
    exact absurd (of_mem_take_run hm) (by decide)
  by_cases hname : isNameStart c = true
  · rw [longest?_name hname] at h
    exact matches_longestName hname (Option.some.inj h)
  by_cases hdigit : Digits.isDecimal c = true
  · rw [longest?_number hdigit] at h
    exact matches_longestNumber hdigit (Option.some.inj h)
  simp only [longest?, hblank, hcomment, hname, hdigit, if_false, Bool.false_eq_true] at h
  split at h
  · rename_i hminus
    obtain rfl := beq_iff_eq.mp hminus
    split at h
    · cases h
    · rename_i hrun
      cases h
      obtain ⟨d, body, htake, hd, hbody⟩ := exists_cons_take_run hrun
      rw [htake]
      exact ⟨run_le_length _ _, .negative hd hbody⟩
  split at h
  · rename_i hdot
    obtain rfl := beq_iff_eq.mp hdot
    split at h
    · rename_i d tail
      split at h
      · rename_i hd
        cases h
        have hle := run_le_length isNamePart tail
        rw [Nat.add_comm, List.take_succ_cons, List.length_cons]
        exact ⟨by omega, .directive hd fun e he => of_mem_take_run he⟩
      · cases h
    · cases h
  split at h
  · rename_i hquote
    obtain rfl := beq_iff_eq.mp hquote
    obtain ⟨n, hextent, hn⟩ := Option.map_eq_some_iff.mp h
    cases hn
    exact matches_charExtent? hextent
  split at h
  · rename_i hcomma
    obtain rfl := beq_iff_eq.mp hcomma
    cases h
    exact ⟨Nat.zero_le _, .comma⟩
  split at h
  · rename_i hcolon
    obtain rfl := beq_iff_eq.mp hcolon
    cases h
    exact ⟨Nat.zero_le _, .colon⟩
  split at h
  · rename_i hnewline
    obtain rfl := beq_iff_eq.mp hnewline
    cases h
    exact ⟨Nat.zero_le _, .newline⟩
  · cases h

end Found

section Longest

/-! No rule matches more than what is taken. -/

/-- A find is at least as long as a text that a rule matches. Where it is not longer it has the
shape of this rule, or the rule is that of names and the find is a register. -/
def Outranks (found : Option (Shape × Nat)) (rule : Shape) (text : List Char) : Prop :=
  ∃ shape more, found = some (shape, more) ∧ text.length ≤ more + 1 ∧
    (text.length = more + 1 → shape = rule ∨ rule = .identifier ∧ shape = .register)

theorem outranks_of_le {shape : Shape} {more : Nat} {text : List Char}
    (h : text.length ≤ more + 1) : Outranks (some (shape, more)) shape text :=
  ⟨shape, more, rfl, h, fun _ => Or.inl rfl⟩

variable {c : Char} {rest body : List Char}

theorem outranks_identifier (hc : isNameStart c = true) (hb : ∀ d ∈ body, isNamePart d = true)
    (hp : body <+: rest) : Outranks (longest? c rest) .identifier (c :: body) := by
  have hlen := length_le_run hb hp
  rw [longest?_name hc, longestName]
  refine ⟨_, _, rfl, Nat.succ_le_succ hlen, fun _ => ?_⟩
  split
  · exact Or.inr ⟨rfl, rfl⟩
  · exact Or.inl rfl

theorem outranks_register {d : Char} (hc : c = 'r' ∨ c = 'R') (hd : isRegisterDigit d = true)
    (hp : [d] <+: rest) : Outranks (longest? c rest) .register [c, d] := by
  have hname : isNameStart c = true := by
    rcases hc with rfl | rfl <;> decide
  have hdigit : isNamePart d = true := by
    obtain ⟨r, hr⟩ := isRegisterDigit_iff.mp hd
    have hzero : '0'.toNat = 48 := rfl
    have hlt := r.isLt
    rw [isNamePart_iff]
    omega
  obtain ⟨tail, rfl⟩ := hp
  have htake : ([d] ++ tail).takeWhile isNamePart = d :: tail.takeWhile isNamePart :=
    List.takeWhile_cons_of_pos hdigit
  rw [longest?_name hname, longestName, run, htake]
  refine ⟨_, _, rfl, by simp, fun hmore => Or.inl ?_⟩
  -- a find of two characters ends behind the digit, so it is the register itself
  have hend : tail.takeWhile isNamePart = [] := by
    apply List.length_eq_zero_iff.mp
    simp only [List.length_cons, List.length_nil] at hmore
    omega
  have hregister : isRegisterName [c, d] = true := by
    rcases hc with rfl | rfl <;> simp [isRegisterName, hd]
  rw [hend, hregister, if_pos rfl]

/-- A mark of a base is no digit, so digits in front of it end there. -/
theorem eq_nil_of_mark {mark : Char} (hb : ∀ d ∈ body, Digits.isDecimal d = true)
    (hp : body <+: mark :: rest) (hmark : isHexMark mark = true ∨ isBinaryMark mark = true) :
    body = [] := by
  cases body with
  | nil => rfl
  | cons d body =>
    obtain ⟨rfl, -⟩ := List.cons_prefix_cons.mp hp
    obtain ⟨hhex, hbinary⟩ := no_mark (Or.inl (hb d List.mem_cons_self))
    simp [hhex, hbinary] at hmark

theorem outranks_number (hc : Digits.isDecimal c = true)
    (hb : ∀ d ∈ body, Digits.isDecimal d = true) (hp : body <+: rest) :
    Outranks (longest? c rest) .number (c :: body) := by
  have hlen := length_le_run hb hp
  rw [longest?_number hc]
  cases rest with
  | nil => exact outranks_of_le (Nat.succ_le_succ hlen)
  | cons mark tail =>
    simp only [longestNumber, Bool.and_eq_true]
    split_ifs with hhex hbinary
    · obtain rfl := eq_nil_of_mark hb hp (Or.inl hhex.1.2)
      refine ⟨_, _, rfl, by simp, fun hmore => ?_⟩
      simp only [List.length_cons, List.length_nil] at hmore
      omega
    · obtain rfl := eq_nil_of_mark hb hp (Or.inr hbinary.1.2)
      refine ⟨_, _, rfl, by simp, fun hmore => ?_⟩
      simp only [List.length_cons, List.length_nil] at hmore
      omega
    · exact outranks_of_le (Nat.succ_le_succ hlen)

/-- Digits behind the mark of their base are taken with it. -/
theorem outranks_marked {mark : Char} {p : Char → Bool} {rule : Shape}
    (hfind : run p rest ≠ 0 → longestNumber '0' (mark :: rest) = (rule, 1 + run p rest))
    (hb : ∀ d ∈ body, p d = true) (hne : body ≠ []) (hp : body <+: rest) :
    Outranks (longest? '0' (mark :: rest)) rule ('0' :: mark :: body) := by
  have hlen := length_le_run hb hp
  have hpos := List.length_pos_iff.mpr hne
  rw [longest?_number (by decide), hfind (by omega)]
  apply outranks_of_le
  simp only [List.length_cons]
  omega

theorem outranks_char {d : Char} (hquote : d ≠ quote) (hslash : d ≠ backslash)
    (hnewline : d ≠ '\n') (hp : [d, quote] <+: rest) :
    Outranks (longest? quote rest) .char [quote, d, quote] := by
  obtain ⟨tail, rfl⟩ := hp
  have hextent : charExtent? ([d, quote] ++ tail) = some 2 := by
    simp [charExtent?, hquote, hslash, hnewline]
  change Outranks ((charExtent? ([d, quote] ++ tail)).map fun n => (.char, n)) _ _
  rw [hextent]
  exact outranks_of_le (Nat.le_refl 3)

theorem outranks_escape {d : Char} (hd : d ≠ '\n') (hp : [backslash, d, quote] <+: rest) :
    Outranks (longest? quote rest) .char [quote, backslash, d, quote] := by
  obtain ⟨tail, rfl⟩ := hp
  have hextent : charExtent? ([backslash, d, quote] ++ tail) = some 3 := by
    simp [charExtent?, hd]
  change Outranks ((charExtent? ([backslash, d, quote] ++ tail)).map fun n => (.char, n)) _ _
  rw [hextent]
  exact outranks_of_le (Nat.le_refl 4)

theorem outranks_negative (hb : ∀ d ∈ body, Digits.isDecimal d = true) (hne : body ≠ [])
    (hp : body <+: rest) : Outranks (longest? '-' rest) .number ('-' :: body) := by
  have hlen := length_le_run hb hp
  have hpos := List.length_pos_iff.mpr hne
  have hrun : run Digits.isDecimal rest ≠ 0 := by omega
  change Outranks (if run Digits.isDecimal rest = 0 then none else _) _ _
  rw [if_neg hrun]
  exact outranks_of_le (Nat.succ_le_succ hlen)

theorem outranks_directive (hc : isNameStart c = true) (hb : ∀ d ∈ body, isNamePart d = true)
    (hp : body <+: rest) : Outranks (longest? '.' (c :: rest)) .directive ('.' :: c :: body) := by
  have hlen := length_le_run hb hp
  change Outranks (if isNameStart c then _ else none) _ _
  rw [if_pos hc]
  apply outranks_of_le
  simp only [List.length_cons]
  omega

/-- Whatever rule matches a head of a text, the lexer takes no less there. -/
theorem outranks_of_matches {rule : Shape} {text : List Char} (h : rule.Matches text)
    (hp : text <+: c :: rest) : Outranks (longest? c rest) rule text := by
  cases h with
  | blank hc hb =>
    obtain ⟨rfl, hbody⟩ := List.cons_prefix_cons.mp hp
    rw [longest?_blank hc]
    exact outranks_of_le (Nat.succ_le_succ (length_le_run hb hbody))
  | comment hc hb =>
    obtain ⟨rfl, hbody⟩ := List.cons_prefix_cons.mp hp
    rw [longest?_comment hc]
    exact outranks_of_le (Nat.succ_le_succ (length_le_run (Text.bne_newline hb) hbody))
  | identifier hc hb =>
    obtain ⟨rfl, hbody⟩ := List.cons_prefix_cons.mp hp
    exact outranks_identifier hc hb hbody
  | register hc hd =>
    obtain ⟨rfl, hbody⟩ := List.cons_prefix_cons.mp hp
    exact outranks_register hc hd hbody
  | number hc hb =>
    obtain ⟨rfl, hbody⟩ := List.cons_prefix_cons.mp hp
    exact outranks_number hc hb hbody
  | negative hc hb =>
    obtain ⟨rfl, hbody⟩ := List.cons_prefix_cons.mp hp
    exact outranks_negative (List.forall_mem_cons.mpr ⟨hc, hb⟩) (List.cons_ne_nil _ _) hbody
  | hex hmark hc hb =>
    obtain ⟨rfl, hbody⟩ := List.cons_prefix_cons.mp hp
    obtain ⟨tail, rfl, htail⟩ := List.cons_prefix_iff.mp hbody
    exact outranks_marked (longestNumber_hex hmark) (List.forall_mem_cons.mpr ⟨hc, hb⟩)
      (List.cons_ne_nil _ _) htail
  | binary hmark hc hb =>
    obtain ⟨rfl, hbody⟩ := List.cons_prefix_cons.mp hp
    obtain ⟨tail, rfl, htail⟩ := List.cons_prefix_iff.mp hbody
    exact outranks_marked (longestNumber_binary hmark) (List.forall_mem_cons.mpr ⟨hc, hb⟩)
      (List.cons_ne_nil _ _) htail
  | char hquote hslash hnewline =>
    obtain ⟨rfl, hbody⟩ := List.cons_prefix_cons.mp hp
    exact outranks_char hquote hslash hnewline hbody
  | escape hd =>
    obtain ⟨rfl, hbody⟩ := List.cons_prefix_cons.mp hp
    exact outranks_escape hd hbody
  | directive hc hb =>
    obtain ⟨rfl, hbody⟩ := List.cons_prefix_cons.mp hp
    obtain ⟨tail, rfl, htail⟩ := List.cons_prefix_iff.mp hbody
    exact outranks_directive hc hb htail
  | comma | colon | newline =>
    obtain ⟨rfl, -⟩ := List.cons_prefix_cons.mp hp
    exact outranks_of_le (Nat.le_refl 1)

/-- A text that a rule matches as a whole is taken as a whole. -/
theorem longest?_of_matches {rule : Shape} {c : Char} {body : List Char}
    (h : rule.Matches (c :: body)) (hname : rule ≠ .identifier) :
    longest? c body = some (rule, body.length) := by
  obtain ⟨shape, more, hfind, hlength, hshape⟩ := outranks_of_matches h List.prefix_rfl
  have hmore : more = body.length := by
    have hle := (matches_longest? hfind).1
    rw [List.length_cons] at hlength
    omega
  subst hmore
  rcases hshape rfl with rfl | ⟨hidentifier, -⟩
  · exact hfind
  · exact absurd hidentifier hname

theorem lexemes_of_matches {rule : Shape} {text : List Char} (h : rule.Matches text)
    (hshown : isSkipped rule = false) (hname : rule ≠ .identifier) :
    lexemes text = [lexeme rule text] := by
  cases text with
  | nil => cases h
  | cons c body =>
    have hfound : longest? c (body ++ []) = some (rule, body.length) := by
      rw [List.append_nil]
      exact longest?_of_matches h hname
    have hlexemes := lexemes_found hfound hshown
    rwa [List.append_nil, lexemes_nil] at hlexemes

end Longest

section Behind

/-! What stands behind a text changes what is taken from it only where a run reaches the end. -/

variable {b c : Char} {p : Char → Bool} {rest after : List Char}

theorem isNamePart_of_isBlank (hb : isBlank b = true) : isNamePart b = false := by
  rw [isBlank_iff] at hb
  rw [Bool.eq_false_iff, ne_eq, isNamePart_iff]
  omega

theorem takeWhile_append_of_stops (ha : Stops p after) (rest : List Char) :
    (rest ++ after).takeWhile p = rest.takeWhile p := by
  induction rest with
  | nil => exact takeWhile_append_stops (List.forall_mem_nil _) ha
  | cons c rest ih =>
    by_cases hc : p c = true
    · rw [List.cons_append, List.takeWhile_cons_of_pos hc, List.takeWhile_cons_of_pos hc, ih]
    · rw [List.cons_append, List.takeWhile_cons_of_neg hc, List.takeWhile_cons_of_neg hc]

theorem run_append_of_stops (ha : Stops p after) (rest : List Char) :
    run p (rest ++ after) = run p rest := by
  rw [run, run, takeWhile_append_of_stops ha]

theorem longestNumber_append (ha : Stops isNamePart after) (c : Char) (rest : List Char) :
    longestNumber c (rest ++ after) = longestNumber c rest := by
  have hdecimal : Stops Digits.isDecimal after := ha.mono fun d => isNamePart_of_isDecimal
  have hhex : Stops Digits.isHexadecimal after := ha.mono fun d => isNamePart_of_isHexadecimal
  have hbinary : Stops Digits.isBinary after := by
    apply ha.mono
    intro d hd
    simp only [Digits.isBinary, Bool.or_eq_true, beq_iff_eq] at hd
    rcases hd with rfl | rfl <;> decide
  cases rest with
  | nil =>
    cases after with
    | nil => rfl
    | cons b after =>
      obtain ⟨hx, hy⟩ := no_mark (Or.inr (ha b rfl))
      simp [longestNumber, hx, hy, run, hdecimal b rfl]
  | cons mark tail =>
    rw [List.cons_append]
    simp only [longestNumber, run_append_of_stops hhex, run_append_of_stops hbinary]
    rw [← List.cons_append, run_append_of_stops hdecimal]

theorem charExtent?_append {more : Nat} (after : List Char) (h : charExtent? rest = some more) :
    charExtent? (rest ++ after) = some more := by
  match rest with
  | [] => simp [charExtent?] at h
  | [x] => simp [charExtent?] at h
  | [x, y] =>
    by_cases hx : x = backslash
    · simp [charExtent?, hx] at h
    · simpa [charExtent?, hx] using h
  | x :: y :: z :: tail => exact h

/-- A run that is found stays what it is in front of a text that neither goes on with a name nor
with blanks, unless it is a comment. -/
theorem longest?_append {found : Shape × Nat} (hname : Stops isNamePart after)
    (hblank : Stops isBlank after) (hc : isCommentMark c = false)
    (h : longest? c rest = some found) : longest? c (rest ++ after) = some found := by
  by_cases hspace : isBlank c = true
  · rw [← h, longest?_blank hspace, longest?_blank hspace, run_append_of_stops hblank]
  by_cases hstart : isNameStart c = true
  · rw [← h, longest?_name hstart, longest?_name hstart, longestName, longestName,
      takeWhile_append_of_stops hname, run_append_of_stops hname]
  by_cases hdigit : Digits.isDecimal c = true
  · rw [← h, longest?_number hdigit, longest?_number hdigit, longestNumber_append hname]
  by_cases hquote : c = quote
  · subst hquote
    obtain ⟨more, hmore, hfound⟩ := Option.map_eq_some_iff.mp h
    change (charExtent? (rest ++ after)).map _ = _
    rw [charExtent?_append after hmore, Option.map_some, hfound]
  by_cases hdot : c = '.'
  · subst hdot
    cases rest with
    | nil => cases h
    | cons d tail =>
      rw [← h, List.cons_append]
      change (if isNameStart d then some (Shape.directive, 1 + run isNamePart _) else none) = _
      rw [run_append_of_stops hname]
      rfl
  have hdecimal : Stops Digits.isDecimal after := hname.mono fun d => isNamePart_of_isDecimal
  rw [← h]
  simp only [longest?, hspace, hc, hstart, hdigit, beq_eq_false_iff_ne.mpr hquote,
    beq_eq_false_iff_ne.mpr hdot, Bool.false_eq_true, if_false, run_append_of_stops hdecimal]

theorem run_append_of_pos (hp : p b = true) (rest : List Char) :
    run p (rest ++ [b]) = run p rest ∨
      run p rest = rest.length ∧ run p (rest ++ [b]) = rest.length + 1 := by
  rw [run, run, List.takeWhile_append]
  split
  · rename_i hall
    refine Or.inr ⟨hall, ?_⟩
    simp [hp]
  · exact Or.inl rfl

theorem charExtent?_append_blank (hb : isBlank b = true) (rest : List Char) :
    charExtent? (rest ++ [b]) = charExtent? rest := by
  have hslash : b ≠ backslash := by
    rintro rfl
    exact absurd hb (by decide)
  have hquote : b ≠ quote := by
    rintro rfl
    exact absurd hb (by decide)
  match rest with
  | [] => simp [charExtent?, hslash]
  | [x] => simp [charExtent?, hquote]
  | [x, y] => simp [charExtent?, hquote]
  | x :: y :: z :: tail => rfl

theorem longest?_append_blank (hb : isBlank b = true) (c : Char) (rest : List Char) :
    longest? c (rest ++ [b]) = longest? c rest ∨
      ∃ shape, isSkipped shape = true ∧ longest? c rest = some (shape, rest.length) ∧
        longest? c (rest ++ [b]) = some (shape, rest.length + 1) := by
  have hname : Stops isNamePart [b] := stops_cons (isNamePart_of_isBlank hb) []
  by_cases hblank : isBlank c = true
  · rw [longest?_blank hblank, longest?_blank hblank]
    rcases run_append_of_pos hb rest with hrun | ⟨hall, hrun⟩
    · rw [hrun]
      exact Or.inl rfl
    · rw [hall, hrun]
      exact Or.inr ⟨.blank, rfl, rfl, rfl⟩
  by_cases hcomment : isCommentMark c = true
  · rw [longest?_comment hcomment, longest?_comment hcomment]
    have hend : (b != '\n') = true := by
      rw [bne_iff_ne]
      rintro rfl
      exact absurd hb (by decide)
    rcases run_append_of_pos (p := (· != '\n')) hend rest with hrun | ⟨hall, hrun⟩
    · rw [hrun]
      exact Or.inl rfl
    · rw [hall, hrun]
      exact Or.inr ⟨.comment, rfl, rfl, rfl⟩
  left
  by_cases hstart : isNameStart c = true
  · rw [longest?_name hstart, longest?_name hstart, longestName, longestName,
      takeWhile_append_of_stops hname, run_append_of_stops hname]
  by_cases hdigit : Digits.isDecimal c = true
  · rw [longest?_number hdigit, longest?_number hdigit, longestNumber_append hname]
  have hnone : isNameStart b = false ∧ Digits.isDecimal b = false := by
    have hb := isNamePart_of_isBlank hb
    rwa [isNamePart, Bool.or_eq_false_iff] at hb
  simp only [longest?, hblank, hcomment, hstart, hdigit, Bool.false_eq_true, if_false,
    run_append_of_stops (stops_cons hnone.2 []), charExtent?_append_blank hb]
  cases rest with
  | nil => simp [hnone.1]
  | cons d tail => simp only [List.cons_append, run_append_of_stops hname]

/-- Where the same is taken from the text alone, what stands behind comes only behind the rest. -/
theorem itemsFrom_append {shape : Shape} {more : Nat} (start : Nat)
    (h : longest? c rest = some (shape, more))
    (hsame : longest? c (rest ++ after) = some (shape, more)) :
    itemsFrom start (c :: rest ++ after) =
      (if isSkipped shape then []
        else [⟨lexeme shape (c :: rest.take more), start,
          start + byteLength (c :: rest.take more)⟩]) ++
      itemsFrom (start + byteLength (c :: rest.take more)) (rest.drop more ++ after) := by
  have hle := (matches_longest? h).1
  rw [List.cons_append, itemsFrom, hsame]
  simp only [List.take_append_of_le_length hle, List.drop_append_of_le_length hle]
  split <;> rfl

theorem itemsFrom_append_blank (hb : isBlank b = true) (start : Nat) (text : List Char) :
    itemsFrom start (text ++ [b]) = itemsFrom start text := by
  fun_induction itemsFrom start text with
  | case1 start =>
    rw [List.nil_append, itemsFrom, longest?_blank hb]
    simp only [isSkipped, if_true, List.drop_nil, itemsFrom_nil]
  | case2 start c rest hl stop ih =>
    rcases longest?_append_blank hb c rest with hsame | ⟨shape, -, hl', -⟩
    · rw [List.cons_append, itemsFrom, hsame, hl]
      simp only
      rw [ih]
    · rw [hl] at hl'
      cases hl'
  | case3 start c rest shape more hl found stop behind hs ih =>
    rcases longest?_append_blank hb c rest with hsame | ⟨shape', hs', hl', hend⟩
    · rw [itemsFrom_append start hl (hsame.trans hl), if_pos hs, List.nil_append]
      exact ih
    · -- the skipped run reaches the end of the text, with the blank and without it
      rw [hl] at hl'
      cases hl'
      have hdrop : (rest ++ [b]).drop (rest.length + 1) = [] := by
        apply List.drop_eq_nil_of_le
        rw [List.length_append, List.length_singleton]
      rw [List.cons_append, itemsFrom, hend]
      simp only [hs, if_true, hdrop, List.drop_length, itemsFrom_nil, behind]
  | case4 start c rest shape more hl found stop behind hs ih =>
    rcases longest?_append_blank hb c rest with hsame | ⟨shape', hs', hl', -⟩
    · rw [itemsFrom_append start hl (hsame.trans hl), if_neg hs, ih]
      rfl
    · rw [hl] at hl'
      cases hl'
      exact absurd hs' hs

end Behind

end Lexer

end UniversalMachine.Assembly
