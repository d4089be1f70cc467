import UniversalMachine.Proofs.LetterCase
import UniversalMachine.Proofs.SourceTiling

/-! Names of registers, on their own and in a source.
A register is recognised in two ways: by the text of a name, with white space around it and in
either case, and by the tokens of a source. On a name without white space both give the same
register, since no other letter than `R` becomes `r`, and no other character becomes a digit. -/

namespace UniversalMachine

namespace Text

/-- White space at both ends of the text has been taken off, and none is left there. -/
structure Trimmed (text core : List Char) : Prop where
  around : ∃ front back, text = front ++ core ++ back ∧ (∀ c ∈ front, isSpace c = true) ∧
    ∀ c ∈ back, isSpace c = true
  first : ∀ c ∈ core.head?, isSpace c = false
  last : ∀ c ∈ core.getLast?, isSpace c = false

section Trimming

variable {text core : List Char}

theorem trimmed_self (h : ∀ c ∈ text, isSpace c = false) : Trimmed text text := by
  refine ⟨⟨[], [], ?_, ?_, ?_⟩, ?_, ?_⟩
  · simp
  · simp
  · simp
  · intro c hc
    exact h c (List.mem_of_mem_head? hc)
  · intro c hc
    exact h c (List.mem_of_mem_getLast? hc)

theorem dropWhile_of_head? {p : Char → Bool} (h : ∀ c ∈ text.head?, p c = false) :
    text.dropWhile p = text := by
  cases text with
  | nil => rfl
  | cons c rest => exact List.dropWhile_cons_of_neg (Bool.eq_false_iff.mp (h c rfl))

theorem Trimmed.trim_eq (h : Trimmed text core) : trim text = core := by
  obtain ⟨⟨front, back, rfl, hfront, hback⟩, hfirst, hlast⟩ := h
  rw [trim, List.append_assoc, List.dropWhile_append_of_pos hfront]
  cases core with
  | nil =>
    rw [List.nil_append, List.dropWhile_eq_nil_iff.mpr hback]
    rfl
  | cons c rest =>
    have hback' : ∀ c ∈ back.reverse, isSpace c = true := by
      intro d hd
      exact hback d (List.mem_reverse.mp hd)
    have hkept : (c :: rest ++ back).dropWhile isSpace = c :: rest ++ back :=
      dropWhile_of_head? hfirst
    rw [hkept, List.reverse_append, List.dropWhile_append_of_pos hback', dropWhile_of_head?,
      List.reverse_reverse]
    rwa [List.head?_reverse]

theorem trimmed_trim (text : List Char) : Trimmed text (trim text) := by
  have htext := List.takeWhile_append_dropWhile (p := isSpace) (l := text)
  have hhead := List.head?_dropWhile_not isSpace text
  rw [trim]
  generalize text.dropWhile isSpace = rest at htext hhead
  have hrest := congrArg List.reverse
    (List.takeWhile_append_dropWhile (p := isSpace) (l := rest.reverse))
  have hhead' := List.head?_dropWhile_not isSpace rest.reverse
  rw [List.reverse_append, List.reverse_reverse] at hrest
  refine ⟨⟨text.takeWhile isSpace, (rest.reverse.takeWhile isSpace).reverse, ?_, ?_, ?_⟩, ?_, ?_⟩
  · rw [List.append_assoc, hrest, htext]
  · intro c hc
    exact List.mem_takeWhile_imp hc
  · intro c hc
    exact List.mem_takeWhile_imp (List.mem_reverse.mp hc)
  · intro c hc
    rw [← hrest, List.head?_append, Option.mem_def.mp hc] at hhead
    simpa using hhead
  · intro c hc
    rw [List.getLast?_reverse, Option.mem_def] at hc
    rw [hc] at hhead'
    simpa using hhead'

end Trimming

section Lowering

variable {c x : Char} {text target : List Char}

/-- Partners are characters: none lies among the surrogates or beyond the last code point. -/
theorem caseRows_valid : ∀ row ∈ caseRows,
    (0 : Int) ≤ row.first + row.offset ∧ row.last + row.offset < 0xD800 ∨
      0xDFFF < row.first + row.offset ∧ row.last + row.offset < 0x110000 := by
  decide +kernel

/-- Only `A` to `Z` and the sign for kelvin have a partner among the ASCII characters. -/
theorem caseRows_ascii : ∀ row ∈ caseRows, row = ⟨0x41, 0x5A, 1, 32⟩ ∨
    row = ⟨0x212A, 0x212A, 1, -8383⟩ ∨
      128 ≤ row.first ∧ (128 : Int) ≤ row.first + row.offset := by
  decide +kernel

/-- A character is moved by the offset of a row that covers it, or stays and is no capital. -/
theorem lowerPartner_cases (c : Char) :
    (∃ row ∈ caseRows, (row.first ≤ c.toNat ∧ c.toNat ≤ row.last) ∧
      ((lowerPartner c).toNat : Int) = c.toNat + row.offset) ∨
    ¬ (65 ≤ c.toNat ∧ c.toNat ≤ 90) ∧ lowerPartner c = c := by
  rw [lowerPartner]
  split
  · rename_i row hfind
    have hrow := List.mem_of_find?_eq_some hfind
    have hcovers := List.find?_some hfind
    simp only [CaseRow.covers, Bool.and_eq_true, decide_eq_true_eq] at hcovers
    have hrange := caseRows_valid row hrow
    have hvalid : (c.toNat + row.offset).toNat.isValidChar := by
      rw [Nat.isValidChar]
      omega
    have hcode : (Char.ofNat (c.toNat + row.offset).toNat).toNat = (c.toNat + row.offset).toNat :=
      congrArg Char.toNat (dif_pos hvalid)
    refine .inl ⟨row, hrow, hcovers.1, ?_⟩
    rw [hcode]
    omega
  · rename_i hnone
    have hfirst := List.find?_eq_none.mp hnone ⟨0x41, 0x5A, 1, 32⟩ List.mem_cons_self
    simp only [CaseRow.covers, Nat.mod_one, beq_self_eq_true, Bool.and_true, Bool.and_eq_true,
      decide_eq_true_eq] at hfirst
    exact .inr ⟨hfirst, rfl⟩

theorem lowerPartner_of_ascii (h : c.toNat < 128) : lowerPartner c = c.toLower := by
  have hlower := toNat_toLower c
  apply Char.toNat_inj.mp
  rcases lowerPartner_cases c with ⟨row, hrow, hrange, hcode⟩ | ⟨hrange, hsame⟩
  · rcases caseRows_ascii row hrow with rfl | rfl | ⟨hfirst, -⟩
    · simp only at hrange hcode
      omega
    · simp only at hrange
      omega
    · omega
  · rw [hsame]
    omega

/-- Nothing else than its own capital becomes an ASCII character, `k` apart. -/
theorem toLower_of_lowerPartner (hx : (lowerPartner c).toNat < 128) (hk : lowerPartner c ≠ 'k') :
    c.toLower = lowerPartner c := by
  have hlower := toNat_toLower c
  rcases lowerPartner_cases c with ⟨row, hrow, hrange, hcode⟩ | ⟨-, hsame⟩
  · rcases caseRows_ascii row hrow with rfl | rfl | ⟨-, hfar⟩
    · apply Char.toNat_inj.mp
      simp only at hrange hcode
      omega
    · have hkelvin : (lowerPartner c).toNat = 107 := by
        simp only at hrange hcode
        omega
      exact absurd (Char.toNat_inj.mp hkelvin) hk
    · omega
  · rw [hsame] at hx
    exact (lowerPartner_of_ascii hx).symm

/-- The ASCII characters without `k`, which the sign for kelvin becomes too. -/
def IsPlain (x : Char) : Prop := x.toNat < 128 ∧ x ≠ 'k'

instance (x : Char) : Decidable (IsPlain x) := inferInstanceAs (Decidable (_ ∧ _))

theorem lowerAt_of_ascii (h : c.toNat < 128) (before after : List Char) :
    lowerAt before c after = [c.toLower] := by
  have hsigma : c ≠ 'Σ' := by
    rintro rfl
    exact absurd h (by decide)
  have hdotted : c ≠ 'İ' := by
    rintro rfl
    exact absurd h (by decide)
  simp [lowerAt, hsigma, hdotted, lowerPartner_of_ascii h]

theorem lowerAt_of_plain {before after : List Char} (h : ∀ x ∈ lowerAt before c after, IsPlain x) :
    lowerAt before c after = [c.toLower] := by
  rw [lowerAt] at h ⊢
  split at h
  · have hsigma := (h _ List.mem_cons_self).1
    split at hsigma <;> exact absurd hsigma (by decide)
  · rename_i hsigma
    rw [if_neg hsigma]
    split at h
    · have haccent := (h (Char.ofNat 0x307) (by simp)).1
      exact absurd haccent (by decide)
    · rename_i hdotted
      obtain ⟨hx, hk⟩ := h _ List.mem_cons_self
      rw [if_neg hdotted, toLower_of_lowerPartner hx hk]

theorem lowercaseAfter_of_ascii (h : ∀ c ∈ text, c.toNat < 128) (before : List Char) :
    lowercaseAfter before text = text.map Char.toLower := by
  induction text generalizing before with
  | nil => rfl
  | cons c rest ih =>
    obtain ⟨hc, hrest⟩ := List.forall_mem_cons.mp h
    rw [lowercaseAfter, lowerAt_of_ascii hc, ih hrest]
    rfl

theorem lowercaseAfter_of_plain {before : List Char}
    (h : ∀ x ∈ lowercaseAfter before text, IsPlain x) :
    lowercaseAfter before text = text.map Char.toLower := by
  induction text generalizing before with
  | nil => rfl
  | cons c rest ih =>
    rw [lowercaseAfter] at h ⊢
    obtain ⟨hc, hrest⟩ := List.forall_mem_append.mp h
    rw [lowerAt_of_plain hc, ih hrest]
    rfl

/-- A plain text comes from those texts only that differ from it in the case of ASCII letters. -/
theorem lowercase_eq_iff (ht : ∀ x ∈ target, IsPlain x) :
    lowercase text = target ↔ text.map Char.toLower = target := by
  constructor
  · rintro rfl
    exact (lowercaseAfter_of_plain ht).symm
  · rintro rfl
    apply lowercaseAfter_of_ascii
    intro c hc
    have hlower := (ht c.toLower (List.mem_map_of_mem hc)).1
    have hcode := toNat_toLower c
    omega

end Lowering

end Text

namespace Assembly

variable {text : List Char} {name : String} {r : Register}

/-- The text is the letter of registers in either case and the digit of this one. -/
def NamesRegister (text : List Char) (r : Register) : Prop :=
  ∃ c d : Char, text = [c, d] ∧ (c = 'r' ∨ c = 'R') ∧ d.toNat = '0'.toNat + r.val

section Lexed

open Lexer

theorem items_of_namesRegister (h : NamesRegister text r) :
    items text = [⟨.token (.register r), 0, byteLength text⟩] := by
  obtain ⟨c, d, rfl, hc, hd⟩ := h
  have hmatch : Shape.Matches .register [c, d] :=
    .register hc (isRegisterDigit_iff.mpr ⟨r, hd⟩)
  have htoken : lexeme .register [c, d] = .token (.register r) :=
    lexeme_eq_token_iff.mpr (register_token? hd)
  rw [items, itemsFrom, longest?_of_matches hmatch Shape.noConfusion]
  simp [isSkipped, htoken, itemsFrom_nil]

theorem eq_nil_of_byteLength (h : byteLength text = 0) : text = [] := by
  by_contra hne
  have hpos := byteLength_pos hne
  omega

/-- A register that takes up a whole text is spelled by it. -/
theorem namesRegister_of_items (h : items text = [⟨.token (.register r), 0, byteLength text⟩]) :
    NamesRegister text r := by
  have hitem : ⟨.token (.register r), 0, byteLength text⟩ ∈ items text := by
    rw [h]
    exact List.mem_cons_self
  obtain ⟨-, -, piece, after, ⟨before, htext, hstart, hstop⟩, hscanned⟩ :=
    (itemsFrom_tiled [] text).item_holds hitem
  obtain rfl := eq_nil_of_byteLength hstart.symm
  rw [List.nil_append, List.nil_append] at htext
  have hafter : after = [] := by
    have hlength : byteLength text = byteLength piece := hstop
    rw [htext, byteLength_append] at hlength
    apply eq_nil_of_byteLength
    omega
  rw [htext, hafter, List.append_nil]
  exact (hscanned.register_iff r).mp rfl

end Lexed

section Named

/-- The digit of a register. -/
def registerDigit (r : Register) : Char := Char.ofNat ('0'.toNat + r.val)

theorem name_toList (r : Register) : r.name.toList = ['r', registerDigit r] := by
  revert r
  decide +kernel

theorem eq_registerDigit_iff {d : Char} : d = registerDigit r ↔ d.toNat = '0'.toNat + r.val := by
  have hdigit : (registerDigit r).toNat = '0'.toNat + r.val := by
    revert r
    decide +kernel
  rw [← hdigit, Char.toNat_inj]

theorem toLower_eq_registerDigit_iff {d : Char} :
    d.toLower = registerDigit r ↔ d.toNat = '0'.toNat + r.val := by
  have hr := r.isLt
  have hzero : '0'.toNat = 48 := rfl
  have hlower := toNat_toLower d
  rw [eq_registerDigit_iff]
  omega

theorem toLower_eq_r_iff {c : Char} : c.toLower = 'r' ↔ c = 'r' ∨ c = 'R' := by
  have hlower := toNat_toLower c
  simp only [← Char.toNat_inj]
  change c.toLower.toNat = 114 ↔ c.toNat = 114 ∨ c.toNat = 82
  omega

theorem lowercase_eq_name_iff : Text.lowercase text = r.name.toList ↔ NamesRegister text r := by
  have hplain : ∀ x ∈ r.name.toList, Text.IsPlain x := by
    have hdigit : Text.IsPlain (registerDigit r) := by
      revert r
      decide +kernel
    rw [name_toList, List.forall_mem_cons, List.forall_mem_singleton]
    exact ⟨by decide, hdigit⟩
  rw [Text.lowercase_eq_iff hplain, name_toList]
  constructor
  · intro h
    obtain ⟨c, rest, rfl, hc, hrest⟩ := List.map_eq_cons_iff.mp h
    obtain ⟨d, tail, rfl, hd, htail⟩ := List.map_eq_cons_iff.mp hrest
    obtain rfl := List.map_eq_nil_iff.mp htail
    exact ⟨c, d, rfl, toLower_eq_r_iff.mp hc, toLower_eq_registerDigit_iff.mp hd⟩
  · rintro ⟨c, d, rfl, hc, hd⟩
    rw [List.map_cons, List.map_cons, toLower_eq_r_iff.mpr hc, toLower_eq_registerDigit_iff.mpr hd]
    rfl

theorem eq_singleton_of_byteLength (h : Lexer.byteLength text = 1) : ∃ d, text = [d] := by
  rcases text with _ | ⟨d, _ | ⟨e, rest⟩⟩
  · cases h
  · exact ⟨d, rfl⟩
  · have hd := d.utf8Size_pos
    have he := e.utf8Size_pos
    rw [Lexer.byteLength_cons, Lexer.byteLength_cons] at h
    omega

/-- A number of one character is a decimal digit; a lone plus sign is none. -/
theorem unsigned?_singleton {d : Char} {n : Nat} (h : Digits.unsigned? [d] = some n) :
    d.toNat = '0'.toNat + n := by
  obtain ⟨hnatural, -⟩ := Option.filter_eq_some_iff.mp h
  have hdigits : Digits.digits? [d] = some n := by
    rw [Digits.natural?.eq_def] at hnatural
    split at hnatural
    · rename_i hplus
      obtain ⟨-, rfl⟩ := List.cons.inj hplus
      cases hnatural
    · exact hnatural
  rw [Digits.digits?] at hdigits
  split at hdigits
  · rename_i hdecimal
    have hd : Digits.isDecimal d = true := by simpa using hdecimal
    have hrange := Lexer.isDecimal_iff.mp hd
    have hn : Digits.value d = n := by simpa [Digits.read] using hdigits
    rw [Digits.value, if_pos hd] at hn
    have hzero : '0'.toNat = 48 := rfl
    omega
  · cases hdigits

theorem registerNamed?_eq_some_iff : registerNamed? text = some r ↔ text = r.name.toList := by
  rw [name_toList]
  constructor
  · intro h
    rw [registerNamed?.eq_def] at h
    split at h
    · rename_i digits
      split at h
      · rename_i hone
        obtain ⟨d, rfl⟩ := eq_singleton_of_byteLength hone
        obtain ⟨n, hn, hr⟩ := Option.bind_eq_some_iff.mp h
        rw [Register.ofIndex?] at hr
        split at hr
        · cases hr
          exact congrArg (['r', ·]) (eq_registerDigit_iff.mpr (unsigned?_singleton hn))
        · cases hr
      · cases h
    · cases h
  · rintro rfl
    revert r
    decide +kernel

theorem parseRegister_eq_ok_iff : parseRegister name = .ok r ↔ normalName name = r.name := by
  rw [← String.toList_inj, ← registerNamed?_eq_some_iff, parseRegister]
  cases registerNamed? (normalName name).toList with
  | none => simp
  | some r' => simp

theorem parseRegister_eq_error {e : Error} (h : parseRegister name = .error e) :
    e = .invalidRegister 0 (normalName name) := by
  rw [parseRegister] at h
  split at h
  · cases h
  · cases h
    rfl

/-- Both ways to recognise a register agree on every name without white space. What a name stands
for depends on the name only as it is without white space at its ends and in lower case, and that is
how a name that stands for no register is reported. -/
theorem parseRegister_agrees_with_items :
    (∀ (name : String) (r : Register), (∀ c ∈ name.toList, Text.isSpace c = false) →
      (parseRegister name = .ok r ↔
        Lexer.items name.toList = [⟨.token (.register r), 0, name.utf8ByteSize⟩])) ∧
    (∀ name : String, ∃ core, Text.Trimmed name.toList core) ∧
    (∀ (name other : String) (core core' : List Char), Text.Trimmed name.toList core →
      Text.Trimmed other.toList core' → Text.lowercase core = Text.lowercase core' →
      parseRegister name = parseRegister other) ∧
    ∀ (name : String) (core : List Char) (e : Error), Text.Trimmed name.toList core →
      parseRegister name = .error e →
      e = .invalidRegister 0 (String.ofList (Text.lowercase core)) := by
  have hnormal (name : String) (core : List Char) (h : Text.Trimmed name.toList core) :
      normalName name = String.ofList (Text.lowercase core) := by
    rw [normalName, h.trim_eq]
  refine ⟨?_, ?_, ?_, ?_⟩
  · intro name r hspace
    rw [parseRegister_eq_ok_iff, hnormal name _ (Text.trimmed_self hspace), ← String.toList_inj,
      String.toList_ofList, lowercase_eq_name_iff, ← Lexer.byteLength_toList]
    exact ⟨items_of_namesRegister, namesRegister_of_items⟩
  · intro name
    exact ⟨_, Text.trimmed_trim name.toList⟩
  · intro name other core core' h h' hsame
    rw [parseRegister, parseRegister, hnormal name core h, hnormal other core' h', hsame]
  · intro name core e h herror
    rw [parseRegister_eq_error herror, hnormal name core h]

/-- A capital alone is found in both ways. White space around it is passed over, also such as no
source may hold, and a name that fails is reported without it. -/
theorem parseRegister_agrees_with_items_spaced :
    (parseRegister "R7" = .ok 7 ∧
      Lexer.items "R7".toList = [⟨.token (.register 7), 0, "R7".utf8ByteSize⟩]) ∧
    parseRegister "\u2003R7\n" = parseRegister "r7" ∧
    parseRegister " R8\t" = .error (.invalidRegister 0 "r8") := by
  obtain ⟨hagree, -, hsame, hfail⟩ := parseRegister_agrees_with_items
  have hseven : parseRegister "R7" = .ok 7 := by decide +kernel
  have hspace : ∀ c ∈ "R7".toList, Text.isSpace c = false :=
    List.forall_mem_cons.mpr ⟨by decide, List.forall_mem_singleton.mpr (by decide)⟩
  refine ⟨⟨hseven, (hagree "R7" 7 hspace).mp hseven⟩, ?_, ?_⟩
  · exact hsame _ _ _ _ (Text.trimmed_trim _) (Text.trimmed_trim _) (by decide +kernel)
  · cases hrefused : parseRegister " R8\t" with
    | ok r => exact absurd hrefused (by revert r; decide +kernel)
    | error e =>
      have hname : String.ofList (Text.lowercase (Text.trim " R8\t".toList)) = "r8" := by
        decide +kernel
      rw [hfail _ _ e (Text.trimmed_trim _) hrefused, hname]

end Named

end Assembly

end UniversalMachine
