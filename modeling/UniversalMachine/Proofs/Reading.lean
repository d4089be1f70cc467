import UniversalMachine.Assembly.Line
import UniversalMachine.Proofs.Lexing

/-! From lexemes to lines.
How a line is read depends on its tokens alone; their places only enter the errors. -/

namespace UniversalMachine.Assembly

section Outcomes

variable {ε α β : Type}

theorem bind_eq_ok_iff {x : Except ε α} {f : α → Except ε β} {b : β} :
    x >>= f = .ok b ↔ ∃ a, x = .ok a ∧ f a = .ok b := by
  cases x with
  | error e => simp [bind, Except.bind]
  | ok a => simp [bind, Except.bind]

theorem bind_eq_error_iff {x : Except ε α} {f : α → Except ε β} {e : ε} :
    x >>= f = .error e ↔ x = .error e ∨ ∃ a, x = .ok a ∧ f a = .error e := by
  cases x with
  | error e' => simp [bind, Except.bind]
  | ok a => simp [bind, Except.bind]

@[simp] theorem ok_bind (a : α) (f : α → Except ε β) : (Except.ok a >>= f) = f a := rfl

@[simp] theorem pure_eq_ok (a : α) : (pure a : Except ε α) = .ok a := rfl

theorem eq_ok_of_toOption {x : Except ε α} {a : α} (h : x.toOption = some a) : x = .ok a := by
  cases x with
  | error e => cases h
  | ok b => rw [Option.some.inj h]

/-- Whatever error the outcome is, it has this property. -/
def FailsWith (P : ε → Prop) (x : Except ε α) : Prop := ∀ e, x = .error e → P e

variable {P Q : ε → Prop}

theorem failsWith_ok (P : ε → Prop) (a : α) : FailsWith P (.ok a) := nofun

theorem failsWith_error {e : ε} (h : P e) : FailsWith P (.error e : Except ε α) := by
  intro e' he
  cases he
  exact h

theorem FailsWith.bind {x : Except ε α} {f : α → Except ε β} (hx : FailsWith P x)
    (hf : ∀ a, FailsWith P (f a)) : FailsWith P (x >>= f) := by
  cases x with
  | error e => exact failsWith_error (hx e rfl)
  | ok a => exact hf a

theorem FailsWith.mono {x : Except ε α} (h : FailsWith P x) (hPQ : ∀ e, P e → Q e) :
    FailsWith Q x :=
  fun e he => hPQ e (h e he)

end Outcomes

theorem lookup_cons_eq_ite {α β : Type} [BEq α] [LawfulBEq α] [DecidableEq α] (first : α)
    (value : β) (entries : List (α × β)) (key : α) :
    List.lookup key ((first, value) :: entries) =
      if key = first then some value else entries.lookup key := by
  rw [List.lookup_cons]
  by_cases hkey : key = first
  · rw [if_pos hkey, beq_iff_eq.mpr hkey]
  · rw [if_neg hkey, beq_false_of_ne hkey]

/-- The operand that a token stands for. -/
def Operand.ofToken? : Token → Option Operand
  | .register r => some (.register r)
  | .number value => some (.datum (.immediate value))
  | .hex value | .binary value =>
    if (value : Int) ≤ Lexer.signedMax then some (.datum (.immediate value)) else none
  | .char value => some (.datum (.immediate value.toNat))
  | .identifier name => some (.datum (.label name))
  | .directive _ | .comma | .colon | .newline => none

namespace Line

theorem operand_eq_ok_iff {number : Nat} {p : Placed} {o : Operand} :
    operand number p = .ok o ↔ Operand.ofToken? p.token = some o := by
  cases ht : p.token with
  | hex value | binary value =>
    by_cases hv : (value : Int) ≤ Lexer.signedMax
    · simp [operand, Operand.ofToken?, ht, hv]
    · simp [operand, Operand.ofToken?, ht, hv]
  | _ => simp [operand, Operand.ofToken?, ht]

/-- Tokens in front of the first line end are all taken, each with some column. -/
theorem exists_tokens_eq_ok (number : Nat) {found : List Item} {ts : List Token}
    (h : (found.map Item.lexeme).takeWhile (· != .token .newline) = ts.map .token) :
    ∃ placed, tokens number found = .ok placed ∧ placed.map Placed.token = ts := by
  induction found generalizing ts with
  | nil =>
    obtain rfl := List.map_eq_nil_iff.mp h.symm
    exact ⟨[], rfl, rfl⟩
  | cons item rest ih =>
    rw [List.map_cons, List.takeWhile_cons] at h
    by_cases hnewline : item.lexeme = .token .newline
    · rw [hnewline] at h
      obtain rfl := List.map_eq_nil_iff.mp h.symm
      refine ⟨[], ?_, rfl⟩
      simp only [tokens, hnewline]
    · rw [if_pos (bne_iff_ne.mpr hnewline)] at h
      obtain ⟨t, ts, rfl, ht, hts⟩ := List.map_eq_cons_iff.mp h.symm
      obtain ⟨placed, hplaced, rfl⟩ := ih hts.symm
      refine ⟨⟨t, item.start + 1⟩ :: placed, ?_, rfl⟩
      unfold tokens
      split
      · rename_i hinvalid
        cases ht.trans hinvalid
      · rename_i hend
        exact absurd hend hnewline
      · rename_i u _ hitem
        cases ht.trans hitem
        rw [hplaced]
        rfl

theorem tokens_of_lexemes (number : Nat) {found : List Item} {ts : List Token}
    (h : found.map Item.lexeme = ts.map .token) (hn : .newline ∉ ts) :
    ∃ placed, tokens number found = .ok placed ∧ placed.map Placed.token = ts := by
  apply exists_tokens_eq_ok
  rw [h, List.takeWhile_eq_self_iff]
  intro l hl
  obtain ⟨t, ht, rfl⟩ := List.mem_map.mp hl
  rw [bne_iff_ne]
  rintro ⟨⟩
  exact hn ht

section Operands

/-- Operands between commas, each read with the comma behind it. -/
def separated (number : Nat) : List Placed → Except Error (List Operand)
  | [] => .ok []
  | [p] => do
    let o ← operand number p
    return [o]
  | p :: q :: rest => do
    let o ← operand number p
    if q.token ≠ .comma then .error (.malformed number q.column .expectedComma)
    else if rest.isEmpty then .error (.malformed number q.column .trailingComma)
    else
      let behind ← separated number rest
      return o :: behind

/-- The operands found first stay in front of those that are read behind them. -/
theorem operandsFrom_eq_separated (number : Nat) (found : List Operand) {placed : List Placed}
    (hne : placed ≠ []) :
    (operandsFrom number found true placed >>= fun r =>
      if r.2 && !r.1.isEmpty then .error (.malformed number (lastColumn placed) .trailingComma)
      else .ok r.1) = (separated number placed).map (found ++ ·) := by
  fun_induction separated number placed generalizing found with
  | case1 => exact absurd rfl hne
  | case2 p =>
    rw [operandsFrom]
    cases operand number p with
    | error e => rfl
    | ok o => rfl
  | case3 p q rest ih =>
    rw [operandsFrom]
    cases operand number p with
    | error e => rfl
    | ok o =>
      rw [ok_bind, ok_bind, operandsFrom]
      split
      · rfl
      · cases rest with
        | nil => simp [operandsFrom, lastColumn, Except.map]
        | cons p' rest =>
          -- the last token of the rest is the last of all
          have hlast : lastColumn (p :: q :: p' :: rest) = lastColumn (p' :: rest) := by
            rw [lastColumn, List.getLast?_cons_cons, List.getLast?_cons_cons, lastColumn]
          rw [hlast, ih (found ++ [o]) (List.cons_ne_nil p' rest)]
          cases separated number (p' :: rest) with
          | error e => rfl
          | ok behind => exact congrArg Except.ok (List.append_assoc found [o] behind)

theorem operands_eq_separated (number : Nat) (placed : List Placed) :
    operands number placed = separated number placed := by
  cases placed with
  | nil => rfl
  | cons p rest =>
    refine (operandsFrom_eq_separated number [] (List.cons_ne_nil p rest)).trans ?_
    cases separated number (p :: rest) with
    | error e => rfl
    | ok os => rfl

end Operands

theorem operands_of_tokens (number : Nat) {placed : List Placed} {ts : List Token}
    {os : List Operand} (h : placed.map Placed.token = ts.intersperse .comma)
    (ho : ts.map Operand.ofToken? = os.map some) : operands number placed = .ok os := by
  rw [operands_eq_separated]
  induction ts generalizing placed os with
  | nil =>
    rw [List.intersperse_nil, List.map_eq_nil_iff] at h
    rw [List.map_nil, eq_comm, List.map_eq_nil_iff] at ho
    subst h ho
    rfl
  | cons t ts ih =>
    obtain ⟨o, os, rfl, ht, hts⟩ := List.map_eq_cons_iff.mp ho.symm
    cases ts with
    | nil =>
      rw [List.map_nil, List.map_eq_nil_iff] at hts
      subst hts
      obtain ⟨p, rest, rfl, hp, hrest⟩ := List.map_eq_cons_iff.mp h
      rw [List.map_eq_nil_iff] at hrest
      subst hrest
      have hop : operand number p = .ok o := operand_eq_ok_iff.mpr (hp ▸ ht.symm)
      simp [separated, hop]
    | cons u us =>
      rw [List.intersperse_cons_cons] at h
      obtain ⟨p, rest, rfl, hp, hrest⟩ := List.map_eq_cons_iff.mp h
      obtain ⟨q, tail, rfl, hq, htail⟩ := List.map_eq_cons_iff.mp hrest
      have hop : operand number p = .ok o := operand_eq_ok_iff.mpr (hp ▸ ht.symm)
      have hne : tail ≠ [] := by
        rintro rfl
        cases us <;> cases htail
      simp [separated, hop, hq, hne, ih htail hts.symm]

theorem mem_intersperse {t c : Token} {ts : List Token} (h : t ∈ ts.intersperse c) :
    t = c ∨ t ∈ ts := by
  induction ts with
  | nil => cases h
  | cons u us ih =>
    cases us with
    | nil => exact Or.inr h
    | cons v vs =>
      rw [List.intersperse_cons_cons, List.mem_cons, List.mem_cons] at h
      rcases h with rfl | rfl | h
      · exact Or.inr List.mem_cons_self
      · exact Or.inl rfl
      · exact (ih h).imp_right (List.mem_cons_of_mem u)

/-- What no colon follows is no label. -/
theorem splitLabels_cons {p : Placed} {rest : List Placed}
    (h : .colon ∉ (rest.map Placed.token).head?) : splitLabels (p :: rest) = ([], p :: rest) := by
  cases rest with
  | nil => rfl
  | cons q rest =>
    rw [splitLabels]
    split
    · rename_i hcolon
      exact absurd (congrArg some hcolon) h
    · rfl

/-- A head that is no label and operands between commas make a statement without labels. -/
theorem parse_of_lexemes {number : Nat} {text : List Char} {head : Token} {ts : List Token}
    {os : List Operand} {s : Statement}
    (h : Lexer.lexemes text = (head :: ts.intersperse .comma).map .token)
    (ho : ts.map Operand.ofToken? = os.map some)
    (hs : ∀ column, statementOf number ⟨head, column⟩ os = .ok s) :
    parse number text = .ok ⟨number, [], some s⟩ := by
  have operand_or_comma : ∀ t ∈ ts.intersperse .comma,
      t = .comma ∨ ∃ o, Operand.ofToken? t = some o := by
    intro t ht
    refine (mem_intersperse ht).imp_right fun hm => ?_
    have hsome := List.mem_map_of_mem (f := Operand.ofToken?) hm
    rw [ho] at hsome
    obtain ⟨o, -, e⟩ := List.mem_map.mp hsome
    exact ⟨o, e.symm⟩
  have hnewline : .newline ∉ head :: ts.intersperse .comma := by
    intro hm
    rcases List.mem_cons.mp hm with rfl | hm
    · cases hs 0
    · rcases operand_or_comma _ hm with e | ⟨o, e⟩ <;> cases e
  obtain ⟨placed, hplaced, hmap⟩ := tokens_of_lexemes number h hnewline
  obtain ⟨p, rest, rfl, rfl, hrest⟩ := List.map_eq_cons_iff.mp hmap
  have hsplit : splitLabels (p :: rest) = ([], p :: rest) := by
    apply splitLabels_cons
    rw [hrest]
    intro hcolon
    rcases operand_or_comma _ (List.mem_of_mem_head? hcolon) with e | ⟨o, e⟩ <;> cases e
  have hops := operands_of_tokens number hrest ho
  rw [parse, hplaced, ok_bind, ofTokens, hsplit]
  simp [hops, hs p.column]

section Refusals

/-! Lines that are refused for their last word: one that is no token, or one that is no operand. -/

theorem tokens_of_invalid (number : Nat) {found : List Item} {ts : List Token} {piece : String}
    (h : found.map Item.lexeme = ts.map .token ++ [.invalid piece]) (hn : .newline ∉ ts) :
    ∃ column, tokens number found = .error (.malformed number column (.unexpectedInput piece)) := by
  induction ts generalizing found with
  | nil =>
    obtain ⟨item, rest, rfl, hitem, -⟩ := List.map_eq_cons_iff.mp h
    refine ⟨item.start + 1, ?_⟩
    simp only [tokens, hitem]
  | cons t ts ih =>
    obtain ⟨item, rest, rfl, hitem, hrest⟩ := List.map_eq_cons_iff.mp h
    obtain ⟨column, herror⟩ := ih hrest fun hm => hn (List.mem_cons_of_mem t hm)
    refine ⟨column, ?_⟩
    unfold tokens
    split
    · rename_i hinvalid
      cases hitem.symm.trans hinvalid
    · rename_i hend
      cases hitem.symm.trans hend
      exact absurd List.mem_cons_self hn
    · rw [herror]
      rfl

theorem operand_of_unreadable (number : Nat) {p : Placed} (h : Operand.ofToken? p.token = none) :
    ∃ defect, operand number p = .error (.malformed number p.column defect) := by
  cases ht : p.token with
  | hex value | binary value =>
    have hlarge : ¬ (value : Int) ≤ Lexer.signedMax := by
      intro hle
      simp [Operand.ofToken?, ht, hle] at h
    exact ⟨.numberTooLarge, by simp [operand, ht, hlarge]⟩
  | register r | number value | char value | identifier name =>
    rw [ht] at h
    cases h
  | directive name | comma | colon | newline =>
    exact ⟨.expectedOperand p.token, by simp [operand, ht]⟩

theorem operands_of_unreadable (number : Nat) {placed : List Placed} {ts : List Token} {t : Token}
    (h : placed.map Placed.token = (ts ++ [t]).intersperse .comma)
    (hts : ∀ u ∈ ts, Operand.ofToken? u ≠ none) (ht : Operand.ofToken? t = none) :
    ∃ column defect, operands number placed = .error (.malformed number column defect) := by
  rw [operands_eq_separated]
  induction ts generalizing placed with
  | nil =>
    obtain ⟨p, rest, rfl, rfl, hrest⟩ := List.map_eq_cons_iff.mp h
    obtain rfl := List.map_eq_nil_iff.mp hrest
    obtain ⟨defect, herror⟩ := operand_of_unreadable number ht
    refine ⟨p.column, defect, ?_⟩
    rw [separated, herror]
    rfl
  | cons u us ih =>
    obtain ⟨hu, hus⟩ := List.forall_mem_cons.mp hts
    obtain ⟨o, ho⟩ := Option.ne_none_iff_exists'.mp hu
    have hcons : (u :: us ++ [t]).intersperse .comma =
        u :: .comma :: (us ++ [t]).intersperse .comma := by
      cases us <;> rfl
    rw [hcons] at h
    obtain ⟨p, rest, rfl, rfl, hrest⟩ := List.map_eq_cons_iff.mp h
    obtain ⟨q, tail, rfl, hq, htail⟩ := List.map_eq_cons_iff.mp hrest
    obtain ⟨column, defect, herror⟩ := ih htail hus
    have htail_ne : tail ≠ [] := by
      rintro rfl
      cases herror
    refine ⟨column, defect, ?_⟩
    simp only [separated, operand_eq_ok_iff.mpr ho, ok_bind, hq, ne_eq, not_true_eq_false, if_false,
      List.isEmpty_iff, htail_ne, herror]
    rfl

end Refusals

end Line

end UniversalMachine.Assembly
