import UniversalMachine.Proofs.Reading
import Mathlib.Data.List.Forall2

/-! The grammar of a line. A line is a run of labels and then nothing, an instruction or a datum.
The grammar is given by what can be written: a line is accepted exactly when its tokens are those of
some reading, and then it has the labels and the statement of that reading, of which there is only
one. -/

namespace UniversalMachine.Assembly

/-- The operand that a token stands for. -/
inductive Token.Denotes : Token → Operand → Prop where
  | register (r : Register) : Denotes (.register r) (.register r)
  | number (value : Int) : Denotes (.number value) (.datum (.immediate value))
  | hex {value : Nat} : (value : Int) ≤ Lexer.signedMax →
      Denotes (.hex value) (.datum (.immediate value))
  | binary {value : Nat} : (value : Int) ≤ Lexer.signedMax →
      Denotes (.binary value) (.datum (.immediate value))
  | char (value : Char) : Denotes (.char value) (.datum (.immediate value.toNat))
  | identifier (name : String) : Denotes (.identifier name) (.datum (.label name))

/-- What a line holds behind its labels. -/
inductive Body where
  | blank
  | instruction (name : String) (operands : List Token)
  | data (directive : String) (operand : Token)
  deriving DecidableEq, Repr

@[ext] structure Reading where
  labels : List String
  body : Body
  deriving DecidableEq, Repr

def labelTokens (labels : List String) : List Token :=
  labels.flatMap fun name => [.identifier name, .colon]

def Body.tokens : Body → List Token
  | blank => []
  | instruction name operands => .identifier name :: operands.intersperse .comma
  | data directive operand => [.directive directive, operand]

def Reading.tokens (r : Reading) : List Token := labelTokens r.labels ++ r.body.tokens

/-- The statement of a body whose operands all stand for something. -/
inductive Body.Means : Body → Option Statement → Prop where
  | blank : Means .blank none
  | instruction (name : String) {operands : List Token} {os : List Operand} :
      List.Forall₂ Token.Denotes operands os →
      Means (.instruction name operands)
        (some (.instruction (String.ofList (name.toList.map Char.toLower)) os))
  | data {directive : String} {operand : Token} {d : Datum} :
      directive.toList.map Char.toLower = ['w', 'o', 'r', 'd'] →
      operand.Denotes (.datum d) → Means (.data directive operand) (some (.word d))

/-- The lexemes of a text in front of its first line end. -/
def firstLine (text : List Char) : List Lexeme :=
  (Lexer.lexemes text).takeWhile (· != .token .newline)

section Operands

theorem denotes_iff {t : Token} {o : Operand} : t.Denotes o ↔ Operand.ofToken? t = some o := by
  constructor
  · intro h
    cases h with
    | hex hv | binary hv => simp [Operand.ofToken?, hv]
    | _ => rfl
  · intro h
    cases t with
    | hex value | binary value =>
      by_cases hv : (value : Int) ≤ Lexer.signedMax
      · simp only [Operand.ofToken?, hv, if_true, Option.some.injEq] at h
        subst h
        constructor
        exact hv
      · simp [Operand.ofToken?, hv] at h
    | directive name => cases h
    | comma | colon | newline => cases h
    | _ =>
      cases h
      constructor

theorem Token.Denotes.unique {t : Token} {o o' : Operand} (h : t.Denotes o) (h' : t.Denotes o') :
    o = o' :=
  Option.some.inj ((denotes_iff.mp h).symm.trans (denotes_iff.mp h'))

theorem forall₂_denotes_iff {ts : List Token} {os : List Operand} :
    List.Forall₂ Token.Denotes ts os ↔ ts.map Operand.ofToken? = os.map some := by
  rw [← List.forall₂_eq_eq_eq, List.forall₂_map_left_iff, List.forall₂_map_right_iff]
  constructor
  · intro h
    exact h.imp fun t o => denotes_iff.mp
  · intro h
    exact h.imp fun t o => denotes_iff.mpr

/-- A token that stands for an operand cannot be mistaken for what separates tokens. -/
theorem Token.Denotes.ne {t : Token} {o : Operand} (h : t.Denotes o) :
    t ≠ .comma ∧ t ≠ .colon := by
  cases h <;> exact ⟨Token.noConfusion, Token.noConfusion⟩

theorem Line.operands_eq_ok_iff {number : Nat} {placed : List Placed} {os : List Operand} :
    operands number placed = .ok os ↔
      ∃ ts, placed.map Placed.token = ts.intersperse .comma ∧ List.Forall₂ Token.Denotes ts os := by
  constructor
  · intro h
    rw [operands_eq_separated] at h
    fun_induction separated number placed generalizing os with
    | case1 =>
      cases h
      exact ⟨[], rfl, .nil⟩
    | case2 p =>
      obtain ⟨o, ho, h⟩ := bind_eq_ok_iff.mp h
      cases h
      exact ⟨[p.token], rfl, .cons (denotes_iff.mpr (operand_eq_ok_iff.mp ho)) .nil⟩
    | case3 p q rest ih =>
      obtain ⟨o, ho, h⟩ := bind_eq_ok_iff.mp h
      split at h
      · cases h
      · rename_i hcomma
        split at h
        · cases h
        · rename_i hmore
          obtain ⟨behind, hbehind, h⟩ := bind_eq_ok_iff.mp h
          cases h
          obtain ⟨ts, htokens, hts⟩ := ih hbehind
          refine ⟨p.token :: ts, ?_, .cons (denotes_iff.mpr (operand_eq_ok_iff.mp ho)) hts⟩
          cases ts with
          | nil =>
            rw [List.intersperse_nil, List.map_eq_nil_iff] at htokens
            exact absurd (List.isEmpty_iff.mpr htokens) hmore
          | cons t ts =>
            rw [List.map_cons, List.map_cons, htokens, not_not.mp hcomma,
              List.intersperse_cons_cons]
  · rintro ⟨ts, htokens, hts⟩
    exact operands_of_tokens number htokens (forall₂_denotes_iff.mp hts)

end Operands

section Labels

/-- A name and a colon come first. -/
def StartsWithLabel (ts : List Token) : Prop := ∃ name rest, ts = .identifier name :: .colon :: rest

theorem labelTokens_cons (name : String) (labels : List String) (ts : List Token) :
    labelTokens (name :: labels) ++ ts = .identifier name :: .colon :: (labelTokens labels ++ ts) :=
  rfl

/-- Labels end where no further label follows. -/
theorem labelTokens_append_inj {labels labels' : List String} {ts ts' : List Token}
    (h : labelTokens labels ++ ts = labelTokens labels' ++ ts') (hts : ¬ StartsWithLabel ts)
    (hts' : ¬ StartsWithLabel ts') : labels = labels' ∧ ts = ts' := by
  induction labels generalizing labels' with
  | nil =>
    cases labels' with
    | nil => exact ⟨rfl, h⟩
    | cons name' labels' =>
      rw [labelTokens_cons] at h
      exact absurd ⟨name', _, h⟩ hts
  | cons name labels ih =>
    cases labels' with
    | nil =>
      rw [labelTokens_cons] at h
      exact absurd ⟨name, _, h.symm⟩ hts'
    | cons name' labels' =>
      rw [labelTokens_cons, labelTokens_cons] at h
      injection h with hname h
      injection hname with hname
      injection h with _ h
      obtain ⟨rfl, rfl⟩ := ih h
      exact ⟨by rw [hname], rfl⟩

theorem Line.splitLabels_tokens (placed : List Placed) :
    placed.map Placed.token =
        labelTokens (splitLabels placed).1 ++ (splitLabels placed).2.map Placed.token ∧
      ¬ StartsWithLabel ((splitLabels placed).2.map Placed.token) := by
  fun_induction splitLabels placed with
  | case1 =>
    refine ⟨rfl, ?_⟩
    rintro ⟨name, rest, h⟩
    cases h
  | case2 p =>
    refine ⟨rfl, ?_⟩
    rintro ⟨name, rest, h⟩
    injection h with _ h
    cases h
  | case3 p q rest name hname hcolon ih =>
    refine ⟨?_, ih.2⟩
    rw [List.map_cons, List.map_cons, hname, hcolon, ih.1, labelTokens_cons]
  | case4 p q rest hnone =>
    refine ⟨rfl, ?_⟩
    rintro ⟨name, tail, h⟩
    injection h with hname h
    injection h with hcolon _
    exact hnone name hname hcolon

theorem Line.splitLabels_eq {placed : List Placed} {labels : List String} {ts : List Token}
    (h : placed.map Placed.token = labelTokens labels ++ ts) (hts : ¬ StartsWithLabel ts) :
    (splitLabels placed).1 = labels ∧ (splitLabels placed).2.map Placed.token = ts := by
  obtain ⟨htokens, hend⟩ := splitLabels_tokens placed
  exact labelTokens_append_inj (htokens.symm.trans h) hend hts

end Labels

section Bodies

theorem intersperse_inj {c : Token} {ts ts' : List Token}
    (h : ts.intersperse c = ts'.intersperse c) : ts = ts' := by
  induction ts generalizing ts' with
  | nil =>
    cases ts' with
    | nil => rfl
    | cons t' ts' => cases ts' <;> cases h
  | cons t ts ih =>
    cases ts' with
    | nil => cases ts <;> cases h
    | cons t' ts' =>
      cases ts with
      | nil =>
        cases ts' with
        | nil => exact h
        | cons u' ts' => cases h
      | cons u ts =>
        cases ts' with
        | nil => cases h
        | cons u' ts' =>
          rw [List.intersperse_cons_cons, List.intersperse_cons_cons] at h
          injection h with ht h
          injection h with _ h
          rw [ht, ih h]

/-- The tokens of a body are never taken for a label. -/
theorem Body.Means.not_startsWithLabel {b : Body} {s : Option Statement} (h : b.Means s) :
    ¬ StartsWithLabel b.tokens := by
  rintro ⟨name, rest, htokens⟩
  cases h with
  | blank => cases htokens
  | @instruction name' operands os hos =>
    injection htokens with _ htokens
    cases hos with
    | nil => cases htokens
    | cons ho hrest =>
      cases hrest <;>
      · injection htokens with hcolon _
        exact ho.ne.2 hcolon
  | data hname ho =>
    injection htokens with hname' _
    cases hname'

theorem Body.Means.unique {b : Body} {s s' : Option Statement} (h : b.Means s) (h' : b.Means s') :
    s = s' := by
  cases h with
  | blank =>
    cases h'
    rfl
  | instruction name hos =>
    cases h' with
    | instruction _ hos' =>
      rw [forall₂_denotes_iff] at hos hos'
      have hsame := hos.symm.trans hos'
      rw [(List.map_inj_right fun _ _ => Option.some.inj).mp hsame]
  | data hname ho =>
    cases h' with
    | data _ ho' =>
      injection ho.unique ho' with hd
      rw [hd]

theorem Body.tokens_inj {b b' : Body} {s s' : Option Statement} (h : b.tokens = b'.tokens)
    (hs : b.Means s) (hs' : b'.Means s') : b = b' := by
  cases hs with
  | blank =>
    cases hs' with
    | blank => rfl
    | instruction name' hos' => cases h
    | data hname' ho' => cases h
  | instruction name hos =>
    cases hs' with
    | blank => cases h
    | instruction name' hos' =>
      injection h with hname htokens
      injection hname with hname
      rw [hname, intersperse_inj htokens]
    | data hname' ho' => cases h
  | data hname ho =>
    cases hs' with
    | blank => cases h
    | instruction name' hos' => cases h
    | data hname' ho' =>
      cases h
      rfl

theorem Reading.tokens_inj {r r' : Reading} {s s' : Option Statement} (h : r.tokens = r'.tokens)
    (hs : r.body.Means s) (hs' : r'.body.Means s') : r = r' := by
  obtain ⟨hlabels, hbody⟩ :=
    labelTokens_append_inj h hs.not_startsWithLabel hs'.not_startsWithLabel
  exact Reading.ext hlabels (Body.tokens_inj hbody hs hs')

end Bodies

namespace Line

theorem sameName_word_iff {name : String} :
    sameName name "word" = true ↔ name.toList.map Char.toLower = ['w', 'o', 'r', 'd'] := by
  rw [sameName, beq_iff_eq]
  rfl

theorem means_of_statementOf {number : Nat} {head : Placed} {rest : List Placed}
    {os : List Operand} {s : Statement} (hos : operands number rest = .ok os)
    (hs : statementOf number head os = .ok s) :
    ∃ b : Body, (head :: rest).map Placed.token = b.tokens ∧ b.Means (some s) := by
  obtain ⟨ts, htokens, hts⟩ := operands_eq_ok_iff.mp hos
  rw [List.map_cons, htokens]
  unfold statementOf at hs
  split at hs
  · rename_i name hname
    cases hs
    exact ⟨.instruction name ts, by rw [hname]; rfl, .instruction name hts⟩
  · rename_i name hname
    split at hs
    · rename_i hword
      split at hs
      · rename_i d
        cases hs
        cases hts with
        | cons ho hrest =>
          cases hrest
          exact ⟨.data name _, by rw [hname]; rfl, .data (sameName_word_iff.mp hword) ho⟩
      · cases hs
      · cases hs
    · cases hs
  · cases hs

theorem statementOf_of_means (number : Nat) {head : Placed} {rest : List Placed} {b : Body}
    {s : Option Statement} (htokens : (head :: rest).map Placed.token = b.tokens)
    (h : b.Means s) :
    ∃ os found, operands number rest = .ok os ∧ statementOf number head os = .ok found ∧
      s = some found := by
  cases h with
  | blank => cases htokens
  | instruction name hos =>
    injection htokens with hhead hrest
    refine ⟨_, _, operands_eq_ok_iff.mpr ⟨_, hrest, hos⟩, ?_, rfl⟩
    simp only [statementOf, hhead]
  | @data directive operand d hname ho =>
    injection htokens with hhead hrest
    refine ⟨[.datum d], _, operands_eq_ok_iff.mpr ⟨[operand], hrest, .cons ho .nil⟩, ?_, rfl⟩
    simp only [statementOf, hhead, sameName_word_iff.mpr hname, if_true]

theorem reading_of_ofTokens {number : Nat} {placed : List Placed} {line : Line}
    (h : ofTokens number placed = .ok line) : line.number = number ∧
      ∃ r : Reading, placed.map Placed.token = r.tokens ∧ r.labels = line.labels ∧
        r.body.Means line.statement := by
  have hsplit := (splitLabels_tokens placed).1
  unfold ofTokens at h
  split at h
  · rename_i labels hlabels
    cases h
    rw [hlabels] at hsplit
    exact ⟨rfl, ⟨labels, .blank⟩, hsplit, rfl, .blank⟩
  · rename_i labels head rest hlabels
    obtain ⟨os, hos, h⟩ := bind_eq_ok_iff.mp h
    obtain ⟨s, hs, h⟩ := bind_eq_ok_iff.mp h
    cases h
    obtain ⟨b, hb, hmeans⟩ := means_of_statementOf hos hs
    rw [hlabels, hb] at hsplit
    exact ⟨rfl, ⟨labels, b⟩, hsplit, rfl, hmeans⟩

theorem ofTokens_of_reading (number : Nat) {placed : List Placed} {r : Reading}
    {s : Option Statement} (h : placed.map Placed.token = r.tokens) (hmeans : r.body.Means s) :
    ofTokens number placed = .ok ⟨number, r.labels, s⟩ := by
  obtain ⟨labels, b⟩ := r
  obtain ⟨hlabels, hrest⟩ := splitLabels_eq h hmeans.not_startsWithLabel
  unfold ofTokens
  split
  · rename_i found hsplit
    rw [hsplit] at hlabels hrest
    subst hlabels
    cases hmeans with
    | blank => rfl
    | instruction name hos => cases hrest
    | data hname ho => cases hrest
  · rename_i found head rest hsplit
    rw [hsplit] at hlabels hrest
    subst hlabels
    obtain ⟨os, t, hos, ht, rfl⟩ := statementOf_of_means number hrest hmeans
    rw [hos, ok_bind, ht]
    rfl

theorem tokens_eq_ok {number : Nat} {found : List Item} {placed : List Placed}
    (h : tokens number found = .ok placed) :
    (found.map Item.lexeme).takeWhile (· != .token .newline) =
      (placed.map Placed.token).map .token := by
  induction found generalizing placed with
  | nil =>
    cases h
    rfl
  | cons item rest ih =>
    rw [List.map_cons, List.takeWhile_cons]
    unfold tokens at h
    split at h
    · cases h
    · rename_i hnewline
      cases h
      rw [hnewline]
      rfl
    · rename_i t ht hitem
      obtain ⟨behind, hbehind, h⟩ := bind_eq_ok_iff.mp h
      cases h
      have hkeep : item.lexeme ≠ .token .newline := by
        rw [hitem]
        intro he
        exact ht (Lexeme.token.inj he)
      rw [if_pos (bne_iff_ne.mpr hkeep), hitem, ih hbehind]
      rfl

theorem parse_eq_ok_iff {number : Nat} {text : List Char} {line : Line} :
    parse number text = .ok line ↔ line.number = number ∧
      ∃ r : Reading, firstLine text = r.tokens.map .token ∧ r.labels = line.labels ∧
        r.body.Means line.statement := by
  constructor
  · intro h
    obtain ⟨placed, hplaced, h⟩ := bind_eq_ok_iff.mp h
    obtain ⟨hnumber, r, htokens, hlabels, hmeans⟩ := reading_of_ofTokens h
    refine ⟨hnumber, r, ?_, hlabels, hmeans⟩
    rw [← htokens]
    exact tokens_eq_ok hplaced
  · obtain ⟨found, labels, s⟩ := line
    rintro ⟨rfl, r, htext, rfl, hmeans⟩
    obtain ⟨placed, hplaced, htokens⟩ := exists_tokens_eq_ok found htext
    rw [parse, hplaced, ok_bind]
    exact ofTokens_of_reading found htokens hmeans

/-- A line is accepted exactly when the tokens in front of its first line end are those of a
reading, with nothing else than tokens among them. It has the given number, the labels of the
reading and the statement that its body means, and the tokens allow no other reading. -/
theorem parse_grammar (number : Nat) (text : List Char) :
    ((∃ line, parse number text = .ok line) ↔
      ∃ (r : Reading) (s : Option Statement),
        firstLine text = r.tokens.map .token ∧ r.body.Means s) ∧
    (∀ line, parse number text = .ok line ↔ line.number = number ∧
      ∃ r : Reading, firstLine text = r.tokens.map .token ∧ r.labels = line.labels ∧
        r.body.Means line.statement) ∧
    ∀ (r r' : Reading) (s s' : Option Statement), r.tokens = r'.tokens → r.body.Means s →
      r'.body.Means s' → r = r' ∧ s = s' := by
  refine ⟨?_, ?_, ?_⟩
  · constructor
    · rintro ⟨line, h⟩
      obtain ⟨-, r, htext, -, hmeans⟩ := parse_eq_ok_iff.mp h
      exact ⟨r, line.statement, htext, hmeans⟩
    · rintro ⟨r, s, htext, hmeans⟩
      exact ⟨⟨number, r.labels, s⟩, parse_eq_ok_iff.mpr ⟨rfl, r, htext, rfl, hmeans⟩⟩
  · intro line
    exact parse_eq_ok_iff
  · intro r r' s s' htokens hs hs'
    obtain rfl := Reading.tokens_inj htokens hs hs'
    exact ⟨rfl, hs.unique hs'⟩

end Line

end UniversalMachine.Assembly
