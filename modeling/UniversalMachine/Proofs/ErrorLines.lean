import UniversalMachine.Proofs.Concatenation
import UniversalMachine.Proofs.Refusals
import Mathlib.Data.List.Induction

/-! Errors name the first line that is wrong.
The first pass stops at the first line that it cannot take, and the second at the first statement
that has no word under the complete table of labels. Each error carries the number of its line. -/

namespace UniversalMachine.Assembly

/-- The statement on a line of text, if the line can be read and has one. -/
def statement? (text : List Char) : Option Statement :=
  (Line.parse 1 text).toOption.bind Line.statement

/-- The statement on line `k + 1` of a source. -/
def statementOn? (source : String) (k : Nat) : Option Statement :=
  (Text.lines source.toList)[k]?.bind statement?

/-- The source that the first `k` lines make. -/
def firstLines (k : Nat) (source : String) : String :=
  String.ofList (Text.firstLines k source.toList)

/-- Whatever error the outcome is, it names this line. -/
def NamesLine {α : Type} (number : Nat) (x : Except Error α) : Prop :=
  ∀ e, x = .error e → e.line? = some number

section Names

variable {α β : Type} {number : Nat}

theorem namesLine_ok (a : α) : NamesLine number (.ok a) := failsWith_ok _ a

theorem namesLine_error {e : Error} (h : e.line? = some number) :
    NamesLine number (.error e : Except Error α) :=
  failsWith_error h

theorem NamesLine.bind {x : Except Error α} {f : α → Except Error β} (hx : NamesLine number x)
    (hf : ∀ a, NamesLine number (f a)) : NamesLine number (x >>= f) :=
  FailsWith.bind hx hf

theorem parse_namesLine (number : Nat) (text : List Char) :
    NamesLine number (Line.parse number text) := by
  intro e he
  cases Line.parse_failsWith number text e he <;> rfl

/-- Only a label beyond the range of words gives an error without a line. -/
theorem define_namesLine {offset : Nat} (hoffset : offset < UInt32.size) (names : List String)
    (symbols : SymbolTable) :
    NamesLine number (SymbolTable.define number offset names symbols) := by
  induction names generalizing symbols with
  | nil => exact namesLine_ok symbols
  | cons name rest ih =>
    rw [SymbolTable.define, if_neg (Nat.not_le.mpr hoffset)]
    split
    · exact namesLine_error rfl
    · exact ih _

theorem encode_namesLine (number : Nat) (symbols : SymbolTable) (s : Statement) :
    NamesLine number (s.encode number symbols) := by
  intro e he
  cases encode_failsWith s e he <;> rfl

end Names

section Statements

variable {number : Nat} {texts : List (List Char)} {lines : List Line}

/-- What a line says does not depend on where it stands. -/
theorem statement?_eq {text : List Char} {line : Line} (h : Line.parse number text = .ok line) :
    statement? text = line.statement := by
  have hfirst : Line.parse 1 text = .ok ⟨1, line.labels, line.statement⟩ :=
    Line.parse_eq_ok_iff.mpr ⟨rfl, (Line.parse_eq_ok_iff.mp h).2⟩
  rw [statement?, hfirst]
  rfl

theorem ReadAs.statements_eq (h : ReadAs number texts lines) :
    statements lines = texts.filterMap statement? := by
  induction texts generalizing number lines with
  | nil =>
    cases h
    rfl
  | cons text rest ih =>
    cases h with
    | cons hparse hrest =>
      rw [statements_cons, ih hrest, List.filterMap_cons, statement?_eq hparse, statements]
      cases hs : Line.statement _ <;> simp [hs]

/-- The lines read are those of the texts, one for one. -/
theorem ReadAs.getElem? (h : ReadAs number texts lines) (k : Nat) :
    (texts[k]?.bind statement? = lines[k]?.bind Line.statement) ∧
      ∀ line, lines[k]? = some line → k < texts.length ∧ line.number = number + k := by
  induction texts generalizing number lines k with
  | nil =>
    cases h
    exact ⟨rfl, nofun⟩
  | cons text rest ih =>
    cases h with
    | cons hparse hrest =>
      cases k with
      | zero =>
        refine ⟨statement?_eq hparse, ?_⟩
        rintro line ⟨⟩
        exact ⟨Nat.zero_lt_succ _, (Line.parse_eq_ok_iff.mp hparse).1⟩
      | succ k =>
        obtain ⟨hstatement, hnumber⟩ := ih hrest k
        refine ⟨hstatement, fun line hline => ?_⟩
        obtain ⟨hk, hline⟩ := hnumber line hline
        exact ⟨Nat.succ_lt_succ hk, by omega⟩

end Statements

section FirstPass

variable {number offset : Nat} {symbols : SymbolTable} {e : Error}

/-- A first pass that fails has taken the lines in front of the one that it refuses. -/
theorem exists_first_refused {texts : List (List Char)}
    (h : Layout.ofLines number offset symbols texts = .error e) :
    ∃ front text back first, texts = front ++ text :: back ∧
      Layout.ofLines number offset symbols front = .ok first ∧
      Layout.ofLines (number + front.length) (offset + first.lines.length) first.symbols [text] =
        .error e := by
  induction texts using List.reverseRecOn with
  | nil => cases h
  | append_singleton front text ih =>
    rw [ofLines_append] at h
    cases hfront : Layout.ofLines number offset symbols front with
    | error e' =>
      rw [hfront] at h
      cases h
      obtain ⟨before, refused, back, first, rfl, hfirst, hrefused⟩ := ih hfront
      exact ⟨before, refused, back ++ [text], first, by simp, hfirst, hrefused⟩
    | ok first =>
      rw [hfront, ok_bind] at h
      refine ⟨front, text, [], first, rfl, hfront, ?_⟩
      generalize Layout.ofLines _ _ _ [text] = outcome at h ⊢
      cases outcome with
      | error e' =>
        cases h
        rfl
      | ok second => cases h

theorem ofLines_singleton_namesLine (hoffset : offset < UInt32.size) (text : List Char) :
    NamesLine number (Layout.ofLines number offset symbols [text]) := by
  rw [Layout.ofLines]
  refine (parse_namesLine number text).bind fun line => ?_
  refine (define_namesLine hoffset line.labels symbols).bind fun known => ?_
  split
  · exact namesLine_ok _
  · exact namesLine_ok _

theorem ofSource_firstLines (k : Nat) (source : String) :
    Layout.ofSource (firstLines k source) =
      Layout.ofLines 1 0 [] ((Text.lines source.toList).take k) := by
  rw [Layout.ofSource, firstLines, String.toList_ofList, Text.lines_firstLines]

theorem ofSource_error_line {source : String}
    (hsize : ((Text.lines source.toList).filterMap statement?).length < UInt32.size)
    (h : Layout.ofSource source = .error e) :
    ∃ k < (Text.lines source.toList).length, e.line? = some (k + 1) ∧
      (∃ layout, Layout.ofSource (firstLines k source) = .ok layout) ∧
      Layout.ofSource (firstLines (k + 1) source) = .error e := by
  obtain ⟨front, text, back, first, htexts, hfirst, hrefused⟩ := exists_first_refused h
  have hfront : (Text.lines source.toList).take front.length = front := by
    rw [htexts, List.take_left]
  have hnext : (Text.lines source.toList).take (front.length + 1) = front ++ [text] := by
    rw [htexts, List.take_length_add_append, List.take_succ_cons, List.take_zero]
  have hoffset : 0 + first.lines.length < UInt32.size := by
    obtain ⟨lines, hread, hlaid⟩ := laid_of_ofLines hfirst
    rw [htexts, List.filterMap_append, List.length_append, ← hread.statements_eq,
      length_statements, ← hlaid.lines_eq] at hsize
    omega
  have hline := ofLines_singleton_namesLine hoffset text e hrefused
  refine ⟨front.length, ?_, ?_, ?_, ?_⟩
  · rw [htexts, List.length_append, List.length_cons]
    omega
  · rw [hline, Nat.add_comm]
  · rw [ofSource_firstLines, hfront]
    exact ⟨first, hfirst⟩
  · rw [ofSource_firstLines, hnext, ofLines_append, hfirst, ok_bind, hrefused]
    rfl

end FirstPass

section SecondPass

variable {symbols : SymbolTable} {lines : List Line} {e : Error}

theorem encodeLines_filter (symbols : SymbolTable) (lines : List Line) :
    Layout.encodeLines symbols (lines.filter fun line => line.statement.isSome) =
      Layout.encodeLines symbols lines := by
  induction lines with
  | nil => rfl
  | cons line rest ih =>
    cases hs : line.statement with
    | none => simp [Layout.encodeLines, hs, ih]
    | some s => simp [Layout.encodeLines, hs, ih]

/-- A second pass that fails has encoded the statements in front of the one that it refuses. -/
theorem exists_first_unencodable (h : Layout.encodeLines symbols lines = .error e) :
    ∃ (k : Nat) (line : Line) (s : Statement), lines[k]? = some line ∧ line.statement = some s ∧
      s.encode line.number symbols = .error e ∧
      ∀ j < k, ∀ other t, lines[j]? = some other → other.statement = some t →
        ∃ w, t.encode other.number symbols = .ok w := by
  induction lines with
  | nil => cases h
  | cons line rest ih =>
    have hbehind (hfirst : ∀ t, line.statement = some t → ∃ w, t.encode line.number symbols = .ok w)
        (hrest : Layout.encodeLines symbols rest = .error e) :
        ∃ (k : Nat) (found : Line) (s : Statement), (line :: rest)[k]? = some found ∧
          found.statement = some s ∧ s.encode found.number symbols = .error e ∧
          ∀ j < k, ∀ other t, (line :: rest)[j]? = some other → other.statement = some t →
            ∃ w, t.encode other.number symbols = .ok w := by
      obtain ⟨k, found, s, hfound, hs, herror, hbefore⟩ := ih hrest
      refine ⟨k + 1, found, s, hfound, hs, herror, ?_⟩
      intro j hj other t hother ht
      cases j with
      | zero =>
        cases hother
        exact hfirst t ht
      | succ j => exact hbefore j (Nat.lt_of_succ_lt_succ hj) other t hother ht
    rw [Layout.encodeLines] at h
    split at h
    · rename_i hnone
      exact hbehind (by simp [hnone]) h
    · rename_i s hs
      cases hw : s.encode line.number symbols with
      | error e' =>
        rw [hw] at h
        cases h
        exact ⟨0, line, s, rfl, hs, hw, fun j hj => absurd hj (Nat.not_lt_zero j)⟩
      | ok w =>
        refine hbehind ?_ ?_
        · intro t ht
          rw [hs] at ht
          cases ht
          exact ⟨w, hw⟩
        · rw [hw, ok_bind] at h
          generalize Layout.encodeLines symbols rest = outcome at h ⊢
          cases outcome with
          | error e' =>
            cases h
            rfl
          | ok words => cases h

end SecondPass

/-- An error names the first line that is wrong. Either the first pass takes the lines before it and
refuses it, or the first pass takes the whole source and the statement on that line is the first one
that cannot be encoded. A source of so many statements that labels run out of range is left out:
that error names no line. -/
theorem assemble_error_line {source : String} {e : Error}
    (hsize : ((Text.lines source.toList).filterMap statement?).length < UInt32.size)
    (h : assemble source = .error e) :
    ∃ k < (Text.lines source.toList).length, e.line? = some (k + 1) ∧
      ((∃ layout, Layout.ofSource (firstLines k source) = .ok layout) ∧
          Layout.ofSource (firstLines (k + 1) source) = .error e ∨
        ∃ layout s, Layout.ofSource source = .ok layout ∧ statementOn? source k = some s ∧
          s.encode (k + 1) layout.symbols = .error e ∧
          ∀ j < k, ∀ t, statementOn? source j = some t →
            ∃ w, t.encode (j + 1) layout.symbols = .ok w) := by
  cases hlayout : Layout.ofSource source with
  | error e' =>
    rw [assemble, hlayout] at h
    cases h
    obtain ⟨k, hk, hline, hbefore, hrefused⟩ := ofSource_error_line hsize hlayout
    exact ⟨k, hk, hline, Or.inl ⟨hbefore, hrefused⟩⟩
  | ok layout =>
    rw [assemble, hlayout, ok_bind, Layout.encode] at h
    obtain ⟨lines, hread, hlaid⟩ := laid_of_ofLines hlayout
    rw [hlaid.lines_eq, encodeLines_filter] at h
    obtain ⟨k, line, s, hline, hs, herror, hbefore⟩ := exists_first_unencodable h
    obtain ⟨hon, hnumber⟩ := hread.getElem? k
    obtain ⟨hk, hnumber⟩ := hnumber line hline
    rw [hnumber, Nat.add_comm] at herror
    refine ⟨k, hk, encode_namesLine (k + 1) layout.symbols s e herror, Or.inr ?_⟩
    refine ⟨layout, s, rfl, ?_, herror, ?_⟩
    · rw [statementOn?, hon, hline]
      exact hs
    · intro j hj t ht
      obtain ⟨hon, hnumber⟩ := hread.getElem? j
      rw [statementOn?, hon] at ht
      obtain ⟨other, hother, ht⟩ := Option.bind_eq_some_iff.mp ht
      obtain ⟨w, hw⟩ := hbefore j hj other t hother ht
      rw [(hnumber other hother).2, Nat.add_comm] at hw
      exact ⟨w, hw⟩

/-- A label that is defined twice stops the first pass, one that is never defined only the second.
-/
theorem assemble_error_line_each_pass :
    let twice := "x: halt\nx: halt\n?"
    let nowhere := "end: halt\n.word end\northo r0, nowhere"
    (assemble twice = .error (.duplicateLabel 2 "x") ∧
      (∃ layout, Layout.ofSource (firstLines 1 twice) = .ok layout) ∧
      Layout.ofSource (firstLines 2 twice) = .error (.duplicateLabel 2 "x")) ∧
    assemble nowhere = .error (.undefinedLabel 3 "nowhere") ∧
      ∃ layout s, Layout.ofSource nowhere = .ok layout ∧ statementOn? nowhere 2 = some s ∧
        s.encode 3 layout.symbols = .error (.undefinedLabel 3 "nowhere") := by
  intro twice nowhere
  have htwice : assemble twice = .error (.duplicateLabel 2 "x") := by decide +kernel
  have hnowhere : assemble nowhere = .error (.undefinedLabel 3 "nowhere") := by decide +kernel
  have hrefused : (Layout.ofSource twice).toOption = none := by decide +kernel
  have hread : (Layout.ofSource nowhere).toOption.isSome = true := by decide +kernel
  refine ⟨⟨htwice, ?_⟩, hnowhere, ?_⟩
  · obtain ⟨k, -, hline, ⟨hbefore, herror⟩ | ⟨layout, s, hlayout, -⟩⟩ :=
      assemble_error_line (by decide +kernel) htwice
    · cases hline
      exact ⟨hbefore, herror⟩
    · rw [hlayout] at hrefused
      cases hrefused
  · obtain ⟨k, hk, hline, ⟨-, herror⟩ | ⟨layout, s, hlayout, hs, herror, -⟩⟩ :=
      assemble_error_line (by decide +kernel) hnowhere
    · cases hline
      have hwhole : Layout.ofSource (firstLines 3 nowhere) = Layout.ofSource nowhere := by
        decide +kernel
      rw [← hwhole, herror] at hread
      cases hread
    · cases hline
      exact ⟨layout, s, hlayout, hs, herror⟩

end UniversalMachine.Assembly
