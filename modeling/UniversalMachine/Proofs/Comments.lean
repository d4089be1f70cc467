import UniversalMachine.Proofs.Concatenation
import Mathlib.Data.List.Induction

/-! Comments and blank lines.
A comment behind a line that can be read leaves its reading as it is, and a line of blanks and a
comment says nothing. So a source keeps its program when comments are put behind its lines and such
lines are put between them; only the numbers of its lines change. -/

namespace UniversalMachine.Assembly

/-- A mark, and whatever stands behind it on its line. -/
inductive IsComment : List Char → Prop where
  | mk {mark : Char} {note : List Char} : mark = ';' ∨ mark = '#' → '\n' ∉ note →
      IsComment (mark :: note)

/-- A line of blanks, with a comment behind them or none. -/
inductive IsVoid : List Char → Prop where
  | mk {blanks comment : List Char} : (∀ c ∈ blanks, c = ' ' ∨ c = '\t' ∨ c = '\r') →
      comment = [] ∨ IsComment comment → IsVoid (blanks ++ comment)

/-- Lines with comments put behind some of them and void lines put in. -/
inductive Annotated : List (List Char) → List (List Char) → Prop where
  | nil : Annotated [] []
  | line {text comment : List Char} {texts more : List (List Char)} :
      comment = [] ∨ IsComment comment → Annotated texts more →
      Annotated (text :: texts) ((text ++ comment) :: more)
  | insert {text : List Char} {texts more : List (List Char)} : IsVoid text →
      Annotated texts more → Annotated texts (text :: more)

section Reading

variable {number : Nat} {text comment : List Char} {line : Line}

theorem isCommentMark_eq {c : Char} : Lexer.isCommentMark c = true ↔ c = ';' ∨ c = '#' := by
  simp [Lexer.isCommentMark]

theorem IsComment.newline_not_mem (h : IsComment comment) : '\n' ∉ comment := by
  obtain ⟨rfl | rfl, hnote⟩ := h <;> simp [hnote]

theorem IsComment.stops (h : IsComment comment) :
    Lexer.Stops Lexer.isNamePart comment ∧ Lexer.Stops Lexer.isBlank comment := by
  obtain ⟨rfl | rfl, -⟩ := h <;>
    exact ⟨Lexer.stops_cons (by decide) _, Lexer.stops_cons (by decide) _⟩

theorem run_bne_newline {note : List Char} (h : '\n' ∉ note) :
    Lexer.run (· != '\n') note = note.length := by
  rw [Lexer.run, List.takeWhile_eq_self_iff.mpr (Text.bne_newline h)]

theorem itemsFrom_comment (start : Nat) (h : IsComment comment) :
    Lexer.itemsFrom start comment = [] := by
  obtain ⟨hmark, hnote⟩ := h
  rw [Lexer.itemsFrom, Lexer.longest?_comment (isCommentMark_eq.mpr hmark), run_bne_newline hnote]
  simp only [Lexer.isSkipped, if_true, List.drop_length, Lexer.itemsFrom_nil]

theorem tokens_cons_of_ok {item : Item} {rest behind : List Item} {placed : List Placed}
    (h : Line.tokens number (item :: rest) = .ok placed)
    (hrest : ∀ found, Line.tokens number rest = .ok found → Line.tokens number behind = .ok found) :
    Line.tokens number (item :: behind) = .ok placed := by
  simp only [Line.tokens] at h ⊢
  split at h
  · cases h
  · exact h
  · obtain ⟨found, hfound, h⟩ := bind_eq_ok_iff.mp h
    rw [hrest found hfound]
    exact h

/-- A comment behind the text of a line adds no token to it. That the line can be read is needed:
behind an open quote the mark could be quoted. -/
theorem tokens_append_comment (hc : IsComment comment) (number start : Nat) (text : List Char) :
    '\n' ∉ text → ∀ placed, Line.tokens number (Lexer.itemsFrom start text) = .ok placed →
      Line.tokens number (Lexer.itemsFrom start (text ++ comment)) = .ok placed := by
  obtain ⟨hname, hblank⟩ := hc.stops
  fun_induction Lexer.itemsFrom start text with
  | case1 start =>
    intro _ placed h
    rw [List.nil_append, itemsFrom_comment start hc]
    exact h
  | case2 start c rest hl stop ih =>
    intro _ placed h
    cases h
  | case3 start c rest shape more hl found stop behind hs ih =>
    intro hline placed h
    have hrest : '\n' ∉ rest := fun hm => hline (List.mem_cons_of_mem c hm)
    by_cases hmark : Lexer.isCommentMark c = true
    · -- the line ends in a comment already, which takes in the new one
      rw [Lexer.longest?_comment hmark, run_bne_newline hrest] at hl
      cases hl
      have hempty : behind = [] := by
        simp only [behind, List.drop_length, Lexer.itemsFrom_nil]
      have hlonger : IsComment (c :: (rest ++ comment)) :=
        .mk (isCommentMark_eq.mp hmark) (List.not_mem_append hrest hc.newline_not_mem)
      rw [List.cons_append, itemsFrom_comment start hlonger]
      rwa [hempty] at h
    · have hl' := Lexer.longest?_append hname hblank (Bool.not_eq_true _ ▸ hmark) hl
      rw [Lexer.itemsFrom_append start hl hl', if_pos hs, List.nil_append]
      exact ih (fun hm => hrest (List.mem_of_mem_drop hm)) placed h
  | case4 start c rest shape more hl found stop behind hs ih =>
    intro hline placed h
    have hrest : '\n' ∉ rest := fun hm => hline (List.mem_cons_of_mem c hm)
    have hmark : Lexer.isCommentMark c = false := by
      rw [Bool.eq_false_iff]
      intro hmark
      rw [Lexer.longest?_comment hmark] at hl
      cases hl
      exact hs rfl
    have hl' := Lexer.longest?_append hname hblank hmark hl
    rw [Lexer.itemsFrom_append start hl hl', if_neg hs, List.singleton_append]
    exact tokens_cons_of_ok h (ih fun hm => hrest (List.mem_of_mem_drop hm))

theorem parse_append_comment (hc : comment = [] ∨ IsComment comment) (hline : '\n' ∉ text)
    (h : Line.parse number text = .ok line) : Line.parse number (text ++ comment) = .ok line := by
  rcases hc with rfl | hc
  · rwa [List.append_nil]
  · obtain ⟨placed, hplaced, h⟩ := bind_eq_ok_iff.mp h
    rw [Line.parse, Lexer.items, tokens_append_comment hc number 0 text hline placed hplaced]
    exact h

theorem parse_blanks (number : Nat) {blanks : List Char}
    (h : ∀ c ∈ blanks, c = ' ' ∨ c = '\t' ∨ c = '\r') :
    Line.parse number blanks = .ok ⟨number, [], none⟩ := by
  induction blanks using List.reverseRecOn with
  | nil => exact parse_nil number
  | append_singleton blanks b ih =>
    obtain ⟨hblanks, hb⟩ := List.forall_mem_append.mp h
    have hblank : Lexer.isBlank b = true := by
      simpa [Lexer.isBlank, or_assoc] using hb b List.mem_cons_self
    rw [← ih hblanks, Line.parse, Lexer.items, Lexer.itemsFrom_append_blank hblank]
    rfl

theorem IsVoid.parse (number : Nat) (h : IsVoid text) :
    Line.parse number text = .ok ⟨number, [], none⟩ := by
  obtain ⟨hblanks, hc⟩ := h
  apply parse_append_comment hc
  · intro hm
    rcases hblanks _ hm with h | h | h <;> cases h
  · exact parse_blanks number hblanks

end Reading

section Layout

variable {number offset : Nat} {symbols : SymbolTable}

theorem define_renumbered {names : List String} {known : SymbolTable} (other : Nat)
    (h : SymbolTable.define number offset names symbols = .ok known) :
    SymbolTable.define other offset names symbols = .ok known := by
  induction names generalizing symbols with
  | nil => exact h
  | cons name names ih =>
    rw [SymbolTable.define] at h ⊢
    split at h
    · cases h
    split at h
    · cases h
    rename_i hsize hnew
    rw [if_neg hsize, if_neg hnew]
    exact ih h

/-- The first pass finds the same labels and the same statements in annotated lines. -/
theorem ofLines_annotated {texts more : List (List Char)} {layout : Layout}
    (other : Nat) (h : Annotated texts more) (hlines : ∀ text ∈ texts, '\n' ∉ text)
    (hlayout : Layout.ofLines number offset symbols texts = .ok layout) :
    ∃ lines, Layout.ofLines other offset symbols more = .ok ⟨lines, layout.symbols⟩ ∧
      statements lines = statements layout.lines := by
  induction h generalizing number other offset symbols layout with
  | nil =>
    cases hlayout
    exact ⟨[], rfl, rfl⟩
  | @line text comment texts more hc _ ih =>
    obtain ⟨hline, hlines⟩ := List.forall_mem_cons.mp hlines
    obtain ⟨line, known, behind, hparse, hdefine, hbehind, rfl⟩ := ofLines_cons_eq_ok hlayout
    obtain ⟨lines, hmore, hsame⟩ := ih (other + 1) hlines hbehind
    have hcommented := parse_append_comment hc hline (parse_renumbered other hparse)
    have hone : statements [{ line with number := other }] = statements [line] := rfl
    have hlaid := ofLines_cons more hcommented (define_renumbered other hdefine)
    rw [hone, hmore] at hlaid
    refine ⟨_, hlaid, ?_⟩
    rw [statements_append, statements_append, statements_filter, statements_filter, hone, hsame]
  | @insert text texts more hvoid _ ih =>
    obtain ⟨lines, hmore, hsame⟩ := ih (other + 1) hlines hlayout
    refine ⟨lines, ?_, hsame⟩
    rw [ofLines_cons more (hvoid.parse other) rfl]
    exact congrArg (Except.map _) hmore

/-- The lines of a text are laid out in any way that it can be cut into them. -/
theorem ofLines_written {texts : List (List Char)} {text : List Char}
    (h : Text.Written texts text) (number offset : Nat) (symbols : SymbolTable) :
    Layout.ofLines number offset symbols (Text.lines text) =
      Layout.ofLines number offset symbols texts := by
  induction h generalizing number offset symbols with
  | nil => rw [Text.lines_nil]
  | @last line hline =>
    by_cases hempty : line = []
    · subst hempty
      rw [Text.lines_nil]
      simp only [Layout.ofLines, parse_nil]
      rfl
    · rw [Text.lines_of_not_mem hline hempty]
  | @line line ending text texts hline hending _ ih =>
    rcases hending with rfl | rfl
    · rw [List.append_assoc, List.singleton_append, Text.lines_append_newline hline]
      simp only [Layout.ofLines, parse_dropReturn, ih]
    · have htext : line ++ ['\r', '\n'] ++ text = (line ++ ['\r']) ++ '\n' :: text := by simp
      have hreturn : '\n' ∉ line ++ ['\r'] := by simp [hline]
      have hdrop : Text.dropReturn (line ++ ['\r']) = line := by simp [Text.dropReturn]
      rw [htext, Text.lines_append_newline hreturn, hdrop]
      simp only [Layout.ofLines, ih]

end Layout

/-- A source stays the same program when comments are put behind its lines and void lines between
them, however the lines end. The lines may be those that the assembler reads, or any others that the
source can be cut into, such as lines that keep their carriage returns. -/
theorem assemble_annotated (source : String) :
    Text.Written (Text.lines source.toList) source.toList ∧
    ∀ texts more edited p, Text.Written texts source.toList → Annotated texts more →
      Text.Written more edited → assemble source = .ok p →
      assemble (String.ofList edited) = .ok p := by
  refine ⟨Text.written_lines _, ?_⟩
  intro texts more edited p hsource hannotated hedited h
  obtain ⟨layout, hlayout, hp⟩ := bind_eq_ok_iff.mp h
  rw [Layout.ofSource, ofLines_written hsource] at hlayout
  obtain ⟨lines, hmore, hsame⟩ := ofLines_annotated 1 hannotated hsource.not_mem hlayout
  have hlaid : Layout.ofSource (String.ofList edited) = .ok ⟨lines, layout.symbols⟩ := by
    rw [Layout.ofSource, String.toList_ofList, ofLines_written hedited]
    exact hmore
  have hwords := encodeLines_eq_ok_iff.mp hp
  rw [← hsame] at hwords
  rw [assemble, hlaid, ok_bind]
  exact encodeLines_eq_ok_iff.mpr hwords

theorem assemble_annotated_marks :
    let source := "a: .word ';'\r\n  halt # stop\n.word a\r"
    let edited := "\t; data\na: .word ';'# it's a mark\n  halt # stop;;\r\n \r\n.word a\r"
    assemble source = .ok [59, 0x70000000, 0] ∧ assemble edited = .ok [59, 0x70000000, 0] := by
  intro source edited
  have hsource : assemble source = .ok [59, 0x70000000, 0] :=
    eq_ok_of_toOption (by decide +kernel)
  refine ⟨hsource, ?_⟩
  obtain ⟨hwritten, hkept⟩ := assemble_annotated source
  let first := "a: .word ';'".toList
  let second := "  halt # stop".toList
  let third := ".word a\r".toList
  let remark := '#' :: " it's a mark".toList
  have hlines : Text.lines source.toList = [first, second, third] := by decide +kernel
  have hedited : edited.toList = ['\t'] ++ ';' :: " data".toList ++ ['\n'] ++
      (first ++ remark ++ ['\n'] ++ (second ++ [';', ';'] ++ ['\r', '\n'] ++
      ([' '] ++ [] ++ ['\r', '\n'] ++ (third ++ [])))) := by decide +kernel
  have hannotated : Annotated [first, second, third] [['\t'] ++ ';' :: " data".toList,
      first ++ remark, second ++ [';', ';'], [' '] ++ [], third ++ []] := by
    apply Annotated.insert
    · exact .mk (List.forall_mem_singleton.mpr (by decide)) (Or.inr (.mk (Or.inl rfl) (by decide)))
    apply Annotated.line (Or.inr (.mk (Or.inr rfl) (by decide)))
    apply Annotated.line (Or.inr (.mk (Or.inl rfl) (by decide)))
    apply Annotated.insert
    · exact .mk (List.forall_mem_singleton.mpr (by decide)) (Or.inl rfl)
    exact .line (Or.inl rfl) .nil
  have hcut : Text.Written [['\t'] ++ ';' :: " data".toList, first ++ remark,
      second ++ [';', ';'], [' '] ++ [], third ++ []] edited.toList := by
    rw [hedited]
    apply Text.Written.line (by decide +kernel) (Or.inl rfl)
    apply Text.Written.line (by decide +kernel) (Or.inl rfl)
    apply Text.Written.line (by decide +kernel) (Or.inr rfl)
    apply Text.Written.line (by decide +kernel) (Or.inr rfl)
    exact .last (by decide +kernel)
  rw [hlines] at hwritten
  have hsame := hkept _ _ _ _ hwritten hannotated hcut hsource
  rwa [String.ofList_toList] at hsame

end UniversalMachine.Assembly
