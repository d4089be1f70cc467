import UniversalMachine.Assembly.Source
import UniversalMachine.Proofs.Reading
import Mathlib.Data.List.Forall2
import Mathlib.Data.List.Nodup

/-! The first pass of the assembler.
Each label is defined once and stands for the number of statements before its line, wherever it
stands and wherever it is used. -/

namespace UniversalMachine.Assembly

def statements (lines : List Line) : List Statement := lines.filterMap Line.statement

/-- The label is on a line that has `n` statements before it. -/
def LabelAt (lines : List Line) (name : String) (n : Nat) : Prop :=
  ∃ i line, lines[i]? = some line ∧ name ∈ line.labels ∧ n = (statements (lines.take i)).length

/-- The texts are read as these lines, counted from `number`. -/
def ReadAs (number : Nat) (texts : List (List Char)) (lines : List Line) : Prop :=
  List.Forall₂ (fun text line => Line.parse text.2 text.1 = .ok line) (texts.zipIdx number) lines

theorem statements_append (front back : List Line) :
    statements (front ++ back) = statements front ++ statements back :=
  List.filterMap_append

theorem statements_cons (line : Line) (rest : List Line) :
    statements (line :: rest) = statements [line] ++ statements rest :=
  statements_append [line] rest

theorem labelAt_cons {line : Line} {rest : List Line} {name : String} {n : Nat} :
    LabelAt (line :: rest) name n ↔
      name ∈ line.labels ∧ n = 0 ∨
        ∃ k, LabelAt rest name k ∧ n = (statements [line]).length + k := by
  constructor
  · rintro ⟨i, found, hi, hm, rfl⟩
    cases i with
    | zero =>
      rw [List.getElem?_cons_zero, Option.some.injEq] at hi
      subst hi
      exact Or.inl ⟨hm, rfl⟩
    | succ i =>
      rw [List.getElem?_cons_succ] at hi
      refine Or.inr ⟨_, ⟨i, found, hi, hm, rfl⟩, ?_⟩
      rw [List.take_succ_cons, statements_cons, List.length_append]
  · rintro (⟨hm, rfl⟩ | ⟨k, ⟨i, found, hi, hm, rfl⟩, rfl⟩)
    · exact ⟨0, line, rfl, hm, rfl⟩
    · refine ⟨i + 1, found, hi, hm, ?_⟩
      rw [List.take_succ_cons, statements_cons line (rest.take i), List.length_append]

theorem not_labelAt_nil {name : String} {n : Nat} : ¬ LabelAt [] name n := by
  rintro ⟨i, line, hi, -⟩
  cases hi

theorem LabelAt.le_length {lines : List Line} {name : String} {n : Nat}
    (h : LabelAt lines name n) : n ≤ (statements lines).length := by
  obtain ⟨i, line, -, -, rfl⟩ := h
  exact ((List.take_sublist i lines).filterMap _).length_le

/-- Defining labels succeeds on new names only, and gives them all the same offset. -/
theorem define_eq_ok {line offset : Nat} {names : List String} {symbols known : SymbolTable}
    (h : SymbolTable.define line offset names symbols = .ok known) :
    names.Nodup ∧ (∀ name ∈ names, symbols.lookup name = none ∧ offset < UInt32.size) ∧
      ∀ name, known.lookup name =
        if name ∈ names then some (UInt32.ofNat offset) else symbols.lookup name := by
  induction names generalizing symbols with
  | nil =>
    cases h
    exact ⟨List.nodup_nil, fun name hn => absurd hn List.not_mem_nil, fun name => rfl⟩
  | cons first rest ih =>
    rw [SymbolTable.define] at h
    split at h
    · cases h
    · rename_i hoffset
      split at h
      · cases h
      · rename_i hnone
        rw [Bool.not_eq_true, Option.isSome_eq_false_iff, Option.isNone_iff_eq_none] at hnone
        obtain ⟨hnodup, hfresh, hlookup⟩ := ih h
        have hcons := lookup_cons_eq_ite first (UInt32.ofNat offset) symbols
        have hfirst : first ∉ rest := by
          intro hm
          have hnew := (hfresh first hm).1
          rw [hcons, if_pos rfl] at hnew
          cases hnew
        refine ⟨List.nodup_cons.mpr ⟨hfirst, hnodup⟩, ?_, ?_⟩
        · intro name hm
          refine ⟨?_, Nat.lt_of_not_le hoffset⟩
          rcases List.mem_cons.mp hm with rfl | hm
          · exact hnone
          · have hne : name ≠ first := fun e => hfirst (e ▸ hm)
            have hnew := (hfresh name hm).1
            rwa [hcons, if_neg hne] at hnew
        · intro name
          rw [hlookup name, hcons name]
          by_cases hrest : name ∈ rest
          · rw [if_pos hrest, if_pos (List.mem_cons_of_mem first hrest)]
          · by_cases hname : name = first
            · rw [if_neg hrest, if_pos hname, if_pos (hname ▸ List.mem_cons_self)]
            · have hout : name ∉ first :: rest := by
                simp [hname, hrest]
              rw [if_neg hrest, if_neg hname, if_neg hout]

/-- How lines laid out from an offset extend the labels known before them. -/
structure Laid (offset : Nat) (symbols : SymbolTable) (lines : List Line) (layout : Layout) :
    Prop where
  lines_eq : layout.lines = lines.filter fun line => line.statement.isSome
  labels_nodup : (lines.flatMap Line.labels).Nodup
  labels_new : ∀ name ∈ lines.flatMap Line.labels, symbols.lookup name = none
  offset_lt : ∀ name n, LabelAt lines name n → offset + n < UInt32.size
  lookup_iff : ∀ name value, layout.symbols.lookup name = some value ↔
    symbols.lookup name = some value ∨ ∃ n, LabelAt lines name n ∧ value.toNat = offset + n

theorem laid_nil (offset : Nat) (symbols : SymbolTable) : Laid offset symbols [] ⟨[], symbols⟩ := by
  refine ⟨rfl, List.nodup_nil, fun name hn => absurd hn List.not_mem_nil,
    fun name n hn => absurd hn not_labelAt_nil, ?_⟩
  intro name value
  constructor
  · exact Or.inl
  · rintro (h | ⟨n, hn, -⟩)
    · exact h
    · exact absurd hn not_labelAt_nil

theorem Laid.cons {number offset : Nat} {symbols known : SymbolTable} {line : Line}
    {rest : List Line} {layout : Layout}
    (hdefine : SymbolTable.define number offset line.labels symbols = .ok known)
    (hl : Laid (offset + (statements [line]).length) known rest layout) :
    Laid offset symbols (line :: rest)
      ⟨[line].filter (fun line => line.statement.isSome) ++ layout.lines, layout.symbols⟩ := by
  obtain ⟨hnodup, hnew, hlookup⟩ := define_eq_ok hdefine
  have hrest : ∀ name ∈ rest.flatMap Line.labels,
      name ∉ line.labels ∧ symbols.lookup name = none := by
    intro name hm
    have hnone := hl.labels_new name hm
    rw [hlookup name] at hnone
    split at hnone
    · cases hnone
    · rename_i hout
      exact ⟨hout, hnone⟩
  refine ⟨?_, ?_, ?_, ?_, ?_⟩
  · rw [hl.lines_eq, ← List.filter_append]
    rfl
  · rw [List.flatMap_cons, List.nodup_append]
    refine ⟨hnodup, hl.labels_nodup, ?_⟩
    rintro name hm other ho rfl
    exact (hrest name ho).1 hm
  · intro name hm
    rw [List.flatMap_cons, List.mem_append] at hm
    rcases hm with hm | hm
    · exact (hnew name hm).1
    · exact (hrest name hm).2
  · intro name n hn
    rcases labelAt_cons.mp hn with ⟨hm, rfl⟩ | ⟨k, hk, rfl⟩
    · exact (hnew name hm).2
    · rw [← Nat.add_assoc]
      exact hl.offset_lt name k hk
  · intro name value
    rw [hl.lookup_iff name value, hlookup name]
    constructor
    · rintro (hknown | ⟨k, hk, hvalue⟩)
      · split at hknown
        · rename_i hm
          cases hknown
          exact Or.inr ⟨0, labelAt_cons.mpr (Or.inl ⟨hm, rfl⟩),
            UInt32.toNat_ofNat_of_lt' (hnew name hm).2⟩
        · exact Or.inl hknown
      · exact Or.inr ⟨_, labelAt_cons.mpr (Or.inr ⟨k, hk, rfl⟩), by rw [hvalue, Nat.add_assoc]⟩
    · rintro (hold | ⟨n, hn, hvalue⟩)
      · have hout : name ∉ line.labels := by
          intro hm
          rw [(hnew name hm).1] at hold
          cases hold
        rw [if_neg hout]
        exact Or.inl hold
      · rcases labelAt_cons.mp hn with ⟨hm, rfl⟩ | ⟨k, hk, rfl⟩
        · rw [if_pos hm]
          left
          rw [Option.some.injEq, ← UInt32.toNat_inj, hvalue]
          exact UInt32.toNat_ofNat_of_lt' (hnew name hm).2
        · exact Or.inr ⟨k, hk, by rw [hvalue, Nat.add_assoc]⟩

theorem ofLines_cons {number offset : Nat} {symbols known : SymbolTable} {text : List Char}
    {line : Line} (rest : List (List Char)) (hparse : Line.parse number text = .ok line)
    (hdefine : SymbolTable.define number offset line.labels symbols = .ok known) :
    Layout.ofLines number offset symbols (text :: rest) =
      (Layout.ofLines (number + 1) (offset + (statements [line]).length) known rest).map
        fun behind => ⟨[line].filter (fun line => line.statement.isSome) ++ behind.lines,
          behind.symbols⟩ := by
  rw [Layout.ofLines, hparse, ok_bind, hdefine, ok_bind]
  cases hs : line.statement with
  | none =>
    simp only [statements, List.filterMap_cons, List.filterMap_nil, List.filter_cons,
      List.filter_nil, hs]
    cases Layout.ofLines (number + 1) offset known rest <;> rfl
  | some s =>
    simp only [statements, List.filterMap_cons, List.filterMap_nil, List.filter_cons,
      List.filter_nil, hs]
    cases Layout.ofLines (number + 1) (offset + 1) known rest <;> rfl

theorem ofLines_cons_eq_ok {number offset : Nat} {symbols : SymbolTable} {text : List Char}
    {rest : List (List Char)} {layout : Layout}
    (h : Layout.ofLines number offset symbols (text :: rest) = .ok layout) :
    ∃ line known behind, Line.parse number text = .ok line ∧
      SymbolTable.define number offset line.labels symbols = .ok known ∧
      Layout.ofLines (number + 1) (offset + (statements [line]).length) known rest = .ok behind ∧
      layout = ⟨[line].filter (fun line => line.statement.isSome) ++ behind.lines,
        behind.symbols⟩ := by
  have hsteps := h
  rw [Layout.ofLines] at hsteps
  obtain ⟨line, hparse, hsteps⟩ := bind_eq_ok_iff.mp hsteps
  obtain ⟨known, hdefine, -⟩ := bind_eq_ok_iff.mp hsteps
  rw [ofLines_cons rest hparse hdefine] at h
  generalize hbehind :
    Layout.ofLines (number + 1) (offset + (statements [line]).length) known rest = outcome at h
  cases outcome with
  | error e => cases h
  | ok behind =>
    cases h
    exact ⟨line, known, behind, hparse, hdefine, hbehind, rfl⟩

/-- A first pass that succeeds has read every line and placed every label. -/
theorem laid_of_ofLines {number offset : Nat} {symbols : SymbolTable} {texts : List (List Char)}
    {layout : Layout} (h : Layout.ofLines number offset symbols texts = .ok layout) :
    ∃ lines, ReadAs number texts lines ∧ Laid offset symbols lines layout := by
  induction texts generalizing number offset symbols layout with
  | nil =>
    cases h
    exact ⟨[], .nil, laid_nil offset symbols⟩
  | cons text rest ih =>
    obtain ⟨line, known, behind, hparse, hdefine, hbehind, rfl⟩ := ofLines_cons_eq_ok h
    obtain ⟨lines, hread, hl⟩ := ih hbehind
    exact ⟨line :: lines, .cons hparse hread, hl.cons hdefine⟩

end UniversalMachine.Assembly
