import UniversalMachine.Proofs.LineGrammar
import UniversalMachine.Proofs.LongestMatch
import UniversalMachine.Proofs.TwoPasses

/-! Sources put one behind the other. The first pass reads the second source as it reads it alone,
with its line numbers moved by the lines of the first and its offsets by the words of the first.
Only a label that both define is in the way.
-/

namespace UniversalMachine.Assembly

/-- A line that stands `k` lines further down. -/
def Line.moved (k : Nat) (line : Line) : Line := { line with number := line.number + k }

namespace SymbolTable

/-- Labels that stand `d` words further on. -/
def moved (d : Nat) (symbols : SymbolTable) : SymbolTable :=
  symbols.map fun entry => (entry.1, entry.2 + UInt32.ofNat d)

/-- The offset that a label stands for. -/
def offset? (symbols : SymbolTable) (name : String) : Option Nat :=
  (symbols.lookup name).map UInt32.toNat

end SymbolTable

section Reading

theorem items_append_return (text : List Char) :
    Lexer.items (text ++ ['\r']) = Lexer.items text :=
  Lexer.itemsFrom_append_blank (by decide) 0 text

theorem parse_dropReturn (number : Nat) (text : List Char) :
    Line.parse number (Text.dropReturn text) = Line.parse number text := by
  rw [Text.dropReturn]
  split
  · rename_i hlast
    have htext : text.dropLast ++ ['\r'] = text := List.dropLast_append_getLast? '\r' hlast
    rw [Line.parse, Line.parse, ← items_append_return, htext]
  · rfl

theorem parse_nil (number : Nat) : Line.parse number [] = .ok ⟨number, [], none⟩ := by
  rw [Line.parse, Lexer.items, Lexer.itemsFrom_nil]
  rfl

/-- The number of a line is no part of its reading. -/
theorem parse_renumbered {number : Nat} {text : List Char} {line : Line} (other : Nat)
    (h : Line.parse number text = .ok line) :
    Line.parse other text = .ok { line with number := other } := by
  obtain ⟨-, hreading⟩ := Line.parse_eq_ok_iff.mp h
  exact Line.parse_eq_ok_iff.mpr ⟨rfl, hreading⟩

theorem parse_moved {number : Nat} {text : List Char} {line : Line} (k : Nat)
    (h : Line.parse number text = .ok line) :
    Line.parse (number + k) text = .ok (line.moved k) := by
  obtain ⟨rfl, -⟩ := Line.parse_eq_ok_iff.mp h
  exact parse_renumbered _ h

/-- A line end behind a source adds nothing to it. -/
theorem ofLines_newline (number offset : Nat) (symbols : SymbolTable) (text : List Char) :
    Layout.ofLines number offset symbols (Text.lines (text ++ ['\n'])) =
      Layout.ofLines number offset symbols (Text.lines text) := by
  induction text using Text.lines_induction generalizing number offset symbols with
  | last text h =>
    rw [Text.lines_append_newline h, Text.lines_nil]
    by_cases hempty : text = []
    · subst hempty
      have hblank : Text.dropReturn [] = [] := rfl
      rw [hblank, Text.lines_nil]
      simp only [Layout.ofLines, parse_nil]
      rfl
    · rw [Text.lines_of_not_mem h hempty]
      simp only [Layout.ofLines, parse_dropReturn]
  | line text rest h ih =>
    rw [List.append_assoc, List.cons_append, Text.lines_append_newline h,
      Text.lines_append_newline h]
    simp only [Layout.ofLines, ih]

theorem length_statements (lines : List Line) :
    (statements lines).length = (lines.filter fun line => line.statement.isSome).length := by
  rw [statements, List.length_filterMap_eq_countP, List.countP_eq_length_filter]

/-- What stands behind is laid out with the labels and the offset that the front ends with. -/
theorem ofLines_append (number offset : Nat) (symbols : SymbolTable)
    (front back : List (List Char)) :
    Layout.ofLines number offset symbols (front ++ back) = (do
      let first ← Layout.ofLines number offset symbols front
      let second ← Layout.ofLines (number + front.length) (offset + first.lines.length)
        first.symbols back
      return ⟨first.lines ++ second.lines, second.symbols⟩) := by
  induction front generalizing number offset symbols with
  | nil =>
    simp only [List.nil_append, Layout.ofLines, ok_bind, List.length_nil, Nat.add_zero]
    cases Layout.ofLines number offset symbols back <;> rfl
  | cons text rest ih =>
    cases hparse : Line.parse number text with
    | error e =>
      simp only [List.cons_append, Layout.ofLines, hparse]
      rfl
    | ok line =>
      cases hdefine : SymbolTable.define number offset line.labels symbols with
      | error e =>
        simp only [List.cons_append, Layout.ofLines, hparse, ok_bind, hdefine]
        rfl
      | ok known =>
        rw [List.cons_append, ofLines_cons _ hparse hdefine, ofLines_cons _ hparse hdefine, ih]
        cases Layout.ofLines (number + 1) (offset + (statements [line]).length) known rest with
        | error e => rfl
        | ok first =>
          have hnumber : number + 1 + rest.length = number + (text :: rest).length := by
            rw [List.length_cons]
            omega
          simp only [Except.map, ok_bind, pure_eq_ok, hnumber, length_statements,
            List.length_append, Nat.add_assoc]
          cases Layout.ofLines (number + (text :: rest).length) _ first.symbols back with
          | error e => rfl
          | ok second => simp only [ok_bind, List.append_assoc]

end Reading

section Moving

variable {number offset : Nat} {symbols base : SymbolTable}

theorem lookup_moved (d : Nat) (symbols : SymbolTable) (name : String) :
    (SymbolTable.moved d symbols).lookup name =
      (symbols.lookup name).map fun w => w + UInt32.ofNat d := by
  induction symbols with
  | nil => rfl
  | cons entry symbols ih =>
    obtain ⟨first, w⟩ := entry
    have hcons : SymbolTable.moved d ((first, w) :: symbols) =
        (first, w + UInt32.ofNat d) :: SymbolTable.moved d symbols := rfl
    rw [hcons, lookup_cons_eq_ite, lookup_cons_eq_ite, ih]
    split <;> rfl

/-- Labels that are new among their own are defined behind other labels too, unless one of them is
known there. -/
theorem define_moved {names : List String} {known : SymbolTable} (k d : Nat)
    (h : SymbolTable.define number offset names symbols = .ok known)
    (hsize : names ≠ [] → offset + d < UInt32.size) :
    ((∀ name ∈ names, base.lookup name = none) ∧
      SymbolTable.define (number + k) (offset + d) names (symbols.moved d ++ base) =
        .ok (known.moved d ++ base)) ∨
    ∃ name ∈ names, base.lookup name ≠ none ∧
      SymbolTable.define (number + k) (offset + d) names (symbols.moved d ++ base) =
        .error (.duplicateLabel (number + k) name) := by
  induction names generalizing symbols with
  | nil =>
    cases h
    exact Or.inl ⟨fun name hm => absurd hm List.not_mem_nil, rfl⟩
  | cons name names ih =>
    have hfit : ¬ UInt32.size ≤ offset + d := Nat.not_le.mpr (hsize (List.cons_ne_nil _ _))
    rw [SymbolTable.define] at h
    split at h
    · cases h
    split at h
    · cases h
    rename_i hnew
    have hlookup : (symbols.moved d ++ base).lookup name = base.lookup name := by
      rw [Bool.not_eq_true, Option.isSome_eq_false_iff, Option.isNone_iff_eq_none] at hnew
      rw [List.lookup_append, lookup_moved, hnew]
      rfl
    rw [SymbolTable.define, if_neg hfit, hlookup]
    cases hbase : base.lookup name with
    | some w =>
      refine Or.inr ⟨name, List.mem_cons_self, ?_, ?_⟩
      · rw [hbase]
        exact Option.some_ne_none w
      · rfl
    | none =>
      have hentry : (name, UInt32.ofNat (offset + d)) :: (symbols.moved d ++ base) =
          SymbolTable.moved d ((name, UInt32.ofNat offset) :: symbols) ++ base := by
        rw [UInt32.ofNat_add]
        rfl
      simp only [Option.isSome_none, Bool.false_eq_true, if_false, hentry]
      rcases ih h fun _ => hsize (List.cons_ne_nil _ _) with
        ⟨hfree, hok⟩ | ⟨other, hm, hknown, herror⟩
      · exact Or.inl ⟨List.forall_mem_cons.mpr ⟨hbase, hfree⟩, hok⟩
      · exact Or.inr ⟨other, List.mem_cons_of_mem name hm, hknown, herror⟩

/-- Labels that are known stay known. -/
theorem lookup_of_ofLines {texts : List (List Char)} {layout : Layout} {name : String}
    (h : Layout.ofLines number offset symbols texts = .ok layout)
    (hname : symbols.lookup name ≠ none) : layout.symbols.lookup name ≠ none := by
  obtain ⟨lines, -, hlaid⟩ := laid_of_ofLines h
  obtain ⟨value, hvalue⟩ := Option.ne_none_iff_exists'.mp hname
  rw [(hlaid.lookup_iff name value).mpr (Or.inl hvalue)]
  exact Option.some_ne_none value

/-- Lines that can be laid out alone can be laid out behind others too, unless they define a label
that is known there. -/
theorem ofLines_moved {texts : List (List Char)} {layout : Layout} (k d : Nat)
    (h : Layout.ofLines number offset symbols texts = .ok layout)
    (hsize : ∀ name, layout.symbols.lookup name ≠ none →
      offset + d + layout.lines.length < UInt32.size) :
    (Layout.ofLines (number + k) (offset + d) (symbols.moved d ++ base) texts =
        .ok ⟨layout.lines.map (Line.moved k), layout.symbols.moved d ++ base⟩ ∧
      ∀ name, symbols.lookup name = none → layout.symbols.lookup name = none ∨
        base.lookup name = none) ∨
    ∃ line name, Layout.ofLines (number + k) (offset + d) (symbols.moved d ++ base) texts =
        .error (.duplicateLabel (line + k) name) ∧
      layout.symbols.lookup name ≠ none ∧ base.lookup name ≠ none := by
  induction texts generalizing number offset symbols layout with
  | nil =>
    cases h
    exact Or.inl ⟨rfl, fun name hnone => Or.inl hnone⟩
  | cons text rest ih =>
    obtain ⟨line, known, behind, hparse, hdefine, hbehind, rfl⟩ := ofLines_cons_eq_ok h
    obtain ⟨-, -, hlookup⟩ := define_eq_ok hdefine
    have hdefined : ∀ name ∈ line.labels, behind.symbols.lookup name ≠ none := by
      intro name hm
      apply lookup_of_ofLines hbehind
      rw [hlookup name, if_pos hm]
      exact Option.some_ne_none _
    have hfit : line.labels ≠ [] → offset + d < UInt32.size := by
      intro hlabels
      obtain ⟨name, hm⟩ := List.exists_mem_of_ne_nil _ hlabels
      have hbound := hsize name (hdefined name hm)
      omega
    -- the first line either shares a label with what is known, or the lines behind it decide
    rcases define_moved k d hdefine hfit with ⟨hfree, hok⟩ | ⟨name, hm, hbase, herror⟩
    · have hrest : ∀ name, behind.symbols.lookup name ≠ none →
          offset + (statements [line]).length + d + behind.lines.length < UInt32.size := by
        intro name hname
        have hbound := hsize name hname
        rw [List.length_append, ← length_statements] at hbound
        omega
      have hnumber : number + k + 1 = number + 1 + k := Nat.add_right_comm number k 1
      have hoffset : offset + d + (statements [line.moved k]).length =
          offset + (statements [line]).length + d := Nat.add_right_comm offset d _
      rw [ofLines_cons rest (parse_moved k hparse) hok, hnumber, hoffset]
      rcases ih hbehind hrest with ⟨hlaid, hshare⟩ | ⟨found, name, herror, hname, hbase⟩
      · left
        rw [hlaid]
        have hone : [line.moved k].filter (fun line => line.statement.isSome) =
            ([line].filter fun line => line.statement.isSome).map (Line.moved k) :=
          List.filter_map (f := Line.moved k) (l := [line])
        refine ⟨?_, ?_⟩
        · rw [Except.map, List.map_append, hone]
        · intro name hnew
          by_cases hm : name ∈ line.labels
          · exact Or.inr (hfree name hm)
          · apply hshare
            rw [hlookup name, if_neg hm]
            exact hnew
      · right
        rw [herror]
        exact ⟨found, name, rfl, hname, hbase⟩
    · right
      refine ⟨number, name, ?_, hdefined name hm, hbase⟩
      rw [Layout.ofLines, parse_moved k hparse, ok_bind]
      exact congrArg (· >>= _) herror

end Moving

section Encoding

variable {symbols larger : SymbolTable} {number other : Nat}

/-- A statement keeps its word on another line and among more labels. -/
theorem encode_mono {s : Statement} {w : Word}
    (hmore : ∀ name value, symbols.lookup name = some value → larger.lookup name = some value)
    (h : s.encode number symbols = .ok w) : s.encode other larger = .ok w := by
  cases s with
  | instruction mnemonic operands =>
    obtain ⟨i, hi, h⟩ := bind_eq_ok_iff.mp h
    cases h
    obtain ⟨hop, hfits, rfl | ⟨a, value, name, rfl, rfl, hlookup⟩⟩ := toInstruction_eq_ok hi
    · rw [Statement.encode, toInstruction_of_mnemonic other larger hop hfits, ok_bind, pure_eq_ok]
    · have hmax : value ≤ Word.maxImmediate := hfits
      have himmediate : (Operand.datum (.label name)).toImmediate other larger = .ok value := by
        simp only [Operand.toImmediate, hmore name value hlookup, if_pos hmax]
      simp only [Statement.encode, Statement.toInstruction, hop, Instruction.opcode,
        Operand.toRegister, himmediate, ok_bind, pure_eq_ok]
  | word d =>
    cases d with
    | immediate value =>
      rw [Statement.encode, Datum.toWord] at h ⊢
      split at h
      · rename_i hrange
        rw [if_pos hrange]
        exact h
      · cases h
    | label name =>
      rw [Statement.encode, Datum.toWord] at h ⊢
      split at h
      · cases h
      · rename_i value hlookup
        rw [hmore name value hlookup]
        exact h

/-- The second pass succeeds when each statement has a word, and gives these words in order. On
which lines the statements stand does not matter. -/
theorem encodeLines_eq_ok_iff {lines : List Line} {p : Program} :
    Layout.encodeLines symbols lines = .ok p ↔
      List.Forall₂ (fun s w => ∃ number, Statement.encode number symbols s = .ok w)
        (statements lines) p := by
  refine ⟨encodeLines_eq_ok, fun h => ?_⟩
  induction lines generalizing p with
  | nil =>
    cases h
    rfl
  | cons line rest ih =>
    rw [statements_cons] at h
    rw [Layout.encodeLines]
    cases hs : line.statement with
    | none =>
      have hone : statements [line] = [] := by
        simp [statements, hs]
      rw [hone] at h
      exact ih h
    | some s =>
      have hone : statements [line] = [s] := by
        simp [statements, hs]
      rw [hone, List.singleton_append] at h
      obtain _ | ⟨⟨number, hw⟩, hrest⟩ := h
      simp only [encode_mono (fun _ _ hname => hname) hw, ih hrest, ok_bind]
      rfl

theorem encodeLines_append {front back : List Line} {p q : Program}
    (hp : Layout.encodeLines symbols front = .ok p) (hq : Layout.encodeLines symbols back = .ok q) :
    Layout.encodeLines symbols (front ++ back) = .ok (p ++ q) := by
  rw [encodeLines_eq_ok_iff] at hp hq ⊢
  rw [statements_append]
  exact List.rel_append hp hq

theorem encodeLines_moved {lines : List Line} {p : Program} (k : Nat)
    (hmore : ∀ name value, symbols.lookup name = some value → larger.lookup name = some value)
    (h : Layout.encodeLines symbols lines = .ok p) :
    Layout.encodeLines larger (lines.map (Line.moved k)) = .ok p := by
  have hsame : statements (lines.map (Line.moved k)) = statements lines := List.filterMap_map
  rw [encodeLines_eq_ok_iff] at h ⊢
  rw [hsame]
  apply h.imp
  rintro s w ⟨number, hw⟩
  exact ⟨number, encode_mono hmore hw⟩

end Encoding

section Sources

variable {front back : String} {a b : Layout}

theorem lookup_le_length {name : String} {value : Word} (ha : Layout.ofSource front = .ok a)
    (hname : a.symbols.lookup name = some value) : value.toNat ≤ a.lines.length := by
  obtain ⟨lines, -, hlaid⟩ := laid_of_ofLines ha
  rcases (hlaid.lookup_iff name value).mp hname with hnil | ⟨n, hn, hvalue⟩
  · cases hnil
  · have hle := hn.le_length
    rw [length_statements, ← hlaid.lines_eq] at hle
    omega

/-- A source behind another is laid out from the line behind it. -/
theorem ofSource_append (ha : Layout.ofSource front = .ok a) (back : String) :
    Layout.ofSource (front ++ "\n" ++ back) = (do
      let second ← Layout.ofLines (1 + (front.toList.count '\n' + 1)) (0 + a.lines.length) a.symbols
        (Text.lines back.toList)
      return ⟨a.lines ++ second.lines, second.symbols⟩) := by
  have htext : (front ++ "\n" ++ back).toList = front.toList ++ '\n' :: back.toList := by
    rw [String.toList_append, String.toList_append, List.append_assoc]
    rfl
  have hfront : Layout.ofLines 1 0 [] (Text.lines (front.toList ++ ['\n'])) = .ok a := by
    rw [ofLines_newline]
    exact ha
  rw [Layout.ofSource, htext, Text.lines_append, ofLines_append, hfront, ok_bind,
    Text.length_lines_newline]

/-- A source that can be laid out alone can be laid out behind another, unless they share a label.
-/
theorem ofSource_moved (ha : Layout.ofSource front = .ok a) (hb : Layout.ofSource back = .ok b)
    (hsize : ∀ name, b.symbols.lookup name ≠ none →
      a.lines.length + b.lines.length < UInt32.size) :
    (Layout.ofSource (front ++ "\n" ++ back) =
        .ok ⟨a.lines ++ b.lines.map (Line.moved (front.toList.count '\n' + 1)),
          b.symbols.moved a.lines.length ++ a.symbols⟩ ∧
      ∀ name, b.symbols.lookup name = none ∨ a.symbols.lookup name = none) ∨
    ∃ line name, Layout.ofSource (front ++ "\n" ++ back) =
        .error (.duplicateLabel (line + (front.toList.count '\n' + 1)) name) ∧
      b.symbols.lookup name ≠ none ∧ a.symbols.lookup name ≠ none := by
  have hbound : ∀ name, b.symbols.lookup name ≠ none →
      0 + a.lines.length + b.lines.length < UInt32.size := by
    intro name hname
    have hsum := hsize name hname
    omega
  have hnil : SymbolTable.moved a.lines.length [] ++ a.symbols = a.symbols := rfl
  rw [ofSource_append ha back, ← hnil]
  rcases ofLines_moved (front.toList.count '\n' + 1) a.lines.length hb hbound with
    ⟨hok, hshare⟩ | ⟨line, name, herror, hname⟩
  · rw [hok]
    exact Or.inl ⟨rfl, fun name => hshare name rfl⟩
  · rw [herror]
    exact Or.inr ⟨line, name, rfl, hname⟩

theorem offset?_moved_append (hb : Layout.ofSource back = .ok b) {d : Nat}
    {base : SymbolTable} {name : String} (hsize : d + b.lines.length < UInt32.size)
    (hshare : b.symbols.lookup name = none ∨ base.lookup name = none) :
    SymbolTable.offset? (b.symbols.moved d ++ base) name =
      (base.offset? name).or ((b.symbols.offset? name).map (· + d)) := by
  rw [SymbolTable.offset?, SymbolTable.offset?, SymbolTable.offset?, List.lookup_append,
    lookup_moved]
  cases hname : b.symbols.lookup name with
  | none =>
    rw [Option.map_none, Option.none_or, Option.map_none, Option.map_none, Option.or_none]
  | some value =>
    have hbase : base.lookup name = none := by
      rcases hshare with hnone | hnone
      · rw [hname] at hnone
        cases hnone
      · exact hnone
    have hle := lookup_le_length hb hname
    have hd : (UInt32.ofNat d).toNat = d := UInt32.toNat_ofNat_of_lt' (by omega)
    have hfits : value.toNat + d < UInt32.size := by omega
    have hsum : (value + UInt32.ofNat d).toNat = value.toNat + d := by
      rw [UInt32.toNat_add, hd]
      exact Nat.mod_eq_of_lt hfits
    rw [hbase, Option.map_some, Option.some_or, Option.map_some, hsum, Option.map_none,
      Option.none_or, Option.map_some, Option.map_some]

theorem symbols_eq_nil (h : ∀ name, b.symbols.lookup name = none) : b.symbols = [] := by
  cases hb : b.symbols with
  | nil => rfl
  | cons entry rest =>
    have hnone := h entry.1
    rw [hb, lookup_cons_eq_ite, if_pos rfl] at hnone
    cases hnone

/-- The first pass takes two sources one behind the other as it takes them alone, with the lines and
offsets of the second moved, and refuses them just when they share a label. So a source without
labels adds its words to those of the first; that it uses none follows, as it can be assembled. -/
theorem ofSource_append_newline (ha : Layout.ofSource front = .ok a)
    (hb : Layout.ofSource back = .ok b) :
    (a.lines.length + b.lines.length < UInt32.size →
      ((∀ name, a.symbols.lookup name = none ∨ b.symbols.lookup name = none) →
        ∃ symbols, Layout.ofSource (front ++ "\n" ++ back) =
            .ok ⟨a.lines ++ b.lines.map (Line.moved (front.toList.count '\n' + 1)), symbols⟩ ∧
          ∀ name, SymbolTable.offset? symbols name =
            (a.symbols.offset? name).or ((b.symbols.offset? name).map (· + a.lines.length))) ∧
      ((∃ name, a.symbols.lookup name ≠ none ∧ b.symbols.lookup name ≠ none) →
        ∃ line name, Layout.ofSource (front ++ "\n" ++ back) =
            .error (.duplicateLabel (line + (front.toList.count '\n' + 1)) name) ∧
          a.symbols.lookup name ≠ none ∧ b.symbols.lookup name ≠ none)) ∧
    ∀ p q, assemble front = .ok p → assemble back = .ok q →
      (∀ name, b.symbols.lookup name = none) →
      assemble (front ++ "\n" ++ back) = .ok (p ++ q) := by
  refine ⟨fun hsize => ?_, ?_⟩
  · rcases ofSource_moved ha hb fun _ _ => hsize with
      ⟨hok, hshare⟩ | ⟨line, name, herror, hback, hfront⟩
    · refine ⟨fun _ => ⟨_, hok, fun name => offset?_moved_append hb hsize (hshare name)⟩, ?_⟩
      rintro ⟨name, hfront, hback⟩
      rcases hshare name with hnone | hnone
      · exact absurd hnone hback
      · exact absurd hnone hfront
    · refine ⟨fun hdisjoint => ?_, fun _ => ⟨line, name, herror, hfront, hback⟩⟩
      rcases hdisjoint name with hnone | hnone
      · exact absurd hnone hfront
      · exact absurd hnone hback
  · intro p q hp hq hnone
    rcases ofSource_moved ha hb fun name hname => absurd (hnone name) hname with
      ⟨hok, -⟩ | ⟨line, name, -, hback, -⟩
    · rw [assemble, ha, ok_bind] at hp
      rw [assemble, hb, ok_bind] at hq
      rw [assemble, hok, ok_bind, symbols_eq_nil hnone]
      have hmore : ∀ name value, b.symbols.lookup name = some value →
          a.symbols.lookup name = some value := by
        intro name value hname
        rw [hnone name] at hname
        cases hname
      exact encodeLines_append hp (encodeLines_moved _ hmore hq)
    · exact absurd (hnone name) hback

theorem ofSource_append_newline_return :
    let front := "a: halt\r"
    (∃ symbols, Layout.ofSource (front ++ "\n" ++ "b: .word b") =
        .ok ⟨[⟨1, ["a"], some (.instruction "halt" [])⟩, ⟨2, ["b"], some (.word (.label "b"))⟩],
          symbols⟩ ∧
      SymbolTable.offset? symbols "b" = some 1) ∧
    assemble (front ++ "\n" ++ ".word 7") = .ok [0x70000000, 7] := by
  intro front
  have hfront : Layout.ofSource front =
      .ok ⟨[⟨1, ["a"], some (.instruction "halt" [])⟩], [("a", 0)]⟩ :=
    eq_ok_of_toOption (by decide +kernel)
  have hlabel : Layout.ofSource "b: .word b" =
      .ok ⟨[⟨1, ["b"], some (.word (.label "b"))⟩], [("b", 0)]⟩ :=
    eq_ok_of_toOption (by decide +kernel)
  have hplain : Layout.ofSource ".word 7" = .ok ⟨[⟨1, [], some (.word (.immediate 7))⟩], []⟩ :=
    eq_ok_of_toOption (by decide +kernel)
  have hcount : front.toList.count '\n' = 0 := by decide +kernel
  refine ⟨?_, ?_⟩
  · obtain ⟨symbols, hok, hsymbols⟩ :=
      ((ofSource_append_newline hfront hlabel).1 (by decide)).1 fun name => by
        rw [lookup_cons_eq_ite, lookup_cons_eq_ite]
        by_cases hname : name = "a"
        · subst hname
          exact Or.inr rfl
        · exact Or.inl (if_neg hname)
    rw [hcount] at hok
    exact ⟨symbols, hok, hsymbols "b"⟩
  · exact (ofSource_append_newline hfront hplain).2 [0x70000000] [7]
      (eq_ok_of_toOption (by decide +kernel)) (eq_ok_of_toOption (by decide +kernel))
      fun name => rfl

end Sources

end UniversalMachine.Assembly
