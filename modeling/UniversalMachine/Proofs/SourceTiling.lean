import UniversalMachine.Proofs.LongestMatch

/-! The items of a text and the gaps between them.
Together they cover the text from its first byte to its last. A gap holds blanks and comments only,
and each item is the longest run that a rule matches at its place, or one character where none does.
-/

namespace UniversalMachine.Assembly.Lexer

/-- A run that has a shape and stands for no token: a number that does not fit, or a character with
an unknown escape. -/
inductive Unfit : List Char → Prop where
  | number {text : List Char} : Shape.Matches .number text →
      numberValue text < signedMin ∨ signedMax < numberValue text → Unfit text
  | hex {text : List Char} : Shape.Matches .hex text →
      unsignedBound ≤ Digits.read 16 (text.drop 2) → Unfit text
  | binary {text : List Char} : Shape.Matches .binary text →
      unsignedBound ≤ Digits.read 2 (text.drop 2) → Unfit text
  | escape {c : Char} : Shape.Matches .char [quote, backslash, c, quote] →
      c ∉ ['n', 't', 'r', '0', backslash, quote] → Unfit [quote, backslash, c, quote]

/-- What an item says of its text and of the text behind it. -/
structure Scanned (text after : List Char) (found : Lexeme) : Prop where
  nonempty : text ≠ []
  longest : ∀ (rule : Shape) (run : List Char), rule.Matches run → run <+: text ++ after →
    run.length ≤ text.length
  matched : (∃ rule : Shape, isSkipped rule = false ∧ rule.Matches text) ∨
    (∀ (rule : Shape) (run : List Char), rule.Matches run → ¬ run <+: text ++ after) ∧
      ∃ c, text = [c] ∧ found = .invalid (String.singleton c)
  register_iff : ∀ r : Register, found = .token (.register r) ↔
    ∃ c d : Char, text = [c, d] ∧ (c = 'r' ∨ c = 'R') ∧ d.toNat = '0'.toNat + r.val
  invalid_text : ∀ s, found = .invalid s → s = String.ofList text
  unfit_iff : ((∃ s, found = .invalid s) ∧
      (1 < text.length ∨ ∃ (rule : Shape) (run : List Char), rule.Matches run ∧
        run <+: text ++ after)) ↔ Unfit text

/-- Blanks and comments in front of a text. A comment goes on to the end of its line. -/
inductive Skipped (after : List Char) : List Char → Prop where
  | nil : Skipped after []
  | blanks {run rest : List Char} : Shape.Matches .blank run → Skipped after rest →
      Skipped after (run ++ rest)
  | comment {run rest : List Char} : Shape.Matches .comment run →
      Stops (· != '\n') (rest ++ after) → Skipped after rest → Skipped after (run ++ rest)

section Values

variable {shape : Shape} {text : List Char}

theorem escape?_eq_none_iff {c : Char} :
    escape? c = none ↔ c ∉ ['n', 't', 'r', '0', backslash, quote] := by
  simp only [escape?, beq_iff_eq, List.mem_cons, List.not_mem_nil, or_false, not_or]
  split_ifs <;> simp_all

theorem number_eq_none_iff : token? .number text = none ↔
    numberValue text < signedMin ∨ signedMax < numberValue text := by
  simp only [token?, Bool.and_eq_true, decide_eq_true_eq]
  split
  · simp only [reduceCtorEq, false_iff]
    omega
  · simp only [true_iff]
    omega

theorem unsigned?_eq_none_iff {base : Nat} :
    unsigned? base text = none ↔ unsignedBound ≤ Digits.read base (text.drop 2) := by
  simp only [unsigned?]
  split
  · simp only [reduceCtorEq, false_iff]
    omega
  · simp only [true_iff]
    omega

theorem register_token? {c d : Char} {r : Register} (hd : d.toNat = '0'.toNat + r.val) :
    token? .register [c, d] = some (.register r) := by
  have hzero : '0'.toNat = 48 := rfl
  have hr := r.isLt
  have hdecimal : Digits.isDecimal d = true := by
    rw [isDecimal_iff]
    omega
  have hread : Digits.read 10 [d] = r.val := by
    simp only [Digits.read, List.foldl_cons, List.foldl_nil, Digits.value, hdecimal, if_true]
    omega
  simp only [token?, List.drop_succ_cons, List.drop_zero, hread, Register.ofIndex?, r.isLt,
    dite_true, Option.map_some]

theorem unfit_of_token? (h : shape.Matches text) (hs : isSkipped shape = false)
    (hnone : token? shape text = none) : Unfit text := by
  cases shape with
  | blank | comment => cases hs
  | identifier | directive | comma | colon | newline => cases hnone
  | register =>
    cases h with
    | register hc hd =>
      obtain ⟨r, hr⟩ := isRegisterDigit_iff.mp hd
      rw [register_token? hr] at hnone
      cases hnone
  | number => exact .number h (number_eq_none_iff.mp hnone)
  | hex => exact .hex h (unsigned?_eq_none_iff.mp (Option.map_eq_none_iff.mp hnone))
  | binary => exact .binary h (unsigned?_eq_none_iff.mp (Option.map_eq_none_iff.mp hnone))
  | char =>
    have hvalue := Option.map_eq_none_iff.mp hnone
    cases h with
    | char hquote hslash hnewline => simp [charValue?, hslash] at hvalue
    | escape hc => exact .escape (.escape hc) (escape?_eq_none_iff.mp hvalue)

end Values

section Finds

variable {c : Char} {rest : List Char} {shape : Shape} {more : Nat}

theorem shape_of_matches (h : longest? c rest = some (shape, more)) {rule : Shape}
    (hm : rule.Matches (c :: rest.take more)) :
    shape = rule ∨ rule = .identifier ∧ shape = .register := by
  have hle := (matches_longest? h).1
  obtain ⟨shape', more', h', -, heq⟩ :=
    outranks_of_matches hm (List.cons_prefix_cons.mpr ⟨rfl, List.take_prefix more rest⟩)
  rw [h] at h'
  cases h'
  apply heq
  rw [List.length_cons, List.length_take, Nat.min_eq_left hle]

theorem token?_of_unfit (h : longest? c rest = some (shape, more))
    (hu : Unfit (c :: rest.take more)) : token? shape (c :: rest.take more) = none := by
  generalize htext : c :: rest.take more = text at hu
  have hshape : ∀ rule : Shape, rule.Matches text → rule ≠ .identifier → shape = rule := by
    intro rule hm hne
    subst htext
    rcases shape_of_matches h hm with rfl | ⟨hname, -⟩
    · rfl
    · exact absurd hname hne
  cases hu with
  | number hm hv =>
    obtain rfl := hshape .number hm Shape.noConfusion
    exact number_eq_none_iff.mpr hv
  | hex hm hv =>
    obtain rfl := hshape .hex hm Shape.noConfusion
    exact Option.map_eq_none_iff.mpr (unsigned?_eq_none_iff.mpr hv)
  | binary hm hv =>
    obtain rfl := hshape .binary hm Shape.noConfusion
    exact Option.map_eq_none_iff.mpr (unsigned?_eq_none_iff.mpr hv)
  | escape hm hv =>
    obtain rfl := hshape .char hm Shape.noConfusion
    exact Option.map_eq_none_iff.mpr (escape?_eq_none_iff.mpr hv)

theorem Unfit.matches {text : List Char} (h : Unfit text) : ∃ rule : Shape, rule.Matches text := by
  cases h with
  | number hm | hex hm | binary hm | escape hm => exact ⟨_, hm⟩

theorem shape_of_register {text : List Char} {r : Register}
    (h : token? shape text = some (.register r)) : shape = .register := by
  cases shape with
  | register => rfl
  | blank | comment | identifier | directive | comma | colon | newline => cases h
  | number =>
    simp only [token?] at h
    split at h <;> cases h
  | hex | binary | char =>
    obtain ⟨value, -, hvalue⟩ := Option.map_eq_some_iff.mp h
    cases hvalue

theorem register_iff (h : longest? c rest = some (shape, more)) {r : Register} :
    token? shape (c :: rest.take more) = some (.register r) ↔
      ∃ x d : Char, c :: rest.take more = [x, d] ∧ (x = 'r' ∨ x = 'R') ∧
        d.toNat = '0'.toNat + r.val := by
  constructor
  · intro ht
    obtain rfl := shape_of_register ht
    have hm := (matches_longest? h).2
    generalize c :: rest.take more = text at ht hm
    cases hm with
    | register hc hd =>
      obtain ⟨r', hr'⟩ := isRegisterDigit_iff.mp hd
      rw [register_token? hr'] at ht
      cases ht
      exact ⟨_, _, rfl, hc, hr'⟩
  · rintro ⟨x, d, htext, hx, hd⟩
    have hm : Shape.Matches .register (c :: rest.take more) := by
      rw [htext]
      exact .register hx (isRegisterDigit_iff.mpr ⟨r, hd⟩)
    rcases shape_of_matches h hm with rfl | ⟨hname, -⟩
    · rw [htext, register_token? hd]
    · cases hname

theorem lexeme_eq_token_iff {text : List Char} {t : Token} :
    lexeme shape text = .token t ↔ token? shape text = some t := by
  rw [lexeme]
  split
  · rename_i u hu
    rw [hu, Lexeme.token.injEq, Option.some.injEq]
  · rename_i hnone
    simp [hnone]

theorem lexeme_eq_invalid_iff {text : List Char} {s : String} :
    lexeme shape text = .invalid s ↔ token? shape text = none ∧ s = String.ofList text := by
  rw [lexeme]
  split
  · rename_i u hu
    simp [hu]
  · rename_i hnone
    simp [hnone, eq_comm]

theorem scanned_of_longest? (h : longest? c rest = some (shape, more))
    (hs : isSkipped shape = false) :
    Scanned (c :: rest.take more) (rest.drop more) (lexeme shape (c :: rest.take more)) := by
  obtain ⟨hle, hmatch⟩ := matches_longest? h
  have hwhole : c :: rest.take more ++ rest.drop more = c :: rest := by
    rw [List.cons_append, List.take_append_drop]
  refine ⟨List.cons_ne_nil _ _, ?_, Or.inl ⟨shape, hs, hmatch⟩, ?_, ?_, ?_⟩
  · intro rule run hm hp
    rw [hwhole] at hp
    obtain ⟨shape', more', h', hlen, -⟩ := outranks_of_matches hm hp
    rw [h] at h'
    cases h'
    rwa [List.length_cons, List.length_take, Nat.min_eq_left hle]
  · intro r
    rw [lexeme_eq_token_iff, register_iff h]
  · intro s hinvalid
    exact (lexeme_eq_invalid_iff.mp hinvalid).2
  · constructor
    · rintro ⟨⟨s, hinvalid⟩, -⟩
      exact unfit_of_token? hmatch hs (lexeme_eq_invalid_iff.mp hinvalid).1
    · intro hu
      refine ⟨⟨_, lexeme_eq_invalid_iff.mpr ⟨token?_of_unfit h hu, rfl⟩⟩,
        Or.inr ⟨shape, _, hmatch, ?_⟩⟩
      exact List.prefix_append _ _

theorem scanned_of_none (h : longest? c rest = none) :
    Scanned [c] rest (.invalid (String.singleton c)) := by
  have hnone : ∀ (rule : Shape) (run : List Char), rule.Matches run → ¬ run <+: [c] ++ rest := by
    intro rule run hm hp
    rw [List.singleton_append] at hp
    obtain ⟨shape, more, h', -⟩ := outranks_of_matches hm hp
    rw [h] at h'
    cases h'
  refine ⟨List.cons_ne_nil _ _, ?_, Or.inr ⟨hnone, c, rfl, rfl⟩, ?_, ?_, ?_⟩
  · intro rule run hm hp
    exact absurd hp (hnone rule run hm)
  · intro r
    constructor
    · intro he
      cases he
    · rintro ⟨x, d, htext, -⟩
      cases htext
  · intro s hs
    cases hs
    rfl
  · constructor
    · rintro ⟨-, hlong | ⟨rule, run, hm, hp⟩⟩
      · exact absurd hlong (by simp)
      · exact absurd hp (hnone rule run hm)
    · intro hu
      obtain ⟨rule, hm⟩ := hu.matches
      exact absurd (List.prefix_append _ _) (hnone rule [c] hm)

end Finds

section Places

theorem byteLength_cons (c : Char) (text : List Char) :
    byteLength (c :: text) = c.utf8Size + byteLength text := rfl

theorem byteLength_append (front back : List Char) :
    byteLength (front ++ back) = byteLength front + byteLength back := by
  induction front with
  | nil => exact (Nat.zero_add _).symm
  | cons c front ih => rw [List.cons_append, byteLength_cons, byteLength_cons, ih, Nat.add_assoc]

theorem byteLength_pos {text : List Char} (h : text ≠ []) : 0 < byteLength text := by
  cases text with
  | nil => exact absurd rfl h
  | cons c text =>
    have hc := c.utf8Size_pos
    rw [byteLength_cons]
    omega

theorem byteLength_toList (s : String) : byteLength s.toList = s.utf8ByteSize := by
  have hsize : ∀ text : List Char, byteLength text = (String.ofList text).utf8ByteSize := by
    intro text
    induction text with
    | nil => rfl
    | cons c text ih =>
      rw [byteLength_cons, ih, String.ofList_cons, String.utf8ByteSize_append,
        String.utf8ByteSize_singleton]
  rw [hsize, String.ofList_toList]

/-- The bytes from `start` to `stop` are those of a piece of the text, with `after` behind it. -/
def Holds (text : List Char) (start stop : Nat) (piece after : List Char) : Prop :=
  ∃ before, text = before ++ piece ++ after ∧ start = byteLength before ∧
    stop = byteLength (before ++ piece)

/-- The places between items, from `start` to `stop`. -/
def gaps (start stop : Nat) : List Item → List (Nat × Nat)
  | [] => [(start, stop)]
  | item :: rest => (start, item.start) :: gaps item.stop stop rest

/-- A text behind `before` is cut into items and gaps, in turns. -/
inductive Tiled : List Char → List Char → List Item → Prop where
  | done {before gap : List Char} : Skipped [] gap → Tiled before gap []
  | item {before gap piece after : List Char} {found : Lexeme} {items : List Item} :
      Skipped (piece ++ after) gap → Scanned piece after found →
      Tiled (before ++ gap ++ piece) after items →
      Tiled before (gap ++ piece ++ after)
        (⟨found, byteLength (before ++ gap), byteLength (before ++ gap ++ piece)⟩ :: items)

variable {before rest : List Char} {items : List Item}

theorem Tiled.found {piece : List Char} {found : Lexeme} (hpiece : Scanned piece rest found)
    (h : Tiled (before ++ piece) rest items) :
    Tiled before (piece ++ rest)
      (⟨found, byteLength before, byteLength (before ++ piece)⟩ :: items) := by
  have hitem : Tiled before ([] ++ piece ++ rest) _ :=
    .item .nil hpiece (by rwa [List.append_nil])
  rwa [List.append_nil] at hitem

/-- What is skipped makes the first gap longer. -/
theorem Tiled.skip {run : List Char}
    (hskip : ∀ {gap after : List Char}, rest = gap ++ after → Skipped after gap →
      Skipped after (run ++ gap))
    (h : Tiled (before ++ run) rest items) : Tiled before (run ++ rest) items := by
  cases h with
  | done hgap => exact .done (hskip (List.append_nil _).symm hgap)
  | @item _ gap piece after found items hgap hpiece hrest =>
    rw [List.append_assoc before run gap] at hrest ⊢
    have hitem := Tiled.item (hskip (List.append_assoc _ _ _) hgap) hpiece hrest
    rwa [List.append_assoc run gap piece, List.append_assoc run] at hitem

theorem stops_drop_run (p : Char → Bool) (text : List Char) :
    Stops p (text.drop (run p text)) := by
  induction text with
  | nil => exact stops_nil p
  | cons c text ih =>
    by_cases hc : p c = true
    · rw [run, List.takeWhile_cons_of_pos hc]
      exact ih
    · rw [run, List.takeWhile_cons_of_neg hc]
      exact stops_cons (Bool.eq_false_iff.mpr hc) text

theorem skipped_of_longest? {c : Char} {shape : Shape} {more : Nat}
    (h : longest? c rest = some (shape, more)) (hs : isSkipped shape = true)
    {gap after : List Char} (hrest : rest.drop more = gap ++ after) (hgap : Skipped after gap) :
    Skipped after (c :: rest.take more ++ gap) := by
  have hm := (matches_longest? h).2
  cases shape with
  | blank => exact .blanks hm hgap
  | comment =>
    refine .comment hm ?_ hgap
    have hc : isCommentMark c = true := by
      cases hm with
      | comment hc hb => exact hc
    rw [longest?_comment hc] at h
    cases h
    rw [← hrest]
    exact stops_drop_run _ rest
  | _ => cases hs

theorem itemsFrom_tiled (before text : List Char) :
    Tiled before text (itemsFrom (byteLength before) text) := by
  generalize hstart : byteLength before = start
  fun_induction itemsFrom start text generalizing before with
  | case1 => exact .done .nil
  | case2 start c rest hl stop ih =>
    subst hstart
    have hstop : byteLength (before ++ [c]) = stop := byteLength_append before [c]
    have htail := ih (before ++ [c]) hstop
    rw [← hstop] at htail ⊢
    exact .found (scanned_of_none hl) htail
  | case3 start c rest shape more hl found stop behind hs ih =>
    subst hstart
    have htail := ih (before ++ found) (byteLength_append before found)
    have hskip := htail.skip fun hrest hgap => skipped_of_longest? hl hs hrest hgap
    rwa [List.cons_append, List.take_append_drop] at hskip
  | case4 start c rest shape more hl found stop behind hs ih =>
    subst hstart
    have hstop : byteLength (before ++ found) = stop := byteLength_append before found
    have htail := ih (before ++ found) hstop
    have hitem := Tiled.found (scanned_of_longest? hl (Bool.eq_false_iff.mpr hs)) htail
    rwa [List.cons_append, List.take_append_drop, hstop] at hitem

variable {text : List Char}

theorem byteLength_le_append (front back : List Char) :
    byteLength front ≤ byteLength (front ++ back) := by
  rw [byteLength_append]
  exact Nat.le_add_right _ _

theorem byteLength_lt_append (front : List Char) {back : List Char} (h : back ≠ []) :
    byteLength front < byteLength (front ++ back) := by
  have hpos := byteLength_pos h
  rw [byteLength_append]
  omega

theorem Tiled.item_holds (h : Tiled before text items) {item : Item} (hitem : item ∈ items) :
    byteLength before ≤ item.start ∧ item.start < item.stop ∧
      ∃ piece after, Holds (before ++ text) item.start item.stop piece after ∧
        Scanned piece after item.lexeme := by
  induction h with
  | done hgap => cases hitem
  | @item before gap piece after found items hgap hpiece hrest ih =>
    have hstart := byteLength_le_append before gap
    have hstop := byteLength_lt_append (before ++ gap) hpiece.nonempty
    rcases List.mem_cons.mp hitem with rfl | hitem
    · refine ⟨hstart, hstop, piece, after, ⟨before ++ gap, ?_, rfl, rfl⟩, hpiece⟩
      simp only [List.append_assoc]
    · obtain ⟨hle, hlt, hholds⟩ := ih hitem
      refine ⟨by omega, hlt, ?_⟩
      simpa only [List.append_assoc] using hholds

theorem Tiled.pairwise (h : Tiled before text items) :
    items.Pairwise fun i j => i.start < j.start ∧ i.stop ≤ j.start := by
  induction h with
  | done hgap => exact .nil
  | @item before gap piece after found items hgap hpiece hrest ih =>
    refine .cons ?_ ih
    intro item hitem
    have hle := (hrest.item_holds hitem).1
    have hstop := byteLength_lt_append (before ++ gap) hpiece.nonempty
    exact ⟨Nat.lt_of_lt_of_le hstop hle, hle⟩

theorem Tiled.gap_holds (h : Tiled before text items) {gap : Nat × Nat}
    (hgap : gap ∈ gaps (byteLength before) (byteLength (before ++ text)) items) :
    ∃ piece after, Holds (before ++ text) gap.1 gap.2 piece after ∧ Skipped after piece := by
  induction h with
  | @done before last hlast =>
    obtain rfl := List.mem_singleton.mp hgap
    exact ⟨last, [], ⟨before, (List.append_nil _).symm, rfl, rfl⟩, hlast⟩
  | @item before first piece after found items hfirst hpiece hrest ih =>
    rcases List.mem_cons.mp hgap with rfl | hgap
    · refine ⟨first, piece ++ after, ⟨before, ?_, rfl, rfl⟩, hfirst⟩
      simp only [List.append_assoc]
    · have hgap' := ih (by simpa only [List.append_assoc] using hgap)
      simpa only [List.append_assoc] using hgap'

end Places

/-- The items of a text lose nothing. Their places follow each other and start and end between
characters; what lies before, between and behind them is skipped; and each item is the longest run
that any rule matches at its place, or one character where no rule matches. -/
theorem items_tile (text : String) :
    (items text.toList).Pairwise (fun i j => i.start < j.start ∧ i.stop ≤ j.start) ∧
    (∀ item ∈ items text.toList, item.start < item.stop ∧
      ∃ piece after, Holds text.toList item.start item.stop piece after ∧
        Scanned piece after item.lexeme) ∧
    ∀ gap ∈ gaps 0 text.utf8ByteSize (items text.toList),
      ∃ piece after, Holds text.toList gap.1 gap.2 piece after ∧ Skipped after piece := by
  have htiled := itemsFrom_tiled [] text.toList
  refine ⟨htiled.pairwise, ?_, ?_⟩
  · intro item hitem
    exact (htiled.item_holds hitem).2
  · intro gap hgap
    rw [← byteLength_toList] at hgap
    exact htiled.gap_holds hgap

example : items "r7 r70'é'#".toList = [⟨.token (.register 7), 0, 2⟩,
    ⟨.token (.identifier "r70"), 3, 6⟩, ⟨.token (.char 'é'), 6, 10⟩] := by
  decide +kernel

end UniversalMachine.Assembly.Lexer
