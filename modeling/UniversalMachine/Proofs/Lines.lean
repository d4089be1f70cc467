import UniversalMachine.Text
import Mathlib.Data.List.TakeWhile

/-! Texts put together from lines, with an end behind each line or only between them, split into
these lines again. -/

namespace UniversalMachine.Text

theorem bne_newline {text : List Char} (h : '\n' ∉ text) : ∀ c ∈ text, (c != '\n') = true := by
  intro c hc
  exact bne_iff_ne.mpr fun e => h (e ▸ hc)

theorem split_at_newline {text : List Char} (h : '\n' ∉ text) (rest : List Char) :
    (text ++ '\n' :: rest).takeWhile (· != '\n') = text ∧
      (text ++ '\n' :: rest).dropWhile (· != '\n') = '\n' :: rest := by
  rw [List.takeWhile_append_of_pos (bne_newline h), List.dropWhile_append_of_pos (bne_newline h)]
  simp

theorem lines_append_newline {text : List Char} (h : '\n' ∉ text) (rest : List Char) :
    lines (text ++ '\n' :: rest) = dropReturn text :: lines rest := by
  obtain ⟨ht, hd⟩ := split_at_newline h rest
  rw [lines]
  split
  · rename_i he
    rw [hd] at he
    cases he
  · rename_i he
    rw [hd] at he
    cases he
    rw [ht]

theorem lines_nil : lines [] = [] := by
  rw [lines]
  simp

theorem lines_of_not_mem {text : List Char} (h : '\n' ∉ text) (hne : text ≠ []) :
    lines text = [text] := by
  have hd : text.dropWhile (· != '\n') = [] := List.dropWhile_eq_nil_iff.mpr (bne_newline h)
  rw [lines]
  split
  · simp [hne]
  · rename_i he
    rw [hd] at he
    cases he

/-- A text is its last line, or a line with its end and the text behind it. -/
@[elab_as_elim]
theorem lines_induction {motive : List Char → Prop} (text : List Char)
    (last : ∀ text, '\n' ∉ text → motive text)
    (line : ∀ text rest, '\n' ∉ text → motive rest → motive (text ++ '\n' :: rest)) :
    motive text := by
  generalize hlength : text.length = length
  induction length using Nat.strongRecOn generalizing text with
  | ind length ih =>
    by_cases hmem : '\n' ∈ text
    · obtain ⟨front, rest, rfl, hfront⟩ := List.eq_append_cons_of_mem hmem
      rw [List.length_append, List.length_cons] at hlength
      exact line front rest hfront (ih rest.length (by omega) rest rfl)
    · exact last text hmem

/-- A line end splits a text into two whose lines are split apart. -/
theorem lines_append (text rest : List Char) :
    lines (text ++ '\n' :: rest) = lines (text ++ ['\n']) ++ lines rest := by
  induction text using lines_induction with
  | last text h =>
    rw [lines_append_newline h, lines_append_newline h, lines_nil]
    rfl
  | line text behind h ih =>
    rw [List.append_assoc, List.append_assoc, List.cons_append, List.cons_append,
      lines_append_newline h, lines_append_newline h, ih, List.cons_append]

theorem length_lines_newline (text : List Char) :
    (lines (text ++ ['\n'])).length = text.count '\n' + 1 := by
  induction text using lines_induction with
  | last text h =>
    rw [lines_append_newline h, lines_nil, List.count_eq_zero.mpr h]
    rfl
  | line text behind h ih =>
    rw [List.append_assoc, List.cons_append, lines_append_newline h, List.length_cons, ih,
      List.count_append, List.count_cons_self, List.count_eq_zero.mpr h, Nat.zero_add]

/-- The texts that have these lines. A line ends at a newline, with or without a carriage return
before it; the last line may have no end. -/
inductive Written : List (List Char) → List Char → Prop where
  | nil : Written [] []
  | last {line : List Char} : '\n' ∉ line → Written [line] line
  | line {line ending text : List Char} {lines : List (List Char)} : '\n' ∉ line →
      ending = ['\n'] ∨ ending = ['\r', '\n'] → Written lines text →
      Written (line :: lines) (line ++ ending ++ text)

theorem Written.not_mem {lines : List (List Char)} {text : List Char} (h : Written lines text) :
    ∀ line ∈ lines, '\n' ∉ line := by
  induction h with
  | nil => exact List.forall_mem_nil _
  | last hline => exact List.forall_mem_singleton.mpr hline
  | line hline _ _ ih => exact List.forall_mem_cons.mpr ⟨hline, ih⟩

/-- A text holds the characters of its lines. -/
theorem Written.subset {lines : List (List Char)} {text : List Char} (h : Written lines text) :
    ∀ line ∈ lines, line ⊆ text := by
  induction h with
  | nil => exact List.forall_mem_nil _
  | last _ => exact List.forall_mem_singleton.mpr (List.Subset.refl _)
  | @line line ending text lines _ _ _ ih =>
    refine List.forall_mem_cons.mpr ⟨?_, fun other hother => ?_⟩
    · rw [List.append_assoc]
      exact List.subset_append_left _ _
    · exact List.subset_append_of_subset_right _ (ih other hother)

theorem written_lines (text : List Char) : Written (lines text) text := by
  induction text using lines_induction with
  | last text h =>
    by_cases hempty : text = []
    · rw [hempty, lines_nil]
      exact .nil
    · rw [lines_of_not_mem h hempty]
      exact .last h
  | line text rest h ih =>
    rw [lines_append_newline h, dropReturn]
    by_cases hlast : text.getLast? = some '\r'
    · obtain ⟨front, rfl⟩ := List.getLast?_eq_some_iff.mp hlast
      have hfront : '\n' ∉ front := fun hm => h (List.mem_append_left _ hm)
      have htext : front ++ ['\r'] ++ '\n' :: rest = front ++ ['\r', '\n'] ++ rest := by simp
      rw [if_pos hlast, List.dropLast_concat, htext]
      exact .line hfront (Or.inr rfl) ih
    · have htext : text ++ '\n' :: rest = text ++ ['\n'] ++ rest := by simp
      rw [if_neg hlast, htext]
      exact .line h (Or.inl rfl) ih

/-- The text of the first `k` lines, with their ends. -/
def firstLines : Nat → List Char → List Char
  | 0, _ => []
  | k + 1, text =>
    text.takeWhile (· != '\n') ++
      match text.dropWhile (· != '\n') with
      | [] => []
      | newline :: rest => newline :: firstLines k rest

theorem firstLines_of_not_mem {text : List Char} (h : '\n' ∉ text) (k : Nat) :
    firstLines (k + 1) text = text := by
  have hd : text.dropWhile (· != '\n') = [] := List.dropWhile_eq_nil_iff.mpr (bne_newline h)
  have ht : text.takeWhile (· != '\n') = text := List.takeWhile_eq_self_iff.mpr (bne_newline h)
  rw [firstLines, hd, ht]
  exact List.append_nil text

theorem firstLines_newline {text : List Char} (h : '\n' ∉ text) (rest : List Char) (k : Nat) :
    firstLines (k + 1) (text ++ '\n' :: rest) = text ++ '\n' :: firstLines k rest := by
  obtain ⟨ht, hd⟩ := split_at_newline h rest
  rw [firstLines, hd, ht]

theorem lines_firstLines (k : Nat) (text : List Char) :
    lines (firstLines k text) = (lines text).take k := by
  induction text using lines_induction generalizing k with
  | last text h =>
    cases k with
    | zero => exact lines_nil
    | succ k =>
      rw [firstLines_of_not_mem h]
      by_cases hempty : text = []
      · rw [hempty, lines_nil, List.take_nil]
      · rw [lines_of_not_mem h hempty, List.take_succ_cons, List.take_nil]
  | line text rest h ih =>
    cases k with
    | zero => exact lines_nil
    | succ k =>
      rw [firstLines_newline h, lines_append_newline h, lines_append_newline h, ih,
        List.take_succ_cons]

/-- A text that can be a whole line, whatever ends it. -/
structure IsLine (text : List Char) : Prop where
  no_newline : '\n' ∉ text
  no_return : '\r' ∉ text

theorem IsLine.dropReturn {text : List Char} (h : IsLine text) : dropReturn text = text := by
  rw [Text.dropReturn, if_neg]
  intro he
  exact h.no_return (List.mem_of_getLast? he)

@[simp] theorem isLine_nil : IsLine [] := ⟨List.not_mem_nil, List.not_mem_nil⟩

@[simp] theorem isLine_cons_iff {c : Char} {text : List Char} :
    IsLine (c :: text) ↔ (c ≠ '\n' ∧ c ≠ '\r') ∧ IsLine text := by
  constructor
  · rintro ⟨hn, hr⟩
    simp only [List.mem_cons, not_or] at hn hr
    exact ⟨⟨Ne.symm hn.1, Ne.symm hr.1⟩, hn.2, hr.2⟩
  · rintro ⟨⟨hn, hr⟩, h⟩
    constructor <;> simp only [List.mem_cons, not_or]
    · exact ⟨Ne.symm hn, h.no_newline⟩
    · exact ⟨Ne.symm hr, h.no_return⟩

@[simp] theorem isLine_append_iff {s t : List Char} : IsLine (s ++ t) ↔ IsLine s ∧ IsLine t := by
  induction s with
  | nil => simp
  | cons c s ih => simp only [List.cons_append, isLine_cons_iff, ih, and_assoc]

/-- A class of characters that holds neither line end gives lines only. -/
theorem IsLine.of_forall {p : Char → Bool} (hn : p '\n' = false) (hr : p '\r' = false)
    {text : List Char} (h : ∀ c ∈ text, p c = true) : IsLine text := by
  constructor
  · intro hm
    exact Bool.false_ne_true (hn.symm.trans (h _ hm))
  · intro hm
    exact Bool.false_ne_true (hr.symm.trans (h _ hm))

theorem lines_flatMap_newline {texts : List (List Char)} (h : ∀ t ∈ texts, IsLine t)
    (rest : List Char) : lines (texts.flatMap (· ++ ['\n']) ++ rest) = texts ++ lines rest := by
  induction texts with
  | nil => rfl
  | cons t texts ih =>
    have ht := h t List.mem_cons_self
    have htail := ih fun u hu => h u (List.mem_cons_of_mem t hu)
    rw [List.flatMap_cons, List.append_assoc, List.append_assoc, List.singleton_append,
      lines_append_newline ht.no_newline, ht.dropReturn, htail]
    rfl

theorem lines_intercalate_newline {texts : List (List Char)} (h : ∀ t ∈ texts, IsLine t ∧ t ≠ []) :
    lines (['\n'].intercalate texts) = texts := by
  induction texts with
  | nil => exact lines_nil
  | cons t texts ih =>
    obtain ⟨ht, hne⟩ := h t List.mem_cons_self
    have htail := ih fun u hu => h u (List.mem_cons_of_mem t hu)
    cases texts with
    | nil =>
      rw [List.intercalate_singleton]
      exact lines_of_not_mem ht.no_newline hne
    | cons u us =>
      rw [List.intercalate_cons_cons, List.append_assoc, List.singleton_append,
        lines_append_newline ht.no_newline, ht.dropReturn, htail]

end UniversalMachine.Text
