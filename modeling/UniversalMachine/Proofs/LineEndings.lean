import UniversalMachine.Proofs.Comments

/-! The ends of lines.
A carriage return in front of a newline is cut off with it or read as a blank, and in neither case
can it be seen. So a source may be stored with either line end: it has the same labels and the same
program, or it is refused for the same reason at the same place. -/

namespace UniversalMachine

namespace Text

/-- A text with a carriage return put in front of each newline. -/
def withReturns (text : List Char) : List Char :=
  text.flatMap fun c => if c = '\n' then ['\r', '\n'] else [c]

variable {text : List Char}

theorem withReturns_of_not_mem (h : '\n' ∉ text) : withReturns text = text := by
  induction text with
  | nil => rfl
  | cons c text ih =>
    obtain ⟨hc, htext⟩ := not_or.mp (mt List.mem_cons.mpr h)
    rw [withReturns, List.flatMap_cons, if_neg (Ne.symm hc), List.singleton_append]
    exact congrArg (c :: ·) (ih htext)

theorem withReturns_append_newline (h : '\n' ∉ text) (rest : List Char) :
    withReturns (text ++ '\n' :: rest) = text ++ ['\r', '\n'] ++ withReturns rest := by
  have hfront := withReturns_of_not_mem h
  rw [withReturns] at hfront
  rw [withReturns, List.flatMap_append, hfront, List.flatMap_cons, if_pos rfl, List.append_assoc,
    withReturns]

/-- A text can be cut into lines that it keeps when its line ends change. These are not the lines
that `lines` gives: where a line ended in a carriage return already, that one stays with the
line. -/
theorem exists_written_withReturns (text : List Char) :
    ∃ lines, Written lines text ∧ Written lines (withReturns text) := by
  induction text using lines_induction with
  | last text h =>
    rw [withReturns_of_not_mem h]
    exact ⟨[text], .last h, .last h⟩
  | line text rest h ih =>
    obtain ⟨lines, hrest, hreturns⟩ := ih
    have htext : text ++ '\n' :: rest = text ++ ['\n'] ++ rest := by simp
    rw [withReturns_append_newline h, htext]
    exact ⟨text :: lines, .line h (.inl rfl) hrest, .line h (.inr rfl) hreturns⟩

end Text

namespace Assembly

/-- Sources that are written with the same lines are laid out alike. -/
theorem ofSource_eq_of_written {texts : List (List Char)} {source other : String}
    (hsource : Text.Written texts source.toList) (hother : Text.Written texts other.toList) :
    Layout.ofSource other = Layout.ofSource source := by
  rw [Layout.ofSource, Layout.ofSource, ofLines_written hsource, ofLines_written hother]

/-- The line ends of a source do not matter, whatever stands in front of them: with a carriage
return put in front of each newline it has the same layout and the same program, or the same
error. -/
theorem assemble_withReturns (source : String) :
    Layout.ofSource (String.ofList (Text.withReturns source.toList)) = Layout.ofSource source ∧
      assemble (String.ofList (Text.withReturns source.toList)) = assemble source := by
  obtain ⟨texts, hsource, hreturns⟩ := Text.exists_written_withReturns source.toList
  rw [← String.toList_ofList (l := Text.withReturns source.toList)] at hreturns
  have hlayout := ofSource_eq_of_written hsource hreturns
  refine ⟨hlayout, ?_⟩
  rw [assemble, assemble, hlayout]

/-- A line that ends in a return already, a return in a comment, and an open quote at the end. -/
example : assemble (String.ofList (Text.withReturns "halt\r\n;\r\n 'a\n'".toList)) =
    .error (.malformed 3 2 (.unexpectedInput "'")) := by decide +kernel

end Assembly

end UniversalMachine
