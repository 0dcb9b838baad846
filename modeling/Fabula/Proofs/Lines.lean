import Fabula.Proofs.Words
import Fabula.Text.Pieces

/-!
# Lines of joined texts

Where a line feed stands between two texts, the lines of the whole are those
of the first text and then those of the second.  The seam differs in two ways
from the end of the first text: a carriage return may be dropped there, and an
empty line may be added.  No reader of lines notices either.
-/

namespace Fabula.Text

/-! ## Cuts at a character -/

theorem length_splitOn (c : Char) (text : List Char) :
    (text.splitOn c).length = text.count c + 1 := by
  induction text with
  | nil => simp
  | cons d rest ih =>
      rw [List.splitOn_cons_eq_if_modifyHead]
      by_cases same : d = c
      · simp [same, ih]
      · simp [same, ih]

/-- A character that is no separator goes to the last segment of a text. -/
theorem exists_splitOn_append {c d : Char} (other : d ≠ c) (text : List Char) :
    ∃ before last, text.splitOn c = before ++ [last] ∧
      (text ++ [d]).splitOn c = before ++ [last ++ [d]] := by
  induction text with
  | nil => exact ⟨[], [], by simp, by simp [List.splitOn_cons_eq_if_modifyHead, other]⟩
  | cons e rest ih =>
      rcases ih with ⟨before, last, split, longer⟩
      rw [List.cons_append, List.splitOn_cons_eq_if_modifyHead, List.splitOn_cons_eq_if_modifyHead,
        split, longer]
      by_cases separates : e = c
      · exact ⟨[] :: before, last, by simp [separates], by simp [separates]⟩
      · cases before with
        | nil => exact ⟨[], e :: last, by simp [separates], by simp [separates]⟩
        | cons first before =>
            exact ⟨(e :: first) :: before, last, by simp [separates], by simp [separates]⟩

/-- A text with one more character is cut where the text is, unless it is cut at this character. -/
theorem cut?_append {c d : Char} (other : d ≠ c) (text : List Char) :
    cut? [c] (text ++ [d]) =
      (cut? [c] text).map fun (before, after) => (before, after ++ [d]) := by
  cases found : cut? [c] text with
  | some divided =>
      rcases divided with ⟨before, after⟩
      rcases cut?_singleton.mp found with ⟨rfl, absent⟩
      exact cut?_singleton.mpr ⟨by simp, absent⟩
  | none =>
      rw [Option.map_none, Option.eq_none_iff_forall_ne_some]
      rintro ⟨before, after⟩ longer
      rcases cut?_singleton.mp longer with ⟨split, absent⟩
      rcases List.eq_nil_or_concat after with rfl | ⟨shorter, last, rfl⟩
      · have ends := List.append_inj' split rfl
        exact other (List.cons.inj ends.2).1
      · have regrouped :
            before ++ c :: shorter.concat last = (before ++ c :: shorter) ++ [last] := by
          simp
        have shorterSplit := (List.append_inj' (split.trans regrouped) rfl).1
        rw [cut?_singleton.mpr ⟨shorterSplit, absent⟩] at found
        cases found

/-! ## Line ends -/

theorem dropReturn_cases (line : List Char) :
    dropReturn line = line ∨ line = dropReturn line ++ ['\r'] := by
  rw [dropReturn]
  split
  · rename_i ended
    exact .inr (List.dropLast_append_getLast? '\r' ended).symm
  · exact .inl rfl

/-- A view of segments that overlooks a blank at their end overlooks one at the end of the text. -/
theorem map_splitOn_append {β : Type} {c blank : Char} (other : blank ≠ c)
    {view : List Char → β} (overlooks : ∀ segment, view (segment ++ [blank]) = view segment)
    (text : List Char) :
    ((text ++ [blank]).splitOn c).map view = (text.splitOn c).map view := by
  rcases exists_splitOn_append other text with ⟨before, last, split, longer⟩
  rw [split, longer, List.map_append, List.map_append, List.map_singleton, List.map_singleton,
    overlooks]

theorem parts_append_blank {c blank : Char} (other : blank ≠ c) (isBlank : isBlank blank)
    (text : List Char) : parts c (text ++ [blank]) = parts c text := by
  rw [parts, parts, map_splitOn_append other (trim_append_blank isBlank)]

theorem trim_dropReturn (line : List Char) : trim (dropReturn line) = trim line := by
  rcases dropReturn_cases line with same | ended
  · rw [same]
  · conv_rhs => rw [ended]
    rw [trim_append_blank (by decide)]

/-! ## Joined texts -/

theorem lines_closed (text : List Char) :
    lines (text ++ ['\n']) = (text.splitOn '\n').map dropReturn := by
  have closed : (text ++ ['\n']).splitOn '\n' = text.splitOn '\n' ++ [[]] :=
    List.splitOn_append_cons_self text []
  simp [lines, closed]

/-- The last line of a text, if it is not empty, against the same line with a line feed after it. -/
theorem exists_last_line (text : List Char) :
    ∃ before last, lines text = before ++ (if last.isEmpty then [] else [last]) ∧
      lines (text ++ ['\n']) = before ++ [dropReturn last] := by
  have nonempty : text.splitOn '\n' ≠ [] := List.splitOn_ne_nil _ _
  have last : (text.splitOn '\n').getLastD [] = (text.splitOn '\n').getLast nonempty := by
    simp [List.getLastD_eq_getLast?, List.getLast?_eq_some_getLast nonempty]
  refine ⟨(text.splitOn '\n').dropLast.map dropReturn, (text.splitOn '\n').getLastD [], rfl, ?_⟩
  rw [lines_closed, last]
  conv_lhs => rw [← List.dropLast_append_getLast nonempty]
  exact List.map_append

theorem length_lines_closed (text : List Char) :
    (lines (text ++ ['\n'])).length = text.count '\n' + 1 := by
  rw [lines_closed, List.length_map, length_splitOn]

/-- The lines of two texts with a line feed between them. -/
theorem lines_append (first others : List Char) :
    lines (first ++ '\n' :: others) = lines (first ++ ['\n']) ++ lines others := by
  have nonempty : others.splitOn '\n' ≠ [] := List.splitOn_ne_nil _ _
  rw [lines_closed, lines, lines, List.splitOn_append_cons_self]
  simp [List.dropLast_append_of_ne_nil nonempty, List.getLastD_eq_getLast?,
    List.getLast?_append, List.getLast?_eq_some_getLast nonempty]

/-- What overlooks empty lines and carriage returns finds the same in a text that is closed. -/
theorem filterMap_lines_closed {β : Type} {find : List Char → Option β}
    (overlooks : ∀ line, find (dropReturn line) = find line) (nothing : find [] = none)
    (text : List Char) :
    (lines (text ++ ['\n'])).filterMap find = (lines text).filterMap find := by
  rcases exists_last_line text with ⟨before, last, open_, closed⟩
  rw [open_, closed, List.filterMap_append, List.filterMap_append]
  congr 1
  cases last with
  | nil => simp [dropReturn, nothing]
  | cons c rest => simp [List.filterMap_cons, overlooks]

end Fabula.Text
