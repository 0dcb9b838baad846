import Fabula.Text.Numeral
import Fabula.Text.Pieces
import Mathlib.Data.List.Infix

/-!
# Marks and numbers in texts

Where a text is cut does not depend on what stands behind the mark, and a
number that was written in decimal is read again, zeros before it included.
-/

namespace Fabula.Text

/-! ## Marks -/

theorem isPrefixOf?_eq_none {mark text : List Char} :
    mark.isPrefixOf? text = none ↔ ¬mark <+: text := by
  rw [Option.eq_none_iff_forall_ne_some]
  simp only [ne_eq, List.isPrefixOf?_eq_some_iff_append_eq]
  rw [← not_exists]
  rfl

theorem append_dropLast_isPrefix (piece mark after : List Char) :
    piece ++ mark.dropLast <+: piece ++ mark ++ after := by
  rw [List.append_assoc, List.prefix_append_right_inj]
  exact (List.dropLast_prefix mark).trans (List.prefix_append mark after)

/--
Where a mark stands behind a piece for the first time, the text begins with
the mark only if the piece is empty.
-/
theorem eq_nil_of_mark_isPrefix {mark piece after : List Char}
    (first : ¬mark <:+: piece ++ mark.dropLast) (begins : mark <+: piece ++ mark ++ after) :
    piece = [] := by
  by_contra longer
  have fits : mark.length ≤ (piece ++ mark.dropLast).length := by
    have positive := List.length_pos_iff.mpr longer
    rw [List.length_append, List.length_dropLast]
    omega
  have within := append_dropLast_isPrefix piece mark after
  exact first (List.prefix_of_prefix_length_le begins within fits).isInfix

theorem not_infix_dropLast {mark : List Char} (nonempty : mark ≠ []) :
    ¬mark <:+: mark.dropLast := by
  intro occurs
  have shorter := occurs.length_le
  have positive := List.length_pos_iff.mpr nonempty
  rw [List.length_dropLast] at shorter
  omega

theorem cutFrom?_eq_some {mark text passed before after : List Char} (nonempty : mark ≠ []) :
    cutFrom? mark passed text = some (before, after) ↔
      ∃ piece, before = passed.reverse ++ piece ∧ text = piece ++ mark ++ after ∧
        ¬mark <:+: piece ++ mark.dropLast := by
  induction text generalizing passed with
  | nil => simp [cutFrom?, nonempty]
  | cons c rest ih =>
      cases begins : mark.isPrefixOf? (c :: rest) with
      | some behind =>
          have occurs := List.isPrefixOf?_eq_some_iff_append_eq.mp begins
          simp only [cutFrom?, begins, Option.some.injEq, Prod.mk.injEq]
          constructor
          · rintro ⟨rfl, rfl⟩
            exact ⟨[], by simp, occurs.symm, not_infix_dropLast nonempty⟩
          · rintro ⟨piece, rfl, split, first⟩
            cases eq_nil_of_mark_isPrefix first ⟨behind, occurs.trans split⟩
            rw [split, List.nil_append, List.append_cancel_left_eq] at occurs
            simp [occurs]
      | none =>
          have elsewhere := isPrefixOf?_eq_none.mp begins
          simp only [cutFrom?, begins, ih]
          constructor
          · rintro ⟨piece, rfl, rfl, first⟩
            refine ⟨c :: piece, by simp, rfl, ?_⟩
            rw [List.cons_append, List.infix_cons_iff, not_or]
            exact ⟨fun earlier =>
              elsewhere (earlier.trans (append_dropLast_isPrefix (c :: piece) mark after)), first⟩
          · rintro ⟨piece, rfl, split, first⟩
            cases piece with
            | nil => exact absurd ⟨after, split.symm⟩ elsewhere
            | cons d piece =>
                cases split
                exact ⟨piece, by simp, rfl, fun occurs => first (List.infix_cons occurs)⟩

/-- A text is cut where a mark occurs for the first time. -/
theorem cut?_eq_some {mark text before after : List Char} (nonempty : mark ≠ []) :
    cut? mark text = some (before, after) ↔
      text = before ++ mark ++ after ∧ ¬mark <:+: before ++ mark.dropLast := by
  rw [cut?, cutFrom?_eq_some nonempty]
  constructor
  · rintro ⟨piece, rfl, split, first⟩
    exact ⟨split, first⟩
  · rintro ⟨split, first⟩
    exact ⟨before, rfl, split, first⟩

theorem cutFrom?_eq_none {mark text passed : List Char} (nonempty : mark ≠ []) :
    cutFrom? mark passed text = none ↔ ¬mark <:+: text := by
  induction text generalizing passed with
  | nil => simp [cutFrom?, nonempty]
  | cons c rest ih =>
      cases begins : mark.isPrefixOf? (c :: rest) with
      | some behind =>
          have occurs := List.isPrefixOf?_eq_some_iff_append_eq.mp begins
          have isInfix : mark <:+: c :: rest := List.IsPrefix.isInfix ⟨behind, occurs⟩
          simp [cutFrom?, begins, isInfix]
      | none =>
          rw [List.infix_cons_iff]
          simp only [cutFrom?, begins, ih, isPrefixOf?_eq_none.mp begins, false_or]

/-- A text is not cut if the mark does not occur in it. -/
theorem cut?_eq_none {mark text : List Char} (nonempty : mark ≠ []) :
    cut? mark text = none ↔ ¬mark <:+: text :=
  cutFrom?_eq_none nonempty

/-- A mark does not reach into what stands behind a text if its last character is not there. -/
theorem infix_of_infix_append {mark text other : List Char} {last : Char}
    (ends : mark.getLast? = some last) (absent : last ∉ other) (occurs : mark <:+: text ++ other) :
    mark <:+: text := by
  induction other using List.reverseRecOn with
  | nil => simpa using occurs
  | append_singleton other c ih =>
      rw [List.mem_append, not_or, List.mem_singleton] at absent
      rw [← List.append_assoc, List.infix_concat_iff] at occurs
      rcases occurs with final | earlier
      · rcases List.suffix_concat_iff.mp final with rfl | ⟨start, rfl, _⟩
        · cases ends
        · rw [List.getLast?_concat, Option.some.injEq] at ends
          exact absurd ends.symm absent.2
      · exact ih absent.1 earlier

/-! ## Numbers -/

/-- A number in decimal, behind so many zeros. -/
def numeral (zeros number : Nat) : List Char :=
  List.replicate zeros '0' ++ Nat.toDigits 10 number

theorem toList_toString (number : Nat) : (toString number).toList = numeral 0 number := by
  rw [Nat.toString_eq_repr, Nat.toList_repr, numeral, List.replicate_zero, List.nil_append]

theorem toList_padded (width number : Nat) :
    (padded width number).toList =
      numeral (width - (Nat.toDigits 10 number).length) number := by
  simp [padded, numeral]

theorem numeral_ne_nil (zeros number : Nat) : numeral zeros number ≠ [] := by
  simp [numeral, Nat.toDigits_ne_nil]

theorem isDigit_of_mem_numeral {zeros number : Nat} {c : Char}
    (member : c ∈ numeral zeros number) : c.isDigit := by
  rcases List.mem_append.mp member with zero | digit
  · rw [List.eq_of_mem_replicate zero]
    rfl
  · exact Nat.isDigit_of_mem_toDigits (by decide) (by decide) digit

theorem digitsValue_numeral (zeros number : Nat) : digitsValue (numeral zeros number) = number := by
  show Nat.ofDigitChars 10 (List.replicate zeros '0' ++ Nat.toDigits 10 number) 0 = number
  rw [Nat.ofDigitChars_append, Nat.ofDigitChars_replicate_zero, Nat.mul_zero,
    Nat.ofDigitChars_ten_toDigits]

/-- Digits stand for a number below a bound. -/
structure StandsFor (bound : Nat) (digits : List Char) (number : Nat) : Prop where
  nonempty : digits ≠ []
  isDigit : ∀ c ∈ digits, c.isDigit
  value : digitsValue digits = number
  below : number < bound

theorem readDigits?_eq_some {bound number : Nat} {digits : List Char} (positive : 0 < bound) :
    readDigits? bound digits = some number ↔ StandsFor bound digits number := by
  rw [readDigits?_eq _ positive]
  constructor
  · intro read
    split at read
    · cases read
    · rename_i wellFormed
      split at read
      · rename_i below
        cases read
        simp only [Bool.or_eq_true, List.isEmpty_iff, Bool.not_eq_true', not_or,
          Bool.not_eq_false, List.all_eq_true] at wellFormed
        exact ⟨wellFormed.1, wellFormed.2, rfl, below⟩
      · cases read
  · rintro ⟨nonempty, isDigit, rfl, below⟩
    have allDigits : digits.all Char.isDigit := List.all_eq_true.mpr isDigit
    simp [nonempty, allDigits, below]

/-- A number is read from digits with or without a plus sign before them. -/
theorem readNat?_eq_some {bound number : Nat} {text : List Char} (positive : 0 < bound) :
    readNat? bound text = some number ↔
      ∃ sign digits, sign ∈ [[], ['+']] ∧ text = sign ++ digits ∧
        StandsFor bound digits number := by
  constructor
  · intro read
    unfold readNat? at read
    split at read
    · exact ⟨['+'], _, by decide, rfl, (readDigits?_eq_some positive).mp read⟩
    · exact ⟨[], _, by decide, rfl, (readDigits?_eq_some positive).mp read⟩
  · rintro ⟨sign, digits, isSign, rfl, standsFor⟩
    rw [List.mem_pair] at isSign
    rcases isSign with rfl | rfl
    · unfold readNat?
      split
      · rename_i signed
        have sign := standsFor.isDigit '+' (by rw [← List.nil_append digits, signed]; simp)
        exact absurd sign (by decide)
      · exact (readDigits?_eq_some positive).mpr standsFor
    · exact (readDigits?_eq_some positive).mpr standsFor

theorem standsFor_numeral {bound number : Nat} (below : number < bound) (zeros : Nat) :
    StandsFor bound (numeral zeros number) number :=
  ⟨numeral_ne_nil zeros number, fun _ => isDigit_of_mem_numeral,
    digitsValue_numeral zeros number, below⟩

/-- A number below the bound is read again, whatever zeros stand before it. -/
theorem readNat?_numeral {bound number : Nat} (below : number < bound) (zeros : Nat) :
    readNat? bound (numeral zeros number) = some number :=
  (readNat?_eq_some (Nat.zero_lt_of_lt below)).mpr
    ⟨[], _, by decide, rfl, standsFor_numeral below zeros⟩

theorem readNat?_lt {bound number : Nat} {text : List Char} (positive : 0 < bound)
    (read : readNat? bound text = some number) : number < bound := by
  rcases (readNat?_eq_some positive).mp read with ⟨_, _, _, _, standsFor⟩
  exact standsFor.below

end Fabula.Text
