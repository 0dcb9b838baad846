import Fabula.Text.Pieces
import Mathlib.Data.List.DropRight

/-!
# Words

A text is the same to a reader of words whatever blanks surround it, and a word
has no blanks of its own.
-/

namespace Fabula.Text

/-- What is asked of every character of a text is decided along the text. -/
instance (priority := high) decidableForallMem {property : Char → Prop} [DecidablePred property]
    (text : List Char) : Decidable (∀ c ∈ text, property c) :=
  List.decidableBAll property text

theorem words_append_blank {blank : Char} (isBlank : isBlank blank) (before after : List Char) :
    words (before ++ blank :: after) = words before ++ words after := by
  rw [words, List.splitOnP_append_cons before after isBlank, List.filter_append]
  rfl

@[simp]
theorem words_nil : words [] = [] := by
  simp [words]

theorem words_cons_blank {blank : Char} (isBlank : isBlank blank) (text : List Char) :
    words (blank :: text) = words text := by
  rw [← List.nil_append (blank :: text), words_append_blank isBlank, words_nil, List.nil_append]

theorem words_trimStart (text : List Char) : words (trimStart text) = words text := by
  unfold trimStart
  induction text with
  | nil => rfl
  | cons c rest ih =>
      by_cases blank : isBlank c
      · rw [List.dropWhile_cons_of_pos blank, ih, words_cons_blank blank]
      · rw [List.dropWhile_cons_of_neg blank]

theorem words_trimEnd (text : List Char) : words (trimEnd text) = words text := by
  show words (text.rdropWhile isBlank) = words text
  induction text using List.reverseRecOn with
  | nil => rfl
  | append_singleton rest c ih =>
      by_cases blank : isBlank c
      · rw [List.rdropWhile_concat_pos _ _ _ blank, ih, words_append_blank blank, words_nil,
          List.append_nil]
      · rw [List.rdropWhile_concat_neg _ _ _ blank]

theorem words_trim (text : List Char) : words (trim text) = words text := by
  rw [trim, words_trimEnd, words_trimStart]

theorem flatten_splitOnP {α : Type} (sep : α → Bool) (values : List α) :
    (values.splitOnP sep).flatten = values.filter (!sep ·) := by
  induction values with
  | nil => rfl
  | cons first rest ih =>
      rw [List.splitOnP_cons_eq_if_modifyHead]
      by_cases separates : sep first
      · simp [separates, ih]
      · cases split : rest.splitOnP sep with
        | nil => exact absurd split (List.splitOnP_ne_nil _ _)
        | cons head tail => simp [separates, ← ih, split]

/-- The words of a text run together are what of it is not blank. -/
theorem flatten_words (text : List Char) : (words text).flatten = text.filter (!isBlank ·) := by
  rw [words, List.flatten_filter_not_isEmpty, flatten_splitOnP]

/-- What stands in a word stands in the text, and is not blank. -/
theorem mem_of_mem_words {text word : List Char} {c : Char} (member : word ∈ words text)
    (inWord : c ∈ word) : c ∈ text ∧ isBlank c = false := by
  have inWords : c ∈ (words text).flatten := List.mem_flatten_of_mem member inWord
  rw [flatten_words, List.mem_filter] at inWords
  exact ⟨inWords.1, by simpa using inWords.2⟩

/-- Words are not empty and have no blanks. -/
theorem mem_words {text word : List Char} (member : word ∈ words text) :
    word ≠ [] ∧ ∀ c ∈ word, isBlank c = false := by
  refine ⟨?_, fun c inWord => (mem_of_mem_words member inWord).2⟩
  rw [words, List.mem_filter] at member
  simpa using member.2

theorem trimStart_of_head {text : List Char} {first : Char} (head : text.head? = some first)
    (visible : isBlank first = false) : trimStart text = text := by
  rcases List.head?_eq_some_iff.mp head with ⟨rest, rfl⟩
  simp [trimStart, visible]

theorem trimEnd_of_getLast {text : List Char} {last : Char} (final : text.getLast? = some last)
    (visible : isBlank last = false) : trimEnd text = text := by
  show text.rdropWhile isBlank = text
  rw [List.rdropWhile_eq_self_iff]
  intro nonempty
  rw [List.getLast?_eq_some_getLast nonempty, Option.some.injEq] at final
  simp [final, visible]

/-- A text that neither begins nor ends with a blank is not changed by trimming. -/
theorem trim_of_ends {text : List Char} {first last : Char} (head : text.head? = some first)
    (visible : isBlank first = false) (final : text.getLast? = some last)
    (visibleLast : isBlank last = false) : trim text = text := by
  rw [trim, trimStart_of_head head visible, trimEnd_of_getLast final visibleLast]

/-- Blanks before a text are trimmed. -/
theorem trim_blanks_append {gap : List Char} (blank : ∀ c ∈ gap, isBlank c) (text : List Char) :
    trim (gap ++ text) = trim text := by
  rw [trim, trimStart, List.dropWhile_append_of_pos blank]
  rfl

theorem trimStart_append_blank {blank : Char} (isBlank : isBlank blank) (text : List Char) :
    trimStart (text ++ [blank]) =
      if (trimStart text).isEmpty then [] else trimStart text ++ [blank] := by
  simp [trimStart, List.dropWhile_append, isBlank]

theorem trim_append_blank {blank : Char} (isBlank : isBlank blank) (text : List Char) :
    trim (text ++ [blank]) = trim text := by
  rw [trim, trim, trimStart_append_blank isBlank]
  split
  · rename_i nothing
    rw [List.isEmpty_iff.mp nothing]
  · exact List.rdropWhile_concat_pos _ _ _ isBlank

/-- Blanks behind a text are trimmed. -/
theorem trim_append_blanks {gap : List Char} (blank : ∀ c ∈ gap, isBlank c) (text : List Char) :
    trim (text ++ gap) = trim text := by
  induction gap generalizing text with
  | nil => rw [List.append_nil]
  | cons c rest ih =>
      rw [List.forall_mem_cons] at blank
      rw [← List.singleton_append, ← List.append_assoc, ih blank.2, trim_append_blank blank.1]

/-- A text is what trimming leaves of it, between blanks. -/
theorem exists_eq_append_trim (text : List Char) :
    ∃ before after, (∀ c ∈ before, isBlank c) ∧ (∀ c ∈ after, isBlank c) ∧
      text = before ++ trim text ++ after := by
  refine ⟨text.takeWhile isBlank, (trimStart text).rtakeWhile isBlank, ?_, ?_, ?_⟩
  · exact fun c member => List.mem_takeWhile_imp member
  · exact fun c member => List.mem_rtakeWhile_imp member
  · have atEnd : trim text ++ (trimStart text).rtakeWhile isBlank = trimStart text :=
      List.rdropWhile_append_rtakeWhile
    rw [List.append_assoc, atEnd]
    exact List.takeWhile_append_dropWhile.symm

theorem trim_trim (text : List Char) : trim (trim text) = trim text := by
  rcases exists_eq_append_trim text with ⟨before, after, blankBefore, blankAfter, split⟩
  conv_rhs => rw [split, trim_append_blanks blankAfter, trim_blanks_append blankBefore]

/-! ## Texts made of words -/

theorem isBlank_eq_false_of_isDigit {c : Char} (isDigit : c.isDigit) : isBlank c = false := by
  simp only [Char.isDigit, Bool.and_eq_true, decide_eq_true_eq] at isDigit
  have lower : 48 ≤ c.toNat := isDigit.1
  have upper : c.toNat ≤ 57 := isDigit.2
  simp only [isBlank, Bool.or_eq_false_iff, Bool.and_eq_false_iff, decide_eq_false_iff_not,
    beq_eq_false_iff_ne]
  omega

/-- A text that is a single word: it is not empty and has no blanks. -/
def IsWord (text : List Char) : Prop :=
  text ≠ [] ∧ ∀ c ∈ text, isBlank c = false

instance (text : List Char) : Decidable (IsWord text) :=
  inferInstanceAs (Decidable (text ≠ [] ∧ ∀ c ∈ text, isBlank c = false))

theorem IsWord.exists_head? {word : List Char} (isWord : IsWord word) :
    ∃ c, word.head? = some c ∧ isBlank c = false :=
  ⟨word.head isWord.1, List.head?_eq_some_head _, isWord.2 _ (List.head_mem _)⟩

theorem IsWord.exists_getLast? {word : List Char} (isWord : IsWord word) :
    ∃ c, word.getLast? = some c ∧ isBlank c = false :=
  ⟨word.getLast isWord.1, List.getLast?_eq_some_getLast _, isWord.2 _ (List.getLast_mem _)⟩

theorem words_eq_singleton {word : List Char} (isWord : IsWord word) : words word = [word] := by
  rw [words, List.splitOnP_eq_singleton isWord.2]
  simp [isWord.1]

/-- A word has no blanks to trim. -/
theorem trim_eq_self {word : List Char} (isWord : IsWord word) : trim word = word := by
  rcases isWord.exists_head? with ⟨first, head, visible⟩
  rcases isWord.exists_getLast? with ⟨last, final, visibleLast⟩
  exact trim_of_ends head visible final visibleLast

/-- Blanks before a text belong to no word. -/
theorem words_blanks_append {gap : List Char} (blank : ∀ c ∈ gap, isBlank c) (text : List Char) :
    words (gap ++ text) = words text := by
  induction gap with
  | nil => rfl
  | cons c rest ih =>
      rw [List.forall_mem_cons] at blank
      rw [List.cons_append, words_cons_blank blank.1, ih blank.2]

theorem words_append_gap {gap : List Char} (nonempty : gap ≠ []) (blank : ∀ c ∈ gap, isBlank c)
    (before after : List Char) : words (before ++ gap ++ after) = words before ++ words after := by
  cases gap with
  | nil => exact absurd rfl nonempty
  | cons c rest =>
      rw [List.forall_mem_cons] at blank
      rw [List.append_assoc, List.cons_append, words_append_blank blank.1,
        words_blanks_append blank.2]

theorem join_cons_cons (first next : List Char) (rest : List (List Char)) :
    join [' '] (first :: next :: rest) = first ++ ' ' :: join [' '] (next :: rest) := by
  simp [join, List.intercalate_cons_cons]

/-- Words that are joined by single blanks are the words of the whole. -/
theorem words_join {parts : List (List Char)} (isWord : ∀ part ∈ parts, IsWord part) :
    words (join [' '] parts) = parts := by
  induction parts with
  | nil => exact words_nil
  | cons part rest ih =>
      rw [List.forall_mem_cons] at isWord
      cases rest with
      | nil => simpa [join] using words_eq_singleton isWord.1
      | cons next rest =>
          rw [join, List.intercalate_cons_cons, words_append_gap (List.cons_ne_nil _ _) (by decide),
            words_eq_singleton isWord.1]
          exact congrArg (part :: ·) (ih isWord.2)

theorem head?_join_cons {part : List Char} (nonempty : part ≠ []) (rest : List (List Char)) :
    (join [' '] (part :: rest)).head? = part.head? := by
  cases rest with
  | nil => simp [join]
  | cons next rest => rw [join_cons_cons, List.head?_append_of_ne_nil _ nonempty]

theorem head?_join {parts : List (List Char)} (nonempty : ∀ part ∈ parts, part ≠ []) :
    (join [' '] parts).head? = parts.flatten.head? := by
  cases parts with
  | nil => rfl
  | cons part rest =>
      have first := nonempty part List.mem_cons_self
      rw [head?_join_cons first, List.flatten_cons, List.head?_append_of_ne_nil _ first]

theorem exists_getLast?_join {part : List Char} {rest : List (List Char)}
    (isWord : ∀ word ∈ part :: rest, IsWord word) :
    ∃ c, (join [' '] (part :: rest)).getLast? = some c ∧ isBlank c = false := by
  induction rest generalizing part with
  | nil => simpa [join] using (isWord part List.mem_cons_self).exists_getLast?
  | cons next rest ih =>
      rw [List.forall_mem_cons] at isWord
      rcases ih isWord.2 with ⟨c, final, visible⟩
      refine ⟨c, ?_, visible⟩
      rw [join_cons_cons, List.getLast?_append_cons, List.getLast?_cons, final]
      rfl

/-- Words that are joined by single blanks leave nothing to trim. -/
theorem trim_join {parts : List (List Char)} (isWord : ∀ part ∈ parts, IsWord part) :
    trim (join [' '] parts) = join [' '] parts := by
  cases parts with
  | nil => rfl
  | cons part rest =>
      have first := isWord part List.mem_cons_self
      rcases first.exists_head? with ⟨c, head, visible⟩
      rcases exists_getLast?_join isWord with ⟨last, final, visibleLast⟩
      rw [← head?_join_cons first.1 rest] at head
      exact trim_of_ends head visible final visibleLast

theorem mem_join {c : Char} {parts : List (List Char)} (member : c ∈ join [' '] parts) :
    c = ' ' ∨ ∃ part ∈ parts, c ∈ part := by
  induction parts with
  | nil => simp [join] at member
  | cons part rest ih =>
      cases rest with
      | nil => exact .inr ⟨part, by simp, by simpa [join] using member⟩
      | cons next rest =>
          rw [join, List.intercalate_cons_cons, List.append_assoc, List.mem_append] at member
          rcases member with here | later
          · exact .inr ⟨part, List.mem_cons_self, here⟩
          · rcases List.mem_cons.mp later with blank | later
            · exact .inl blank
            · rcases ih later with blank | ⟨other, inRest, found⟩
              · exact .inl blank
              · exact .inr ⟨other, List.mem_cons_of_mem _ inRest, found⟩

theorem words_cons_visible {c d : Char} (solid : isBlank c = false) (visible : isBlank d = false)
    (text : List Char) : words (c :: d :: text) = (words (d :: text)).modifyHead (c :: ·) := by
  cases split : text.splitOnP isBlank with
  | nil => exact absurd split (List.splitOnP_ne_nil _ _)
  | cons head tail => simp [words, List.splitOnP_cons_eq_if_modifyHead, solid, visible, split]

/-- What stands right before a word becomes a part of it. -/
theorem words_append_visible {start : List Char} (solid : ∀ c ∈ start, isBlank c = false) {d : Char}
    (visible : isBlank d = false) (text : List Char) :
    words (start ++ d :: text) = (words (d :: text)).modifyHead (start ++ ·) := by
  induction start with
  | nil => exact (congrFun List.modifyHead_id _).symm
  | cons c rest ih =>
      rw [List.forall_mem_cons] at solid
      have longer := ih solid.2
      cases rest with
      | nil => exact words_cons_visible solid.1 visible text
      | cons e rest =>
          rw [List.forall_mem_cons] at solid
          rw [List.cons_append, List.cons_append, words_cons_visible solid.1 solid.2.1,
            ← List.cons_append, longer, List.modifyHead_modifyHead]
          rfl

/-- A text with a character that is not blank has a word. -/
theorem words_ne_nil {text : List Char} {c : Char} (member : c ∈ text)
    (visible : isBlank c = false) : words text ≠ [] := by
  intro none
  have nothing := flatten_words text
  rw [none, List.flatten_nil, eq_comm, List.filter_eq_nil_iff] at nothing
  simpa [visible] using nothing c member

/-- Blanks that stand neither first nor last separate words. -/
theorem two_le_length_words {text : List Char} {first last blank : Char}
    (head : text.head? = some first) (visible : isBlank first = false)
    (final : text.getLast? = some last) (visibleLast : isBlank last = false)
    (member : blank ∈ text) (isBlank : isBlank blank) : 2 ≤ (words text).length := by
  rcases List.append_of_mem member with ⟨before, after, rfl⟩
  have inBefore : first ∈ before := by
    cases before with
    | nil =>
        cases head
        simp [isBlank] at visible
    | cons c before =>
        cases head
        exact List.mem_cons_self
  have inAfter : last ∈ after := by
    rw [List.getLast?_append_cons] at final
    cases after with
    | nil =>
        cases final
        simp [isBlank] at visibleLast
    | cons c after => exact List.mem_of_getLast? final
  have beforeWords := List.length_pos_iff.mpr (words_ne_nil inBefore visible)
  have afterWords := List.length_pos_iff.mpr (words_ne_nil inAfter visibleLast)
  rw [words_append_blank isBlank, List.length_append]
  omega

end Fabula.Text
