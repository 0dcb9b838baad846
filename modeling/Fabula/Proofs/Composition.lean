import Fabula.Proofs.Lines
import Fabula.Proofs.Outcome
import Fabula.Script.Definition

/-!
# Rules texts put together

The normal form of a text is made of the words of its lines, and a line feed
separates words.  Hence the normal form of two texts with a line feed between
them is made of their normal forms, and lines without content leave no trace.
A space, which is all that stands at the seam, is part of no keyword; so the
rules of the whole are those of the parts, if the second part begins with a rule.
-/

namespace Fabula.Script

open Outcome Text

/-! ## Words of a text -/

/-- What a line contributes to the normal form of its text. -/
def content? (line : List Char) : Option (List Char) :=
  if isContent (trim line) then some (upper (trim line)) else none

/-- The words of a text as the normal form spells them. -/
def normalWords (text : List Char) : List (List Char) :=
  ((lines text).filterMap content?).flatMap fun line => words (line.flatMap spellChar)

theorem contents_eq (text : List Char) :
    (contentLines text).map Prod.snd = (lines text).filterMap content? := by
  have lineOnly :
      (fun entry : List Char × Nat =>
          (if isContent (trim entry.1) then some (entry.2, upper (trim entry.1))
            else none).map Prod.snd) =
        content? ∘ Prod.fst := by
    funext entry
    rw [Function.comp_apply, content?]
    split <;> rfl
  rw [contentLines, List.map_filterMap]
  show ((lines text).zipIdx 1).filterMap (fun entry : List Char × Nat =>
      (if isContent (trim entry.1) then some (entry.2, upper (trim entry.1))
        else none).map Prod.snd) = _
  rw [lineOnly, ← List.filterMap_map, List.zipIdx_map_fst]

/-- Spelling a space out changes nothing, so that lines joined by spaces keep their words. -/
theorem words_spell_join (texts : List (List Char)) :
    words ((join [' '] texts).flatMap spellChar) =
      texts.flatMap fun text => words (text.flatMap spellChar) := by
  induction texts with
  | nil => simp [join]
  | cons text rest ih =>
      cases rest with
      | nil => simp [join]
      | cons next rest =>
          have spelt : spellChar ' ' = [' '] := rfl
          rw [join_cons_cons, List.flatMap_append, List.flatMap_cons, spelt, List.singleton_append,
            words_append_blank (by decide), ih]
          rfl

theorem normalize_eq (text : List Char) : normalize text = join [' '] (normalWords text) := by
  rw [normalize, contents_eq, words_spell_join]
  rfl

theorem isWord_of_mem_normalWords {text word : List Char} (member : word ∈ normalWords text) :
    IsWord word := by
  rcases List.mem_flatMap.mp member with ⟨line, _, inLine⟩
  exact mem_words inLine

/-- The lines that count of two texts with a line feed between them. -/
theorem filterMap_content?_append (first others : List Char) :
    (lines (first ++ '\n' :: others)).filterMap content? =
      (lines first).filterMap content? ++ (lines others).filterMap content? := by
  have overlooks : ∀ line, content? (dropReturn line) = content? line := by
    intro line
    rw [content?, content?, trim_dropReturn]
  rw [lines_append, List.filterMap_append, filterMap_lines_closed overlooks rfl]

theorem normalWords_append (first others : List Char) :
    normalWords (first ++ '\n' :: others) = normalWords first ++ normalWords others := by
  rw [normalWords, filterMap_content?_append, List.flatMap_append]
  rfl

/-- A text in which no line has content has no words. -/
theorem normalWords_eq_nil {text : List Char}
    (bare : ∀ line ∈ lines text, isContent (trim line) = false) : normalWords text = [] := by
  have nothing : (lines text).filterMap content? = [] := by
    rw [List.filterMap_eq_nil_iff]
    intro line member
    rw [content?, bare line member]
    rfl
  rw [normalWords, nothing, List.flatMap_nil]

/-! ## Normal forms -/

/-- Two texts with a space between them, or the one that is not empty. -/
def spaced (first others : List Char) : List Char :=
  if first = [] then others
  else if others = [] then first
  else first ++ ' ' :: others

theorem join_append_of_ne_nil {first others : List (List Char)} (some : first ≠ [])
    (more : others ≠ []) :
    join [' '] (first ++ others) = join [' '] first ++ ' ' :: join [' '] others := by
  induction first with
  | nil => exact absurd rfl some
  | cons text rest ih =>
      cases rest with
      | nil => simp [join, List.intercalate_cons_of_ne_nil more]
      | cons next rest =>
          have longer := ih (List.cons_ne_nil _ _)
          simp only [join, List.cons_append, List.intercalate_cons_cons] at longer ⊢
          rw [longer]
          simp

theorem join_eq_nil_iff {texts : List (List Char)} (nonempty : ∀ text ∈ texts, text ≠ []) :
    join [' '] texts = [] ↔ texts = [] := by
  cases texts with
  | nil => simp [join]
  | cons text rest =>
      have first := nonempty text List.mem_cons_self
      cases rest with
      | nil => simp [join, first]
      | cons next rest => simp [join, List.intercalate_cons_cons]

theorem join_append {first others : List (List Char)} (nonempty : ∀ text ∈ first, text ≠ [])
    (othersNonempty : ∀ text ∈ others, text ≠ []) :
    join [' '] (first ++ others) = spaced (join [' '] first) (join [' '] others) := by
  simp only [spaced, join_eq_nil_iff nonempty, join_eq_nil_iff othersNonempty]
  split
  · rename_i none
    rw [none, List.nil_append]
  · split
    · rename_i none
      rw [none, List.append_nil]
    · rename_i some more
      exact join_append_of_ne_nil some more

/-- The normal form of two texts with a line feed between them. -/
theorem normalize_append (first others : List Char) :
    normalize (first ++ '\n' :: others) = spaced (normalize first) (normalize others) := by
  rw [normalize_eq, normalize_eq, normalize_eq, normalWords_append]
  apply join_append
  · intro word member
    exact (isWord_of_mem_normalWords member).1
  · intro word member
    exact (isWord_of_mem_normalWords member).1

theorem normalize_eq_nil {text : List Char}
    (bare : ∀ line ∈ lines text, isContent (trim line) = false) : normalize text = [] := by
  rw [normalize_eq, normalWords_eq_nil bare]
  rfl

@[simp]
theorem spaced_nil (text : List Char) : spaced text [] = text := by
  by_cases nothing : text = [] <;> simp [spaced, nothing]

/-! ## Definitions -/

section Pieces

variable {mark : List Char}

theorem piecesFrom_done (done : List (List Char)) (skip : Nat) (piece text : List Char) :
    piecesFrom mark done skip piece text =
      done.reverse ++ piecesFrom mark [] skip piece text := by
  induction text generalizing done skip piece with
  | nil => simp [piecesFrom]
  | cons c rest ih =>
      cases skip with
      | succ skip => exact ih done skip piece
      | zero =>
          rw [piecesFrom, piecesFrom]
          split
          · rw [ih (piece.reverse :: done), ih [piece.reverse], List.reverse_cons,
              List.append_assoc]
            rfl
          · exact ih done 0 (c :: piece)

theorem piecesFrom_skip (done : List (List Char)) {skip : Nat} (piece : List Char)
    {passed text : List Char} (length : passed.length = skip) :
    piecesFrom mark done skip piece (passed ++ text) = piecesFrom mark done 0 piece text := by
  induction passed generalizing skip with
  | nil =>
      cases length
      rfl
  | cons c passed ih =>
      cases length
      exact ih rfl

/-- Where a mark stands, one piece ends and the next begins. -/
theorem piecesFrom_mark (some : mark ≠ []) (done : List (List Char)) (piece text : List Char) :
    piecesFrom mark done 0 piece (mark ++ text) =
      done.reverse ++ piece.reverse :: pieces mark text := by
  obtain ⟨c, tail, rfl⟩ := List.exists_cons_of_ne_nil some
  have found : (c :: tail).isPrefixOf (c :: (tail ++ text)) :=
    List.isPrefixOf_iff_prefix.mpr (List.prefix_append (c :: tail) text)
  rw [List.cons_append, piecesFrom, if_pos found, List.length_cons, Nat.add_sub_cancel,
    piecesFrom_skip _ _ rfl, piecesFrom_done, List.reverse_cons, List.append_assoc]
  rfl

/-- No mark reaches beyond a character that is not part of it. -/
theorem isPrefixOf_append_cons {seam : Char} (absent : seam ∉ mark) (text others : List Char) :
    mark.isPrefixOf (text ++ seam :: others) = mark.isPrefixOf text := by
  rw [Bool.eq_iff_iff, List.isPrefixOf_iff_prefix, List.isPrefixOf_iff_prefix]
  constructor
  · rintro ⟨rest, split⟩
    rcases List.append_eq_append_iff.mp split with ⟨beyond, rfl, _⟩ | ⟨beyond, rfl, same⟩
    · exact List.prefix_append mark beyond
    · rcases List.cons_eq_append_iff.mp same with ⟨rfl, _⟩ | ⟨inner, rfl, _⟩
      · simp
      · exact absurd (List.mem_append_right _ List.mem_cons_self) absent
  · intro found
    exact found.trans (List.prefix_append text _)

/--
Pieces of a text, a blank, and a text that begins with a mark.  No mark is under
way where the two texts meet.  So the blank ends the last piece of the first text,
and trimming drops it.
-/
theorem trim_piecesFrom_append (some : mark ≠ []) {blank : Char} (isBlank : isBlank blank)
    (absent : blank ∉ mark) (others : List Char) (done : List (List Char)) {skip : Nat}
    (piece : List Char) {text : List Char} (inside : skip ≤ text.length) :
    (piecesFrom mark done skip piece (text ++ blank :: (mark ++ others))).map trim =
      (piecesFrom mark done skip piece text).map trim ++ (pieces mark others).map trim := by
  induction text generalizing done skip piece with
  | nil =>
      have unmarked : mark.isPrefixOf (blank :: (mark ++ others)) = false := by
        have found := isPrefixOf_append_cons absent [] (mark ++ others)
        rw [List.nil_append] at found
        rw [found]
        cases mark with
        | nil => exact absurd rfl some
        | cons c tail => rfl
      cases skip with
      | succ skip => exact absurd inside (Nat.not_succ_le_zero skip)
      | zero =>
          have passed :
              piecesFrom mark done 0 piece (blank :: (mark ++ others)) =
                piecesFrom mark done 0 (blank :: piece) (mark ++ others) := by
            rw [piecesFrom, if_neg (by simp [unmarked])]
          rw [List.nil_append, passed, piecesFrom_mark some, piecesFrom]
          simp [trim_append_blank isBlank]
  | cons c rest ih =>
      cases skip with
      | succ skip => exact ih done piece (Nat.le_of_succ_le_succ inside)
      | zero =>
          have found := isPrefixOf_append_cons absent (c :: rest) (mark ++ others)
          rw [List.cons_append] at found
          rw [List.cons_append, piecesFrom, piecesFrom, found]
          split
          · rename_i marked
            have fits := (List.isPrefixOf_iff_prefix.mp marked).length_le
            rw [List.length_cons] at fits
            exact ih _ [] (by omega)
          · exact ih done (c :: piece) (Nat.zero_le _)

end Pieces

/-- The definitions of a normal form that begins with a rule come after those before it. -/
theorem definitions_append (normal others : List Char) :
    definitions (normal ++ ' ' :: (ruleMark ++ others)) =
      definitions normal ++ definitions (ruleMark ++ others) := by
  have marked : ruleMark ≠ [] := by decide
  have first :
      (pieces ruleMark (normal ++ ' ' :: (ruleMark ++ others))).map trim =
        (pieces ruleMark normal).map trim ++ (pieces ruleMark others).map trim :=
    trim_piecesFrom_append marked (by decide) (by decide) others [] [] (Nat.zero_le _)
  have second : pieces ruleMark (ruleMark ++ others) = [] :: pieces ruleMark others :=
    piecesFrom_mark marked [] [] others
  rw [definitions, definitions, definitions, first, second, List.filter_append]
  rfl

theorem definitions_spaced (first : List Char) {others : List Char}
    (begins : others = [] ∨ ruleMark <+: others) :
    definitions (spaced first others) = definitions first ++ definitions others := by
  have nothing : definitions [] = [] := rfl
  rcases begins with rfl | ⟨rest, rfl⟩
  · rw [spaced_nil, nothing, List.append_nil]
  · have some : ruleMark ++ rest ≠ [] := List.append_ne_nil_of_left_ne_nil (by decide) rest
    rw [spaced, if_neg some]
    split
    · rename_i none
      rw [none, nothing, List.nil_append]
    · exact definitions_append first rest

/-! ## Rules -/

theorem toList_joined (first others : String) :
    (first ++ "\n" ++ others).toList = first.toList ++ '\n' :: others.toList := by
  simp [String.toList_append]

/--
Two rules texts with a line feed between them.  Their normal forms are put
together with a space; lines without content may stand between them; and if the
second begins with a rule or is empty, the rules of the whole are those of the
first and then those of the second, or else the error of the first that has one.
-/
theorem rules_texts_compose (first others : String) :
    normalize (first ++ "\n" ++ others).toList =
        spaced (normalize first.toList) (normalize others.toList) ∧
      (∀ between : String,
        (∀ line ∈ lines between.toList, trim line = [] ∨ (trim line).head? = some '%') →
          readRules (first ++ "\n" ++ between ++ "\n" ++ others) =
            readRules (first ++ "\n" ++ others)) ∧
      (normalize others.toList = [] ∨ ruleMark <+: normalize others.toList →
        readRules (first ++ "\n" ++ others) =
          match readRules first, readRules others with
          | .error cause, _ => .error cause
          | .ok _, .error cause => .error cause
          | .ok rules, .ok otherRules => .ok (rules ++ otherRules)) := by
  have composed (first others : String) :
      normalize (first ++ "\n" ++ others).toList =
        spaced (normalize first.toList) (normalize others.toList) := by
    rw [toList_joined, normalize_append]
  refine ⟨composed first others, ?_, ?_⟩
  · intro between bare
    have vanishes : normalize between.toList = [] := by
      apply normalize_eq_nil
      intro line member
      rcases bare line member with empty | comment
      · simp [isContent, empty]
      · simp [isContent, comment]
    rw [readRules, readRules, composed, composed, composed, vanishes, spaced_nil]
  · intro begins
    rw [readRules, readRules, readRules, composed, definitions_spaced _ begins, List.mapM_append]
    cases (definitions (normalize first.toList)).mapM readRule with
    | error cause => rfl
    | ok rules => cases (definitions (normalize others.toList)).mapM readRule <;> rfl

/-- A text that ends with a carriage return. -/
def firstAct : String :=
  "% The cast is away\r\n\n$rule george *admires* martha; 1,0: [T > 900]\r"

/-- A text whose keyword is there only when emphasis is dropped. -/
def secondAct : String :=
  "$R*ULE martha asleep; 10,0: (george admires martha)"

theorem rules_texts_compose_in_two_acts :
    (∀ line ∈ lines " \t\n% An interval".toList, trim line = [] ∨ (trim line).head? = some '%') ∧
      ruleMark <+: normalize secondAct.toList ∧
      ∃ rules,
        readRules (firstAct ++ "\n" ++ " \t\n% An interval" ++ "\n" ++ secondAct) = .ok rules ∧
        rules.map (·.text) =
          ["GEORGE ADMIRES MARTHA; 1,0: [T > 900]",
            "MARTHA ASLEEP; 10,0: (GEORGE ADMIRES MARTHA)"] := by
  have bare : ∀ line ∈ lines " \t\n% An interval".toList,
      trim line = [] ∨ (trim line).head? = some '%' := by
    decide +kernel
  have begins : ruleMark <+: normalize secondAct.toList := by
    decide +kernel
  have first :
      (readRules firstAct).map (·.map (·.text)) =
        .ok ["GEORGE ADMIRES MARTHA; 1,0: [T > 900]"] := by
    decide +kernel
  have second :
      (readRules secondAct).map (·.map (·.text)) =
        .ok ["MARTHA ASLEEP; 10,0: (GEORGE ADMIRES MARTHA)"] := by
    decide +kernel
  rcases map_eq_ok.mp first with ⟨rules, read, texts⟩
  rcases map_eq_ok.mp second with ⟨otherRules, otherRead, otherTexts⟩
  rcases rules_texts_compose firstAct secondAct with ⟨_, interrupted, composed⟩
  refine ⟨bare, begins, rules ++ otherRules, ?_, ?_⟩
  · rw [interrupted _ bare, composed (.inr begins), read, otherRead]
  · rw [List.map_append, texts, otherTexts]
    rfl

end Fabula.Script
