import Fabula.Proofs.Capitals
import Fabula.Proofs.Composition

/-!
# Normal forms

A normal form is a single line of capital letters with single spaces between its
words, and nothing in it is left to be spelt out.  So it is its own normal form,
unless it begins with a percent sign: then it is itself a comment.  This happens
where emphasis stands before a percent sign, since comments are told apart before
emphasis is dropped.
-/

namespace Fabula.Script

open Outcome Text

/-! ## Characters of a normal form -/

/-- A character that the normal form leaves as it is. -/
structure IsNormal (c : Char) : Prop where
  capital : IsCapital c
  spelt : spellChar c = [c]

theorem isNormal_of_mem_spellChar {c d : Char} (capital : IsCapital c) (member : d ∈ spellChar c) :
    IsNormal d := by
  unfold spellChar at member
  split at member
  · cases member
  · rcases List.mem_pair.mp member with rfl | rfl
    · exact ⟨by decide, rfl⟩
    · exact ⟨by decide, rfl⟩
  · rcases List.mem_pair.mp member with rfl | rfl
    · exact ⟨by decide, rfl⟩
    · exact ⟨by decide, rfl⟩
  · rename_i noStar noInequality noArrow
    rw [List.mem_singleton] at member
    rw [member]
    refine ⟨capital, ?_⟩
    unfold spellChar
    split
    · exact absurd rfl noStar
    · exact absurd rfl noInequality
    · exact absurd rfl noArrow
    · rfl

theorem flatMap_spellChar_eq_self {text : List Char} (normal : ∀ c ∈ text, IsNormal c) :
    text.flatMap spellChar = text := by
  induction text with
  | nil => rfl
  | cons c rest ih =>
      rw [List.forall_mem_cons] at normal
      rw [List.flatMap_cons, normal.1.spelt, ih normal.2]
      rfl

/-! ## Normal forms -/

/-- Words that the normal form leaves as they are, with single spaces between them. -/
def IsNormalForm (text : List Char) : Prop :=
  ∃ parts, text = join [' '] parts ∧ ∀ part ∈ parts, IsWord part ∧ ∀ c ∈ part, IsNormal c

theorem isNormal_of_mem_normalWords {text word : List Char} (member : word ∈ normalWords text)
    {c : Char} (inWord : c ∈ word) : IsNormal c := by
  rcases List.mem_flatMap.mp member with ⟨line, content, inLine⟩
  rcases List.mem_filterMap.mp content with ⟨raw, _, counts⟩
  rcases List.mem_flatMap.mp (mem_of_mem_words inLine inWord).1 with ⟨d, inContent, spelt⟩
  rw [content?, Option.ite_none_right_eq_some, Option.some.injEq] at counts
  rw [← counts.2] at inContent
  exact isNormal_of_mem_spellChar (isCapital_of_mem_upper inContent) spelt

theorem isNormalForm_normalize (text : List Char) : IsNormalForm (normalize text) := by
  refine ⟨normalWords text, normalize_eq text, fun word member => ⟨?_, fun c inWord => ?_⟩⟩
  · exact isWord_of_mem_normalWords member
  · exact isNormal_of_mem_normalWords member inWord

theorem IsNormalForm.isNormal {text : List Char} (normalForm : IsNormalForm text) :
    ∀ c ∈ text, IsNormal c := by
  rcases normalForm with ⟨parts, rfl, normal⟩
  intro c member
  rcases mem_join member with rfl | ⟨part, inParts, inPart⟩
  · exact ⟨by decide, rfl⟩
  · exact (normal part inParts).2 c inPart

/-- A normal form has a single line, unless it is empty. -/
theorem IsNormalForm.lines_eq {text : List Char} (normalForm : IsNormalForm text) :
    lines text = if text.isEmpty then [] else [text] := by
  have unbroken : '\n' ∉ text := by
    rcases normalForm with ⟨parts, rfl, normal⟩
    intro member
    rcases mem_join member with space | ⟨part, inParts, inPart⟩
    · cases space
    · cases (normal part inParts).1.2 '\n' inPart
  rw [lines, List.splitOn_eq_singleton unbroken]
  rfl

theorem IsNormalForm.trim_eq {text : List Char} (normalForm : IsNormalForm text) :
    trim text = text := by
  rcases normalForm with ⟨parts, rfl, normal⟩
  exact trim_join fun part member => (normal part member).1

/-- A normal form that counts as a line has the words it is made of. -/
theorem IsNormalForm.join_normalWords {text : List Char} (normalForm : IsNormalForm text)
    (counts : isContent text) : join [' '] (normalWords text) = text := by
  have nonempty : text.isEmpty = false := by
    simp only [isContent, Bool.and_eq_true, Bool.not_eq_true'] at counts
    exact counts.1
  have capital : upper text = text :=
    upper_eq_self fun c member => (normalForm.isNormal c member).capital
  have content : content? text = some text := by
    rw [content?, normalForm.trim_eq, if_pos counts, capital]
  have spelt : normalWords text = words text := by
    rw [normalWords, normalForm.lines_eq, nonempty]
    simp [content, flatMap_spellChar_eq_self normalForm.isNormal]
  rcases normalForm with ⟨parts, rfl, normal⟩
  rw [spelt, words_join fun part member => (normal part member).1]

/-- A normal form is its own normal form, unless it is a comment. -/
theorem IsNormalForm.normalize_eq {text : List Char} (normalForm : IsNormalForm text) :
    normalize text = if text.head? = some '%' then [] else text := by
  rw [Script.normalize_eq]
  by_cases counts : isContent text
  · have uncommented : text.head? ≠ some '%' := by
      simp only [isContent, Bool.and_eq_true, bne_iff_ne] at counts
      exact counts.2
    rw [if_neg uncommented, normalForm.join_normalWords counts]
  · rw [Bool.not_eq_true] at counts
    have bare : ∀ line ∈ lines text, isContent (trim line) = false := by
      intro line member
      rw [normalForm.lines_eq, List.mem_ite_nil_left, List.mem_singleton] at member
      rw [member.2, normalForm.trim_eq, counts]
    rw [normalWords_eq_nil bare]
    cases text with
    | nil => rfl
    | cons c rest =>
        have comment : (c :: rest).head? = some '%' := by
          simpa [isContent] using counts
        rw [if_pos comment]
        rfl

/-! ## The first sign -/

/-- The first character of the lines that count that is neither blank nor emphasis. -/
def firstSign (text : List Char) : Option Char :=
  ((contentLines text).flatMap Prod.snd).find? fun c => !isBlank c && c != '*'

/-- Spelling a text out changes its first sign only where that is an operator. -/
theorem find?_flatMap_spellChar (text : List Char) :
    (text.flatMap spellChar).find? (!isBlank ·) = some '%' ↔
      text.find? (fun c => !isBlank c && c != '*') = some '%' := by
  induction text with
  | nil => rfl
  | cons c rest ih =>
      rw [List.flatMap_cons]
      unfold spellChar
      split
      · exact ih
      · simp [isBlank]
      · simp [isBlank]
      · rename_i noStar _ _
        have star : (c != '*') = true := by
          simpa using noStar
        rw [List.singleton_append, List.find?_cons, List.find?_cons, star, Bool.and_true]
        split
        · rfl
        · exact ih

/-- The words of a normal form run together are its spelt lines without their blanks. -/
theorem flatten_normalWords (text : List Char) :
    (normalWords text).flatten =
      (((lines text).filterMap content?).flatten.flatMap spellChar).filter (!isBlank ·) := by
  rw [normalWords]
  induction (lines text).filterMap content? with
  | nil => rfl
  | cons line rest ih =>
      rw [List.flatMap_cons, List.flatten_append, ih, flatten_words, List.flatten_cons,
        List.flatMap_append, List.filter_append]

theorem head?_normalize_eq_percent_iff (text : List Char) :
    (normalize text).head? = some '%' ↔ firstSign text = some '%' := by
  rw [normalize_eq, head?_join fun _ member => (isWord_of_mem_normalWords member).1,
    flatten_normalWords, List.head?_filter, find?_flatMap_spellChar, ← contents_eq]
  rfl

/-! ## Reading normal forms -/

theorem readRules_ofList (text : List Char) :
    readRules (String.ofList text) = (definitions (normalize text)).mapM readRule := by
  rw [readRules, String.toList_ofList]

/--
A normal form is final and stands for the same rules, unless its first sign is a
percent sign.  Such a normal form is a comment, as which it has no content.
-/
theorem normal_forms_are_final_unless_comments (text : String) :
    let normal := normalize text.toList
    IsNormalForm normal ∧
      (normal.head? = some '%' ↔ firstSign text.toList = some '%') ∧
      normalize normal = (if firstSign text.toList = some '%' then [] else normal) ∧
      readRules (String.ofList normal) =
        if firstSign text.toList = some '%' then .ok [] else readRules text := by
  have normalForm := isNormalForm_normalize text.toList
  have comment := head?_normalize_eq_percent_iff text.toList
  have again := normalForm.normalize_eq
  simp only [comment] at again
  refine ⟨normalForm, comment, again, ?_⟩
  rw [readRules_ofList, again]
  split
  · rfl
  · rfl

/-- An emphasised percent sign is a malformed action, but its normal form is a comment. -/
theorem comment_behind_emphasis :
    normalize (normalize "*%".toList) ≠ normalize "*%".toList ∧
      readRules "*%" = .error (.malformed .action "%" .actionShape) ∧
      readRules (String.ofList (normalize "*%".toList)) = .ok [] := by
  have normal : normalize "*%".toList = "%".toList := by
    decide +kernel
  rw [normal]
  exact ⟨by decide +kernel, rfl, rfl⟩

end Fabula.Script
