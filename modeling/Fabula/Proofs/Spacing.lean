import Fabula.Proofs.Groups

/-!
# Blanks around connectives

The relations of a group may be spelled with or without blanks around the
connectives between them.  Where the group has an object this makes no
difference.  Where it has none it does: a group is first cut into words, and of
three words or more the last is the object.
-/

namespace Fabula.Script

open Outcome Text

/-! ## Spellings of a chain -/

/-- A relation as it may stand in a chain: a word without connectives. -/
structure IsOperand (text : List Char) : Prop where
  isWord : IsWord text
  single : ∀ c ∈ text, connectiveOf? c = none

/-- A text spells a chain: connectives stand between the operands, and blanks around them. -/
inductive Spells : Chain (List Char) → List Char → Prop where
  | single {operand : List Char} (isOperand : IsOperand operand) :
      Spells { first := operand, rest := [] } operand
  | link {operand next : List Char} {rest : List (Connective × List Char)} {text : List Char}
      (isOperand : IsOperand operand) (connective : Connective) {before after : List Char}
      (blankBefore : ∀ c ∈ before, isBlank c) (blankAfter : ∀ c ∈ after, isBlank c)
      (spells : Spells { first := next, rest } text) :
      Spells { first := operand, rest := (connective, next) :: rest }
        (operand ++ before ++ connective.symbol :: (after ++ text))

theorem isBlank_symbol (connective : Connective) : isBlank connective.symbol = false := by
  cases connective <;> rfl

theorem groupPieces_blanks_append {gap : List Char} (blank : ∀ c ∈ gap, isBlank c)
    (text : List Char) : groupPieces (gap ++ text) = groupPieces text := by
  have single : ∀ c ∈ gap, connectiveOf? c = none := fun c member =>
    (begins_none_of_isBlank (blank c member)).1
  simp only [groupPieces, List.foldr_append, foldr_prependChar_append single, Piece.ofText,
    trim_blanks_append blank]

theorem ofText_append_blanks {operand gap : List Char} (isWord : IsWord operand)
    (blank : ∀ c ∈ gap, isBlank c) : Piece.ofText (operand ++ gap) = [.text operand] := by
  simp [Piece.ofText, trim_append_blanks blank, trim_eq_self isWord, isWord.1]

/-- Whatever blanks it has, a text has the pieces of the chain that it spells. -/
theorem Spells.pieces {relations : Chain (List Char)} {text : List Char}
    (spells : Spells relations text) : groupPieces text = relations.pieces := by
  induction spells with
  | single isOperand =>
      rw [groupPieces_of_single isOperand.single, ofText_of_isWord isOperand.isWord]
      rfl
  | @link operand _ _ _ isOperand connective before _ blankBefore blankAfter _ ih =>
      have single : ∀ c ∈ operand ++ before, connectiveOf? c = none := by
        rw [List.forall_mem_append]
        exact ⟨isOperand.single, fun c member =>
          (begins_none_of_isBlank (blankBefore c member)).1⟩
      rw [groupPieces_append single, groupPieces_blanks_append blankAfter, ih,
        ofText_append_blanks isOperand.isWord blankBefore]
      rfl

/-! ## Words of a spelling -/

theorem Spells.exists_head? {relations : Chain (List Char)} {text : List Char}
    (spells : Spells relations text) : ∃ c, text.head? = some c ∧ isBlank c = false := by
  cases spells with
  | single isOperand => exact isOperand.isWord.exists_head?
  | link isOperand _ _ _ _ =>
      rcases isOperand.isWord.exists_head? with ⟨c, head, visible⟩
      exact ⟨c, by simp [head], visible⟩

theorem Spells.exists_getLast? {relations : Chain (List Char)} {text : List Char}
    (spells : Spells relations text) : ∃ c, text.getLast? = some c ∧ isBlank c = false := by
  induction spells with
  | single isOperand => exact isOperand.isWord.exists_getLast?
  | link _ _ _ _ _ ih =>
      rcases ih with ⟨c, last, visible⟩
      exact ⟨c, by simp [List.getLast?_append, List.getLast?_cons, last], visible⟩

/-- A word and what follows it are joined again with or without a blank. -/
theorem join_words_append {start gap : List Char} (isWord : IsWord start)
    (blank : ∀ c ∈ gap, isBlank c) {d : Char} (visible : isBlank d = false) (text : List Char) :
    ∃ between, (∀ c ∈ between, isBlank c) ∧
      join [' '] (words (start ++ gap ++ d :: text)) =
        start ++ between ++ join [' '] (words (d :: text)) := by
  have nonempty : words (d :: text) ≠ [] := words_ne_nil List.mem_cons_self visible
  by_cases touching : gap = []
  · refine ⟨[], by simp, ?_⟩
    rw [touching, List.append_nil, words_append_visible isWord.2 visible]
    cases split : words (d :: text) with
    | nil => exact absurd split nonempty
    | cons word others => cases others <;> simp [join]
  · refine ⟨[' '], by decide, ?_⟩
    rw [words_append_gap touching blank, words_eq_singleton isWord, List.singleton_append, join,
      List.intercalate_cons_of_ne_nil nonempty]
    rfl

/-- The words of a spelling, joined by single blanks, are a spelling of the same chain. -/
theorem Spells.join_words {relations : Chain (List Char)} {text : List Char}
    (spells : Spells relations text) : Spells relations (join [' '] (words text)) := by
  induction spells with
  | single isOperand =>
      rw [words_eq_singleton isOperand.isWord]
      simpa [join] using Spells.single isOperand
  | @link _ _ _ _ isOperand connective _ after blankBefore blankAfter spells ih =>
      rcases spells.exists_head? with ⟨c, head, visible⟩
      rcases List.head?_eq_some_iff.mp head with ⟨tail, rfl⟩
      have symbolWord : IsWord [connective.symbol] := by
        simp [IsWord, isBlank_symbol]
      rcases join_words_append symbolWord blankAfter visible tail with
        ⟨newAfter, blankNewAfter, joinedAfter⟩
      rcases join_words_append isOperand.isWord blankBefore (isBlank_symbol connective)
          (after ++ c :: tail) with ⟨newBefore, blankNewBefore, joinedBefore⟩
      rw [List.append_assoc, List.singleton_append, List.append_assoc, List.singleton_append]
        at joinedAfter
      rw [joinedBefore, joinedAfter]
      exact .link isOperand connective blankNewBefore blankNewAfter ih

/-! ## Groups -/

/--
A text is a relational group: a subject, relations and perhaps an object, with
blanks between them.
-/
inductive IsGroup (subject relations : List Char) : Option (List Char) → List Char → Prop where
  | withoutObject {gap : List Char} (nonempty : gap ≠ []) (blank : ∀ c ∈ gap, isBlank c) :
      IsGroup subject relations none (subject ++ gap ++ relations)
  | withObject {gap otherGap : List Char} (nonempty : gap ≠ []) (blank : ∀ c ∈ gap, isBlank c)
      (otherNonempty : otherGap ≠ []) (otherBlank : ∀ c ∈ otherGap, isBlank c)
      (object : List Char) :
      IsGroup subject relations (some object) (subject ++ gap ++ (relations ++ otherGap ++ object))

theorem IsGroup.words {subject relations body : List Char} {object : Option (List Char)}
    (isGroup : IsGroup subject relations object body) (subjectWord : IsWord subject)
    (objectWord : ∀ text ∈ object, IsWord text) :
    words body = subject :: (words relations ++ object.toList) := by
  cases isGroup with
  | withoutObject nonempty blank =>
      rw [words_append_gap nonempty blank, words_eq_singleton subjectWord]
      simp
  | withObject nonempty blank otherNonempty otherBlank object =>
      rw [words_append_gap nonempty blank, words_append_gap otherNonempty otherBlank,
        words_eq_singleton subjectWord, words_eq_singleton (objectWord object rfl)]
      rfl

theorem statement?_isSome_object {α : Type} {directed : DirectedRelation} {subject : α}
    {object : Option α} {statement : Statement α}
    (stated : directed.statement? subject object = some statement) :
    statement.object.isSome = object.isSome := by
  unfold DirectedRelation.statement? at stated
  split at stated
  · cases stated
    rfl
  · cases stated
    rfl
  · cases stated

theorem readTerm?_isSome {text : Option (List Char)} {object : Option Term} {before after : Scope}
    (read : readTerm? text before = .ok object after) : object.isSome = text.isSome := by
  cases text with
  | none =>
      cases read
      rfl
  | some text =>
      rcases run_map_eq_ok.mp read with ⟨term, _, rfl⟩
      rfl

/-- A group has sentences, and these have objects exactly if the group has one. -/
theorem sentences_of_split {body subjectText relationsText : List Char}
    {objectText : Option (List Char)}
    (cut : splitGroup body = .ok (subjectText, relationsText, objectText)) {before after : Scope}
    {condition : Condition} (read : readRelationalGroup body before = .ok condition after) :
    condition.sentences ≠ [] ∧
      ∀ sentence ∈ condition.sentences, sentence.object.isSome = objectText.isSome := by
  rcases (readRelationalGroup_of_split cut).mp read with
    ⟨subject, _, object, whole, _, readObject, readOperands, rfl⟩
  have stated (operand : Condition) (member : operand ∈ whole.operands) :
      ∃ statement, operand = .sentence statement ∧
        statement.object.isSome = objectText.isSome := by
    rcases exists_of_readPieces readOperands member with ⟨text, readOperand⟩
    rcases readGroupRelation_eq_ok.mp readOperand with ⟨directed, statement, states, rfl⟩
    exact ⟨statement, rfl,
      (statement?_isSome_object states.stated).trans (readTerm?_isSome readObject)⟩
  rw [Condition.sentences_ofChain]
  constructor
  · rcases stated whole.first (by simp [Chain.operands]) with ⟨statement, same, _⟩
    simp [Chain.operands, same, Condition.sentences]
  · intro sentence member
    rcases List.mem_flatMap.mp member with ⟨operand, inChain, inOperand⟩
    rcases stated operand inChain with ⟨statement, rfl, sameObject⟩
    rw [Condition.sentences, List.mem_singleton] at inOperand
    rw [inOperand, sameObject]

/-- A group with an object is read relation by relation, whatever blanks its relations have. -/
theorem readRelationalGroup_withObject {subject relationsText object body : List Char}
    {relations : Chain (List Char)} (subjectWord : IsWord subject) (objectWord : IsWord object)
    (spells : Spells relations relationsText)
    (isGroup : IsGroup subject relationsText (some object) body) {before after : Scope}
    {condition : Condition} :
    readRelationalGroup body before = .ok condition after ↔
      GroupMeans subject relations (some object) before condition after := by
  have cutWords : words body = subject :: (words relationsText ++ [object]) :=
    isGroup.words subjectWord (by simpa using objectWord)
  have nonempty : words relationsText ≠ [] := by
    rcases spells.exists_head? with ⟨c, head, visible⟩
    exact words_ne_nil (List.mem_of_head? head) visible
  have many : 2 ≤ (words relationsText ++ [object]).length := by
    have positive := List.length_pos_iff.mpr nonempty
    rw [List.length_append, List.length_singleton]
    omega
  have cut := splitGroup_of_many cutWords many
  rw [List.dropLast_concat, List.getLast?_concat] at cut
  exact readRelationalGroup_eq_ok cut spells.join_words.pieces

theorem splitGroup_of_solid {subject relationsText body : List Char}
    {relations : Chain (List Char)} (subjectWord : IsWord subject)
    (spells : Spells relations relationsText) (solid : ∀ c ∈ relationsText, isBlank c = false)
    (isGroup : IsGroup subject relationsText none body) :
    splitGroup body = .ok (subject, relationsText, none) := by
  have cutWords := isGroup.words subjectWord (by simp)
  have isWord : IsWord relationsText := by
    rcases spells.exists_head? with ⟨c, head, _⟩
    exact ⟨List.ne_nil_of_mem (List.mem_of_head? head), solid⟩
  rw [words_eq_singleton isWord] at cutWords
  exact splitGroup_eq_ok cutWords

/-- Without an object, a blank between the relations makes an object of the last word. -/
theorem object_of_blank {subject relationsText body : List Char} {relations : Chain (List Char)}
    (subjectWord : IsWord subject) (spells : Spells relations relationsText)
    (hasBlank : ∃ c ∈ relationsText, isBlank c) (isGroup : IsGroup subject relationsText none body)
    {before after : Scope} {condition : Condition}
    (read : readRelationalGroup body before = .ok condition after) :
    ∀ sentence ∈ condition.sentences, sentence.object.isSome := by
  have cutWords : words body = subject :: words relationsText := by
    simpa using isGroup.words subjectWord (by simp)
  have many : 2 ≤ (words relationsText).length := by
    rcases spells.exists_head? with ⟨c, head, visible⟩
    rcases spells.exists_getLast? with ⟨d, last, visibleLast⟩
    rcases hasBlank with ⟨blank, member, isBlank⟩
    exact two_le_length_words head visible last visibleLast member isBlank
  have lastWord : (words relationsText).getLast?.isSome := by
    rw [List.getLast?_isSome, ← List.length_pos_iff]
    omega
  intro sentence member
  rw [(sentences_of_split (splitGroup_of_many cutWords many) read).2 sentence member, lastWord]

/--
Blanks around connectives matter only where a group has no object.  Two
spellings of a group give the same result if there is an object, or if neither
has blanks between its relations.  But a group without object that is read is
never read as the same condition once a blank stands between its relations.
-/
theorem blanks_matter_without_object {subject : List Char} {relations : Chain (List Char)}
    {object : Option (List Char)} {text other body otherBody : List Char}
    (subjectWord : IsWord subject) (objectWord : ∀ word ∈ object, IsWord word)
    (spells : Spells relations text) (spellsOther : Spells relations other)
    (isGroup : IsGroup subject text object body)
    (isGroupOther : IsGroup subject other object otherBody) (before : Scope) :
    (object.isSome ∨ (∀ c ∈ text, isBlank c = false) ∧ (∀ c ∈ other, isBlank c = false) →
      ∀ condition after,
        readRelationalGroup body before = .ok condition after ↔
          readRelationalGroup otherBody before = .ok condition after) ∧
    (object = none → (∀ c ∈ text, isBlank c = false) → (∃ c ∈ other, isBlank c) →
      ∀ condition after otherAfter,
        readRelationalGroup body before = .ok condition after →
          readRelationalGroup otherBody before ≠ .ok condition otherAfter) := by
  constructor
  · intro harmless condition after
    cases object with
    | some object =>
        have objectWord := objectWord object rfl
        rw [readRelationalGroup_withObject subjectWord objectWord spells isGroup,
          readRelationalGroup_withObject subjectWord objectWord spellsOther isGroupOther]
    | none =>
        have solid := harmless.resolve_left (by simp)
        have cut := splitGroup_of_solid subjectWord spells solid.1 isGroup
        have cutOther := splitGroup_of_solid subjectWord spellsOther solid.2 isGroupOther
        rw [readRelationalGroup_eq_ok cut spells.pieces,
          readRelationalGroup_eq_ok cutOther spellsOther.pieces]
  · rintro rfl solid hasBlank condition after otherAfter read readOther
    have cut := splitGroup_of_solid subjectWord spells solid isGroup
    rcases sentences_of_split cut read with ⟨nonempty, objects⟩
    rcases List.exists_mem_of_ne_nil _ nonempty with ⟨sentence, member⟩
    have present := object_of_blank subjectWord spellsOther hasBlank isGroupOther readOther
      sentence member
    simp [objects sentence member] at present

/-- Two relations, one after the other. -/
def likesAndFears : Chain (List Char) :=
  { first := "LIKES".toList, rest := [(.and, "FEARS".toList)] }

theorem spells_likesAndFears (before after : List Char) (blankBefore : ∀ c ∈ before, isBlank c)
    (blankAfter : ∀ c ∈ after, isBlank c) :
    Spells likesAndFears ("LIKES".toList ++ before ++ '&' :: (after ++ "FEARS".toList)) := by
  have likes : IsOperand "LIKES".toList := ⟨by decide, by decide⟩
  have fears : IsOperand "FEARS".toList := ⟨by decide, by decide⟩
  exact .link likes .and blankBefore blankAfter (.single fears)

/-- What MARTHA feels, of somebody or of nobody. -/
def marthaLikesAndFears (object : Option Term) : Condition :=
  .all [.sentence ⟨.noun "MARTHA", .plain "LIKES", object⟩,
    .sentence ⟨.noun "MARTHA", .plain "FEARS", object⟩]

theorem blanks_matter_without_object_to_martha :
    readRelationalGroup "MARTHA LIKES & FEARS GEORGE".toList Scope.empty =
        .ok (marthaLikesAndFears (some (.noun "GEORGE"))) Scope.empty ∧
      ∀ after,
        readRelationalGroup "MARTHA LIKES &FEARS".toList Scope.empty ≠
          .ok (marthaLikesAndFears none) after := by
  have tight : Spells likesAndFears "LIKES&FEARS".toList :=
    spells_likesAndFears [] [] (by decide) (by decide)
  have spaced : Spells likesAndFears "LIKES & FEARS".toList :=
    spells_likesAndFears [' '] [' '] (by decide) (by decide)
  have lopsided : Spells likesAndFears "LIKES &FEARS".toList :=
    spells_likesAndFears [' '] [] (by decide) (by decide)
  have martha : IsWord "MARTHA".toList := by decide
  have george : ∀ word ∈ some "GEORGE".toList, IsWord word := by
    rintro word ⟨⟩
    decide
  have blank : ∀ c ∈ [' '], isBlank c := by decide
  have nonempty : [' '] ≠ [] := List.cons_ne_nil _ _
  constructor
  · refine ((blanks_matter_without_object martha george tight spaced
      (.withObject nonempty blank nonempty blank _) (.withObject nonempty blank nonempty blank _)
      Scope.empty).1 (.inl rfl) _ _).mp ?_
    rfl
  · intro after
    refine (blanks_matter_without_object martha (by simp) tight lopsided
      (.withoutObject nonempty blank) (.withoutObject nonempty blank)
      Scope.empty).2 rfl (by decide) ⟨' ', by decide, rfl⟩ _ Scope.empty after ?_
    rfl

/-- Two spellings of one chain, and the second compiles to a sentence about an odd noun. -/
theorem blank_makes_an_object :
    Spells likesAndFears "LIKES&FEARS".toList ∧ Spells likesAndFears "LIKES &FEARS".toList ∧
      readRelationalGroup "MARTHA LIKES&FEARS".toList Scope.empty =
        .ok (marthaLikesAndFears none) Scope.empty ∧
      readRelationalGroup "MARTHA LIKES &FEARS".toList Scope.empty =
        .ok (.sentence ⟨.noun "MARTHA", .plain "LIKES", some (.noun "&FEARS")⟩) Scope.empty := by
  refine ⟨?_, ?_, rfl, rfl⟩
  · exact spells_likesAndFears [] [] (by decide) (by decide)
  · exact spells_likesAndFears [' '] [] (by decide) (by decide)

end Fabula.Script
