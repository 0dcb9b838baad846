import Fabula.Proofs.Acceptance
import Fabula.Proofs.Notation

/-!
# Groups expand relation by relation

A relational group has one subject, a chain of relations and perhaps one object.
The subject is resolved first, then the object, and each of them only once.
Every relation of the chain then makes a sentence of these two terms, which
change places if the relation carries an arrow.
-/

namespace Fabula.Script

open Outcome Text

/-! ## The parts of a group -/

/-- A text is, up to blanks around it, the token of a relation. -/
def IsToken (text token : List Char) : Prop :=
  IsWord token ∧ trim text = token

/--
The words of a group are its subject, its relation tokens with connectives
between them, and perhaps its object.  Without an object the relations are a
single word.
-/
inductive HasParts (subject : List Char) (relations : Chain (List Char)) :
    Option (List Char) → List Char → Prop where
  | withoutObject {body text : List Char} (cut : words body = [subject, text])
      (alternates : Alternates IsToken text relations) : HasParts subject relations none body
  | withObject {body object : List Char} {between : List (List Char)} (nonempty : between ≠ [])
      (cut : words body = subject :: (between ++ [object]))
      (alternates : Alternates IsToken (join [' '] between) relations) :
      HasParts subject relations (some object) body

/-- The parts of a group are what it is split into. -/
theorem hasParts_iff {body subject : List Char} {relations : Chain (List Char)}
    {object : Option (List Char)} :
    HasParts subject relations object body ↔
      ∃ text, splitGroup body = .ok (subject, text, object) ∧
        Alternates IsToken text relations := by
  constructor
  · rintro (⟨cut, alternates⟩ | ⟨nonempty, cut, alternates⟩)
    · exact ⟨_, splitGroup_eq_ok (by simpa using cut), alternates⟩
    · rename_i object between
      have many : 2 ≤ (between ++ [object]).length := by
        have positive := List.length_pos_iff.mpr nonempty
        rw [List.length_append, List.length_singleton]
        omega
      have split := splitGroup_of_many cut many
      rw [List.dropLast_concat, List.getLast?_concat] at split
      exact ⟨_, split, alternates⟩
  · rintro ⟨text, split, alternates⟩
    match cut : words body with
    | [] =>
        rw [splitGroup, cut] at split
        cases split
    | [_] =>
        rw [splitGroup, cut] at split
        cases split
    | [_, _] =>
        rw [splitGroup, cut] at split
        cases split
        exact .withoutObject cut alternates
    | first :: second :: third :: others =>
        have nonempty : second :: third :: others ≠ [] := List.cons_ne_nil _ _
        have several := splitGroup_of_many cut (by simp)
        rw [List.getLast?_eq_some_getLast nonempty, split] at several
        cases several
        refine .withObject (by simp) ?_ alternates
        rw [List.dropLast_concat_getLast, cut]

/-- The pieces of relation tokens with blanks around them are the tokens. -/
theorem Alternates.pieces {text : List Char} {relations : Chain (List Char)}
    (alternates : Alternates IsToken text relations) : groupPieces text = relations.pieces := by
  rcases alternates with ⟨parts, single, rfl, first, rest⟩
  have ofText {part token : List Char} (isToken : IsToken part token) :
      Piece.ofText part = [.text token] := by
    rw [Piece.ofText, isToken.2, if_neg (by simpa using isToken.1.1)]
  have links (links others : List (Connective × List Char))
      (paired : List.Forall₂ (fun link other => link.1 = other.1 ∧ IsToken link.2 other.2)
        links others) :
      (links.flatMap fun link => .connective link.1 :: Piece.ofText link.2) =
        others.flatMap fun link => [.connective link.1, .text link.2] := by
    induction paired with
    | nil => rfl
    | cons both _ ih => rw [List.flatMap_cons, List.flatMap_cons, both.1, ofText both.2, ih]
  rw [groupPieces_text single, Chain.cut, Chain.pieces, ofText first, links _ _ rest]
  rfl

namespace Chain

variable {α β γ : Type}

/-- A chain with other operands and the same connectives. -/
def map (change : α → β) (chain : Chain α) : Chain β :=
  { first := change chain.first, rest := chain.rest.map fun link => (link.1, change link.2) }

theorem operands_map (change : α → β) (chain : Chain α) :
    (chain.map change).operands = chain.operands.map change := by
  simp [operands, map]

theorem Pairs.operands {related : α → β → Prop} {chain : Chain α} {other : Chain β}
    (pairs : chain.Pairs related other) :
    List.Forall₂ related chain.operands other.operands := by
  refine .cons pairs.first ?_
  rw [List.forall₂_map_left_iff, List.forall₂_map_right_iff]
  exact pairs.rest.imp fun _ _ both => both.2

theorem pairs_map_self {related : α → β → Prop} {change : α → β} {chain : Chain α}
    (isRelated : ∀ operand ∈ chain.operands, related operand (change operand)) :
    chain.Pairs related (chain.map change) := by
  refine ⟨isRelated _ List.mem_cons_self, ?_⟩
  rw [map, List.forall₂_map_right_iff, List.forall₂_same]
  exact fun link member => ⟨rfl, isRelated _ (List.mem_cons_of_mem _ (List.mem_map_of_mem member))⟩

/-- Operands that are related to images are related to the operands of another chain. -/
theorem pairs_map {change : γ → β} {related : α → γ → Prop} {chain : Chain α} {whole : Chain β} :
    chain.Pairs (fun operand image => ∃ other, related operand other ∧ image = change other) whole ↔
      ∃ others : Chain γ, chain.Pairs related others ∧ whole = others.map change := by
  have links (links : List (Connective × α)) (images : List (Connective × β)) :
      List.Forall₂
          (fun link image =>
            link.1 = image.1 ∧ ∃ other, related link.2 other ∧ image.2 = change other)
          links images ↔
        ∃ others : List (Connective × γ),
          List.Forall₂ (fun link other => link.1 = other.1 ∧ related link.2 other.2) links others ∧
            images = others.map fun link => (link.1, change link.2) := by
    induction links generalizing images with
    | nil => simp
    | cons link rest ih =>
        simp only [List.forall₂_cons_left_iff, ih]
        constructor
        · rintro ⟨⟨symbol, _⟩, _, ⟨same, other, isRelated, rfl⟩, ⟨others, paired, rfl⟩, rfl⟩
          exact ⟨(symbol, other) :: others, ⟨_, _, ⟨same, isRelated⟩, paired, rfl⟩, rfl⟩
        · rintro ⟨_, ⟨other, others, ⟨same, isRelated⟩, paired, rfl⟩, rfl⟩
          exact ⟨_, _, ⟨same, other.2, isRelated, rfl⟩, ⟨others, paired, rfl⟩, rfl⟩
  constructor
  · rintro ⟨⟨other, isRelated, isImage⟩, rest⟩
    rcases (links _ _).mp rest with ⟨others, paired, images⟩
    obtain ⟨first, rest⟩ := whole
    exact ⟨{ first := other, rest := others }, ⟨isRelated, paired⟩, by
      rw [map, ← isImage, ← images]⟩
  · rintro ⟨others, ⟨isRelated, paired⟩, rfl⟩
    exact ⟨⟨_, isRelated, rfl⟩, (links _ _).mpr ⟨_, paired, rfl⟩⟩

end Chain

/-- A text whose operands are relations has tokens for parts. -/
theorem exists_tokens {text : List Char} {subject : Term} {object : Option Term}
    {whole : Chain Condition}
    (alternates : Alternates (IsRelationOperand subject object) text whole) :
    ∃ relations, Alternates IsToken text relations := by
  rcases alternates with ⟨parts, single, rfl, pairs⟩
  refine ⟨parts.map trim, parts, single, rfl, Chain.pairs_map_self fun part member => ?_⟩
  rcases exists_of_forall₂ pairs.operands member with ⟨_, _, directed, _, states, _⟩
  exact ⟨⟨states.ne_nil, states.solid⟩, rfl⟩

/-! ## Arrows -/

/-- A relation token carries an arrow: it begins with one, up to the mark of a negation. -/
def HasArrow (token : List Char) : Prop :=
  ['<', '-'] <+: token ∨ ['!', '=', '<', '-'] <+: token

theorem readMark_fst {mark text : List Char} : (readMark mark text).1 ↔ mark <+: text := by
  by_cases begins : mark <+: text
  · rcases begins with ⟨rest, rfl⟩
    simp [readMark_of_isPrefix]
  · simp [readMark_of_not_isPrefix begins, begins]

/-- A relation is negated or exchanges its sides as the marks before its name say. -/
theorem marks_of_readRelation {token : List Char} {directed : DirectedRelation}
    (read : readRelation token = .ok directed) :
    (directed.relation.negated ↔ ['!', '='] <+: token) ∧
      (directed.leftDirected ↔ HasArrow token) := by
  rcases negation : readMark ['!', '='] token with ⟨negated, rest⟩
  rcases arrow : readMark ['<', '-'] rest with ⟨leftDirected, body⟩
  rcases (readRelation_eq_ok negation arrow).mp read with ⟨name, duration, _, _, rfl⟩
  have isNegated : negated ↔ ['!', '='] <+: token := by
    rw [← readMark_fst, negation]
  have isLeft : leftDirected ↔ ['<', '-'] <+: rest := by
    rw [← readMark_fst, arrow]
  refine ⟨isNegated, isLeft.trans ?_⟩
  by_cases begins : ['!', '='] <+: token
  · rcases begins with ⟨behind, rfl⟩
    rw [readMark_of_isPrefix] at negation
    cases negation
    simp [HasArrow, List.cons_prefix_cons]
  · have noMark : ¬['!', '=', '<', '-'] <+: token := fun both =>
      begins ((List.prefix_append ['!', '='] ['<', '-']).trans both)
    rw [readMark_of_not_isPrefix begins] at negation
    cases negation
    simp [HasArrow, noMark]

/-- What a relation token states of a subject and an object, which change places at an arrow. -/
structure IsLeaf (subject : Term) (object : Option Term) (token : List Char)
    (leaf : Sentence) : Prop where
  solid : ∀ c ∈ token, isBlank c = false
  related : ∃ directed, readRelation token = .ok directed ∧ leaf.relation = directed.relation
  negated : leaf.relation.negated ↔ ['!', '='] <+: token
  straight : ¬HasArrow token → leaf.subject = subject ∧ leaf.object = object
  exchanged : HasArrow token → object = some leaf.subject ∧ leaf.object = some subject

/-- Leaves are what the relations of a group state. -/
theorem isLeaf_iff {subject : Term} {object : Option Term} {token : List Char} {leaf : Sentence} :
    IsLeaf subject object token leaf ↔
      ∃ directed, States subject object token directed leaf := by
  constructor
  · rintro ⟨solid, ⟨directed, read, related⟩, _, straight, exchanged⟩
    refine ⟨directed, solid, read, statement?_eq_some.mpr ?_⟩
    obtain ⟨leafSubject, leafRelation, leafObject⟩ := leaf
    cases related
    by_cases arrow : HasArrow token
    · rcases exchanged arrow with ⟨rfl, rfl⟩
      exact .inr ⟨(marks_of_readRelation read).2.mpr arrow, _, rfl, rfl⟩
    · rcases straight arrow with ⟨rfl, rfl⟩
      refine .inl ⟨?_, rfl⟩
      simpa using mt (marks_of_readRelation read).2.mp arrow
  · rintro ⟨directed, solid, read, stated⟩
    rcases marks_of_readRelation read with ⟨negated, arrow⟩
    rcases statement?_eq_some.mp stated with ⟨notLeft, rfl⟩ | ⟨left, target, rfl, rfl⟩
    · refine ⟨solid, ⟨directed, read, rfl⟩, negated, fun _ => ⟨rfl, rfl⟩, fun hasArrow => ?_⟩
      simp [arrow.mpr hasArrow] at notLeft
    · exact ⟨solid, ⟨directed, read, rfl⟩, negated, fun noArrow => absurd (arrow.mp left) noArrow,
        fun _ => ⟨rfl, rfl⟩⟩

/-! ## Expansion -/

/-- A group with parts is read term by term, and then relation by relation. -/
theorem readRelationalGroup_of_parts {body subjectText : List Char}
    {relations : Chain (List Char)} {objectText : Option (List Char)}
    (hasParts : HasParts subjectText relations objectText body) {before after : Scope}
    {condition : Condition} :
    readRelationalGroup body before = .ok condition after ↔
      ∃ subject middle object leaves,
        readTerm subjectText before = .ok subject middle ∧
          readTerm? objectText middle = .ok object after ∧
          relations.Pairs (IsLeaf subject object) leaves ∧
          condition = .ofChain (leaves.map .sentence) := by
  have isOperand (subject : Term) (object : Option Term) (token : List Char)
      (operand : Condition) :
      (∃ directed statement, States subject object token directed statement ∧
          operand = .sentence statement) ↔
        ∃ leaf, IsLeaf subject object token leaf ∧ operand = .sentence leaf := by
    simp only [isLeaf_iff]
    constructor
    · rintro ⟨directed, statement, states, rfl⟩
      exact ⟨statement, ⟨directed, states⟩, rfl⟩
    · rintro ⟨statement, ⟨directed, states⟩, rfl⟩
      exact ⟨directed, statement, states, rfl⟩
  rcases hasParts_iff.mp hasParts with ⟨text, cut, alternates⟩
  rw [readRelationalGroup_eq_ok cut alternates.pieces]
  simp only [GroupMeans, isOperand, Chain.pairs_map]
  constructor
  · rintro ⟨subject, middle, object, _, readSubject, readObject, ⟨leaves, pairs, rfl⟩, rfl⟩
    exact ⟨subject, middle, object, leaves, readSubject, readObject, pairs, rfl⟩
  · rintro ⟨subject, middle, object, leaves, readSubject, readObject, pairs, rfl⟩
    exact ⟨subject, middle, object, _, readSubject, readObject, ⟨leaves, pairs, rfl⟩, rfl⟩

theorem exists_parts_of_read {body : List Char} {before after : Scope} {condition : Condition}
    (read : readRelationalGroup body before = .ok condition after) :
    ∃ subjectText relations objectText, HasParts subjectText relations objectText body := by
  rcases readRelationalGroup_alternates.mp read with
    ⟨subjectText, _, objectText, _, _, _, _, cut, _, _, alternates, _⟩
  rcases exists_tokens alternates with ⟨relations, spelled⟩
  exact ⟨subjectText, relations, objectText, hasParts_iff.mpr ⟨_, cut, spelled⟩⟩

theorem sentences_of_leaves (leaves : Chain Sentence) :
    (Condition.ofChain (leaves.map .sentence)).sentences = leaves.operands := by
  rw [Condition.sentences_ofChain, Chain.operands_map, List.flatMap_map]
  simp [Condition.sentences]

/-- An anonymous term declares one variable, which is new. -/
theorem readTerm_anonymous {className : List Char} {before after : Scope} {term : Term}
    (read : readTerm ('#' :: '.' :: className) before = .ok term after) :
    term = .var (before.newVariable none (String.ofList className) none) ∧
      after = before.add (before.newVariable none (String.ofList className) none) := by
  have declares :
      readTerm ('#' :: '.' :: className) =
        readDeclaration ('#' :: '.' :: className) none className none := by
    rfl
  rw [declares] at read
  rcases readDeclaration_eq_ok.mp read with ⟨_, v, declared, rfl⟩
  cases declared
  exact ⟨rfl, rfl⟩

/-- Without an object no relation of a group that is read carries an arrow. -/
theorem leaves_without_object {body subjectText : List Char} {relations : Chain (List Char)}
    (hasParts : HasParts subjectText relations none body) {before after : Scope}
    {condition : Condition} (read : readRelationalGroup body before = .ok condition after) :
    (∀ token ∈ relations.operands, ¬HasArrow token) ∧
      ∃ subject, readTerm subjectText before = .ok subject after ∧
        ∀ leaf ∈ condition.sentences, leaf.subject = subject ∧ leaf.object = none := by
  rcases (readRelationalGroup_of_parts hasParts).mp read with
    ⟨subject, middle, object, leaves, readSubject, readObject, pairs, rfl⟩
  cases readObject
  have noArrow : ∀ token ∈ relations.operands, ¬HasArrow token := by
    intro token member arrow
    rcases exists_of_forall₂ pairs.operands member with ⟨leaf, _, isLeaf⟩
    cases (isLeaf.exchanged arrow).1
  refine ⟨noArrow, subject, readSubject, ?_⟩
  rw [sentences_of_leaves]
  intro leaf member
  rcases exists_of_forall₂ pairs.operands.flip member with ⟨token, inRelations, isLeaf⟩
  exact isLeaf.straight (noArrow token inRelations)

/--
Groups expand per relation.  Every group that is read has a subject, relations
with connectives between them, and perhaps an object.  Such a group is read
exactly if its subject is read and then its object, once each, and every
relation makes a sentence of these two terms, which change places if it carries
an arrow.  The sentences are joined by the connectives of the relations, and are
in the order of these.  Without an object an arrow is an error.  A term without
a name declares one variable, whatever the number of relations.
-/
theorem groups_expand_per_relation :
    (∀ body before condition after,
      readRelationalGroup body before = .ok condition after →
        ∃ subjectText relations objectText, HasParts subjectText relations objectText body) ∧
    (∀ body subjectText relations objectText,
      HasParts subjectText relations objectText body → ∀ before condition after,
        (readRelationalGroup body before = .ok condition after ↔
          ∃ subject middle object leaves,
            readTerm subjectText before = .ok subject middle ∧
              readTerm? objectText middle = .ok object after ∧
              relations.Pairs (IsLeaf subject object) leaves ∧
              condition = .ofChain (leaves.map .sentence) ∧
              condition.sentences = leaves.operands)) ∧
    (∀ body subjectText relations,
      HasParts subjectText relations none body → ∀ before,
        ((∃ token ∈ relations.operands, HasArrow token) →
          ∃ cause final, readRelationalGroup body before = .error cause final) ∧
        ∀ condition after, readRelationalGroup body before = .ok condition after →
          ∃ subject, readTerm subjectText before = .ok subject after ∧
            ∀ leaf ∈ condition.sentences, leaf.subject = subject ∧ leaf.object = none) ∧
    (∀ className before term after,
      readTerm ('#' :: '.' :: className) before = .ok term after →
        ∃ v, term = .var v ∧ v.id = before.declared.size ∧ after = before.add v) := by
  refine ⟨fun body before condition after => exists_parts_of_read, ?_, ?_, ?_⟩
  · intro body subjectText relations objectText hasParts before condition after
    rw [readRelationalGroup_of_parts hasParts]
    constructor
    · rintro ⟨subject, middle, object, leaves, readSubject, readObject, pairs, rfl⟩
      exact ⟨subject, middle, object, leaves, readSubject, readObject, pairs, rfl,
        sentences_of_leaves leaves⟩
    · rintro ⟨subject, middle, object, leaves, readSubject, readObject, pairs, isChain, _⟩
      exact ⟨subject, middle, object, leaves, readSubject, readObject, pairs, isChain⟩
  · intro body subjectText relations hasParts before
    refine ⟨?_, fun condition after read => (leaves_without_object hasParts read).2⟩
    rintro ⟨token, member, arrow⟩
    cases read : readRelationalGroup body before with
    | ok condition after =>
        exact absurd arrow ((leaves_without_object hasParts read).1 token member)
    | error cause final => exact ⟨cause, final, rfl⟩
  · intro className before term after read
    rcases readTerm_anonymous read with ⟨rfl, rfl⟩
    exact ⟨_, rfl, rfl, rfl⟩

/-- Somebody without a name. -/
def somebody : Variable :=
  { id := 0, name := none, className := "PEOPLE", limit := none }

/-- What somebody may feel, or have to fear. -/
def feelings : Chain (List Char) :=
  { first := "LIKES".toList
    rest := [(.or, "<-FEARS".toList), (.and, "!=HATES>30".toList)] }

/-- Somebody likes MARTHA, or is feared by her and does not hate her for long. -/
def marthaAndSomebody : Chain Sentence :=
  { first := ⟨.var somebody, .plain "LIKES", some (.noun "MARTHA")⟩
    rest :=
      [(.or, ⟨.noun "MARTHA", .plain "FEARS", some (.var somebody)⟩),
        (.and, ⟨.var somebody, ⟨"HATES", true, some ⟨.greater, 30⟩⟩, some (.noun "MARTHA")⟩)] }

theorem hasParts_feelings :
    HasParts "#.PEOPLE".toList feelings (some "MARTHA".toList)
      "#.PEOPLE LIKES/<-FEARS & !=HATES>30 MARTHA".toList := by
  refine hasParts_iff.mpr ⟨"LIKES/<-FEARS & !=HATES>30".toList, rfl, ?_⟩
  refine ⟨⟨"LIKES".toList, [(.or, "<-FEARS ".toList), (.and, " !=HATES>30".toList)]⟩, by decide,
    rfl, ⟨by decide, by decide⟩, ?_⟩
  exact .cons ⟨rfl, by decide, by decide⟩ (.cons ⟨rfl, by decide, by decide⟩ .nil)

theorem groups_expand_per_relation_of_somebody :
    readRelationalGroup "#.PEOPLE LIKES/<-FEARS & !=HATES>30 MARTHA".toList Scope.empty =
        .ok (.ofChain (marthaAndSomebody.map .sentence)) (Scope.empty.add somebody) ∧
      ∃ cause final,
        readRelationalGroup "MARTHA LIKES&<-ASLEEP".toList Scope.empty = .error cause final := by
  constructor
  · refine (groups_expand_per_relation.2.1 _ _ _ _ hasParts_feelings Scope.empty _ _).mpr
      ⟨.var somebody, Scope.empty.add somebody, some (.noun "MARTHA"), marthaAndSomebody, rfl, rfl,
        ⟨isLeaf_iff.mpr ⟨_, by decide, rfl, rfl⟩, ?_⟩, rfl, rfl⟩
    exact .cons ⟨rfl, isLeaf_iff.mpr ⟨_, by decide, rfl, rfl⟩⟩
      (.cons ⟨rfl, isLeaf_iff.mpr ⟨_, by decide, rfl, rfl⟩⟩ .nil)
  · have hasParts :
        HasParts "MARTHA".toList ⟨"LIKES".toList, [(.and, "<-ASLEEP".toList)]⟩ none
          "MARTHA LIKES&<-ASLEEP".toList := by
      refine .withoutObject rfl ⟨⟨"LIKES".toList, [(.and, "<-ASLEEP".toList)]⟩, by decide, rfl,
        ⟨by decide, by decide⟩, ?_⟩
      exact .cons ⟨rfl, by decide, by decide⟩ .nil
    refine (groups_expand_per_relation.2.2.1 _ _ _ hasParts Scope.empty).1
      ⟨"<-ASLEEP".toList, by simp [Chain.operands], .inl ?_⟩
    decide

end Fabula.Script
