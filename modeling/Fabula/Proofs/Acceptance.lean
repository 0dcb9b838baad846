import Fabula.Proofs.Groups
import Fabula.Proofs.Precedence

/-!
# Sentence lists are infix

What is accepted as a sentence list is an alternation of groups and
connectives that begins and ends with a group, and so is the text of a group an
alternation of clauses or of relations.  No connective may be missing, doubled,
leading or trailing.  Groups are read in turn, each in the scope that the groups
before it leave, and every one of them becomes an operand.
-/

namespace Fabula.Script

open Outcome Text

/-! ## Alternations -/

namespace Chain

/-- The connectives of a chain, in order. -/
def connectives {α : Type} (chain : Chain α) : List Connective :=
  chain.rest.map Prod.fst

/-- The tokens of groups with connectives between them. -/
def tokens (groups : Chain (GroupKind × List Char)) : List Token :=
  .group groups.first.1 groups.first.2 ::
    groups.rest.flatMap fun link => [.connective link.1, .group link.2.1 link.2.2]

/-- Texts with the symbols of connectives between them. -/
def text (parts : Chain (List Char)) : List Char :=
  parts.first ++ parts.rest.flatMap fun link => link.1.symbol :: link.2

end Chain

/-- A text alternates between texts of operands and symbols of connectives. -/
def Alternates {α : Type} (isOperand : List Char → α → Prop) (text : List Char)
    (whole : Chain α) : Prop :=
  ∃ parts : Chain (List Char),
    (∀ part ∈ parts.operands, '&' ∉ part ∧ '/' ∉ part) ∧ text = parts.text ∧
      parts.Pairs isOperand whole

/-- A text is the time sentence of a time group. -/
def IsTimeOperand (text : List Char) (operand : Condition) : Prop :=
  ∃ clause, IsClause text clause ∧ operand = .time clause

/-- A text is, up to blanks around it, a relation between a subject and an object. -/
def IsRelationOperand (subject : Term) (object : Option Term) (text : List Char)
    (operand : Condition) : Prop :=
  ∃ directed statement, States subject object (trim text) directed statement ∧
    operand = .sentence statement

/-! ## Cutting a text at its connectives -/

theorem connectiveOf?_of_not_mem {part : List Char} (single : '&' ∉ part ∧ '/' ∉ part) :
    ∀ c ∈ part, connectiveOf? c = none := by
  intro c member
  refine connectiveOf?_eq_none ?_ ?_
  · rintro rfl
    exact single.1 member
  · rintro rfl
    exact single.2 member

/-- A text of a chain has the pieces of its parts. -/
theorem groupPieces_text {parts : Chain (List Char)}
    (single : ∀ part ∈ parts.operands, '&' ∉ part ∧ '/' ∉ part) :
    groupPieces parts.text = parts.cut Piece.ofText := by
  obtain ⟨first, rest⟩ := parts
  induction rest generalizing first with
  | nil =>
      have firstSingle := connectiveOf?_of_not_mem (single first List.mem_cons_self)
      simp [Chain.text, Chain.cut, groupPieces_of_single firstSingle]
  | cons link rest ih =>
      have firstSingle := connectiveOf?_of_not_mem (single first List.mem_cons_self)
      have behind := ih link.2 fun part member => single part (List.mem_cons_of_mem _ member)
      simp only [Chain.text, Chain.cut, List.flatMap_cons, List.cons_append] at behind ⊢
      rw [groupPieces_append firstSingle, behind]

/-- Every text is cut into parts without connectives. -/
theorem exists_parts (text : List Char) :
    ∃ parts : Chain (List Char), (∀ part ∈ parts.operands, '&' ∉ part ∧ '/' ∉ part) ∧
      text = parts.text := by
  induction text with
  | nil => exact ⟨{ first := [], rest := [] }, by simp [Chain.operands], rfl⟩
  | cons c rest ih =>
      rcases ih with ⟨⟨first, links⟩, single, rfl⟩
      have cutOff (connective : Connective) :
          ∃ parts : Chain (List Char), (∀ part ∈ parts.operands, '&' ∉ part ∧ '/' ∉ part) ∧
            connective.symbol :: Chain.text ⟨first, links⟩ = parts.text := by
        refine ⟨⟨[], (connective, first) :: links⟩, ?_, rfl⟩
        exact List.forall_mem_cons.mpr ⟨by simp, single⟩
      by_cases isAnd : c = '&'
      · subst isAnd
        exact cutOff .and
      · by_cases isOr : c = '/'
        · subst isOr
          exact cutOff .or
        · have firstSingle := List.forall_mem_cons.mp single
          refine ⟨⟨c :: first, links⟩, List.forall_mem_cons.mpr ⟨?_, firstSingle.2⟩, rfl⟩
          simp [Ne.symm isAnd, Ne.symm isOr, firstSingle.1]

/--
A part before a connective is read as an operand, unless it is blank: then it
leaves no piece, and the connective stands where an operand is due.
-/
theorem reads_ofText {α : Type} {readOperand : List Char → Except Error α} {part : List Char}
    {value : α} {rest : List Piece} {items : List (Connective ⊕ α)}
    (begins : ∀ piece ∈ rest.head?, ∃ symbol, piece = .connective symbol) :
    List.Forall₂ (Piece.Reads readOperand) (Piece.ofText part ++ rest) (.inr value :: items) ↔
      (trim part ≠ [] ∧ readOperand (trim part) = .ok value) ∧
        List.Forall₂ (Piece.Reads readOperand) rest items := by
  by_cases blank : trim part = []
  · have dropped : Piece.ofText part = [] := by
      simp [Piece.ofText, blank]
    rw [dropped, List.nil_append]
    refine ⟨fun reads => ?_, fun both => absurd blank both.1.1⟩
    cases reads with
    | cons read _ =>
        rcases begins _ rfl with ⟨symbol, rfl⟩
        cases read
  · have kept : Piece.ofText part = [.text (trim part)] := by
      simp [Piece.ofText, blank]
    rw [kept, List.singleton_append, List.forall₂_cons, Piece.reads_text]
    simp [blank]

/-- A text is read as a chain if it alternates between what is read as operands. -/
theorem readPieces_groupPieces {α : Type} {body text : List Char}
    {readOperand : List Char → Except Error α} {whole : Chain α} :
    readPieces body readOperand .nothing (groupPieces text) = .ok whole ↔
      Alternates (fun part operand => trim part ≠ [] ∧ readOperand (trim part) = .ok operand)
        text whole := by
  have reads (parts : Chain (List Char))
      (single : ∀ part ∈ parts.operands, '&' ∉ part ∧ '/' ∉ part) :
      List.Forall₂ (Piece.Reads readOperand) (groupPieces parts.text) whole.items ↔
        parts.Pairs (fun part operand => trim part ≠ [] ∧ readOperand (trim part) = .ok operand)
          whole := by
    rw [groupPieces_text single]
    exact Chain.reads_cut _ fun part value rest items => reads_ofText
  rw [readPieces_eq_ok]
  constructor
  · intro readAll
    rcases exists_parts text with ⟨parts, single, rfl⟩
    exact ⟨parts, single, rfl, (reads parts single).mp readAll⟩
  · rintro ⟨parts, single, rfl, pairs⟩
    exact (reads parts single).mpr pairs

/-! ## Groups -/

/-- The text of a time group alternates between clauses and connectives. -/
theorem readTimeGroup_eq_ok {body : List Char} {condition : Condition} :
    readTimeGroup body = .ok condition ↔
      ∃ whole, Alternates IsTimeOperand body whole ∧ condition = .ofChain whole := by
  have isOperand (part : List Char) (operand : Condition) :
      (trim part ≠ [] ∧ Condition.time <$> readTimeSentence (trim part) = .ok operand) ↔
        IsTimeOperand part operand := by
    have sameClause (clause : TimeSentence) :
        IsClause (trim part) clause ↔ IsClause part clause := by
      rw [IsClause, IsClause, words_trim]
    constructor
    · rintro ⟨_, read⟩
      rcases map_eq_ok.mp read with ⟨clause, readClause, rfl⟩
      exact ⟨clause, (sameClause clause).mp (readTimeSentence_eq_ok.mp readClause), rfl⟩
    · rintro ⟨clause, isClause, rfl⟩
      have read := readTimeSentence_eq_ok.mpr ((sameClause clause).mpr isClause)
      refine ⟨fun blank => ?_, map_eq_ok.mpr ⟨clause, read, rfl⟩⟩
      rw [blank] at read
      cases read
  rw [readTimeGroup, bind_eq_ok]
  simp only [readPieces_groupPieces, isOperand]
  constructor
  · rintro ⟨whole, alternates, returned⟩
    cases returned
    exact ⟨whole, alternates, rfl⟩
  · rintro ⟨whole, alternates, rfl⟩
    exact ⟨whole, alternates, rfl⟩

/-- The relations of a group alternate with connectives. -/
theorem readPieces_relations (body : List Char) {text : List Char} {subject : Term}
    {object : Option Term} {whole : Chain Condition} :
    readPieces body (readGroupRelation body subject object) .nothing (groupPieces text) =
        .ok whole ↔
      Alternates (IsRelationOperand subject object) text whole := by
  have isOperand (part : List Char) (operand : Condition) :
      (trim part ≠ [] ∧ readGroupRelation body subject object (trim part) = .ok operand) ↔
        IsRelationOperand subject object part operand := by
    rw [readGroupRelation_eq_ok]
    refine ⟨And.right, fun isRelation => ⟨?_, isRelation⟩⟩
    rcases isRelation with ⟨_, _, states, _⟩
    exact states.ne_nil
  simp only [readPieces_groupPieces, isOperand]

theorem readRelationalGroup_alternates {body : List Char} {before after : Scope}
    {condition : Condition} :
    readRelationalGroup body before = .ok condition after ↔
      ∃ subjectText relationsText objectText subject middle object whole,
        splitGroup body = .ok (subjectText, relationsText, objectText) ∧
          readTerm subjectText before = .ok subject middle ∧
          readTerm? objectText middle = .ok object after ∧
          Alternates (IsRelationOperand subject object) relationsText whole ∧
          condition = .ofChain whole := by
  simp only [← readPieces_relations body]
  constructor
  · exact readRelationalGroup_parts
  · rintro ⟨_, _, _, subject, middle, object, whole, cut, parts⟩
    exact (readRelationalGroup_of_split cut).mpr ⟨subject, middle, object, whole, parts⟩

/-! ## Tokens -/

theorem tokensRead_links {tokens : List Token} {before after : Scope}
    {links : List (Connective × Condition)} :
    TokensRead tokens before (links.flatMap fun link => [.inl link.1, .inr link.2]) after ↔
      ∃ groups : List (Connective × GroupKind × List Char),
        tokens = groups.flatMap (fun link => [.connective link.1, .group link.2.1 link.2.2]) ∧
          groups.map Prod.fst = links.map Prod.fst ∧
          (groups.map Prod.snd).mapM (fun group => readGroup group.1 group.2) before =
            .ok (links.map Prod.snd) after := by
  induction links generalizing tokens before with
  | nil =>
      constructor
      · rintro (_ | _)
        exact ⟨[], rfl, rfl, rfl⟩
      · rintro ⟨groups, rfl, noConnectives, read⟩
        rw [List.map_nil, List.map_eq_nil_iff] at noConnectives
        subst noConnectives
        cases read
        exact .nil _
  | cons link rest ih =>
      obtain ⟨symbol, operand⟩ := link
      constructor
      · rintro (_ | ⟨_, _ | _ | ⟨read, reads⟩⟩)
        rcases ih.mp reads with ⟨groups, rfl, sameConnectives, readRest⟩
        exact ⟨(symbol, _, _) :: groups, rfl, by simp [sameConnectives],
          run_mapM_cons_eq_ok.mpr ⟨_, _, _, read, readRest, rfl⟩⟩
      · rintro ⟨_ | ⟨⟨other, kind, body⟩, groups⟩, rfl, sameConnectives, read⟩
        · cases sameConnectives
        · rcases List.cons.inj sameConnectives with ⟨rfl, sameRest⟩
          rcases run_mapM_cons_eq_ok.mp read with ⟨_, middle, _, readFirst, readRest, same⟩
          cases same
          exact .connective _ (.group readFirst (ih.mpr ⟨groups, rfl, sameRest, readRest⟩))

/-- Tokens that are read as the items of a chain are a chain of groups, which are read in turn. -/
theorem tokensRead_items {tokens : List Token} {before after : Scope} {whole : Chain Condition} :
    TokensRead tokens before whole.items after ↔
      ∃ groups : Chain (GroupKind × List Char),
        tokens = groups.tokens ∧ groups.connectives = whole.connectives ∧
          groups.operands.mapM (fun group => readGroup group.1 group.2) before =
            .ok whole.operands after := by
  constructor
  · rintro (_ | _ | ⟨read, reads⟩)
    rcases tokensRead_links.mp reads with ⟨groups, rfl, sameConnectives, readRest⟩
    exact ⟨{ first := (_, _), rest := groups }, rfl, sameConnectives,
      run_mapM_cons_eq_ok.mpr ⟨_, _, _, read, readRest, rfl⟩⟩
  · rintro ⟨groups, rfl, sameConnectives, read⟩
    rcases run_mapM_cons_eq_ok.mp read with ⟨_, middle, _, readFirst, readRest, same⟩
    cases same
    exact .group readFirst (tokensRead_links.mpr ⟨groups.rest, rfl, sameConnectives, readRest⟩)

theorem readSentences_eq_ok {text : List Char} {before after : Scope} {condition : Condition} :
    readSentences text before = .ok condition after ↔
      ∃ (groups : Chain (GroupKind × List Char)) (whole : Chain Condition),
        scan text = .ok groups.tokens ∧ groups.connectives = whole.connectives ∧
          groups.operands.mapM (fun group => readGroup group.1 group.2) before =
            .ok whole.operands after ∧
          condition = .ofChain whole := by
  rw [readSentences_eq_tokensRead]
  simp only [tokensRead_items]
  constructor
  · rintro ⟨_, whole, scanned, ⟨groups, rfl, sameConnectives, readGroups⟩, rfl⟩
    exact ⟨groups, whole, scanned, sameConnectives, readGroups, rfl⟩
  · rintro ⟨groups, whole, scanned, sameConnectives, readGroups, rfl⟩
    exact ⟨_, whole, scanned, ⟨groups, rfl, sameConnectives, readGroups⟩, rfl⟩

/--
Sentence lists are infix.  A text is accepted if and only if it is scanned as
groups with connectives between them, and the groups are read in turn; its
condition is then built over one operand for each group, in order and with the
same connectives between them.  The text of a time group is accepted if and only
if it alternates between clauses and connectives, and that of a relational group
if its terms are read and its relations alternate with connectives.
-/
theorem sentence_lists_are_infix :
    (∀ text before condition after,
      readSentences text before = .ok condition after ↔
        ∃ (groups : Chain (GroupKind × List Char)) (whole : Chain Condition),
          scan text = .ok groups.tokens ∧ groups.connectives = whole.connectives ∧
            groups.operands.mapM (fun group => readGroup group.1 group.2) before =
              .ok whole.operands after ∧
            condition = .ofChain whole ∧ condition.BuiltOver whole.operands) ∧
    (∀ body before condition after,
      readGroup .time body before = .ok condition after ↔
        after = before ∧
          ∃ whole, Alternates IsTimeOperand body whole ∧ condition = .ofChain whole) ∧
    (∀ body before condition after,
      readGroup .relational body before = .ok condition after ↔
        ∃ subjectText relationsText objectText subject middle object whole,
          splitGroup body = .ok (subjectText, relationsText, objectText) ∧
            readTerm subjectText before = .ok subject middle ∧
            readTerm? objectText middle = .ok object after ∧
            Alternates (IsRelationOperand subject object) relationsText whole ∧
            condition = .ofChain whole) := by
  refine ⟨fun text before condition after => ?_, fun body before condition after => ?_,
    fun body before condition after => ?_⟩
  · rw [readSentences_eq_ok]
    constructor
    · rintro ⟨groups, whole, scanned, sameConnectives, readGroups, rfl⟩
      exact ⟨groups, whole, scanned, sameConnectives, readGroups, rfl,
        Condition.ofChain_builtOver whole⟩
    · rintro ⟨groups, whole, scanned, sameConnectives, readGroups, isChain, _⟩
      exact ⟨groups, whole, scanned, sameConnectives, readGroups, isChain⟩
  · rw [← readTimeGroup_eq_ok, and_comm]
    exact lift_eq_ok
  · exact readRelationalGroup_alternates

end Fabula.Script
