import Fabula.Proofs.Closed
import Fabula.Proofs.Marks
import Fabula.Proofs.Scanning

/-!
# The parts of a group

A group is cut twice: into words, the first and the last of which are subject
and object, and then into pieces at its connectives.  The lemmas below say
what the cuts leave of a text that is put together from parts, and what a
chain of pieces is read as.
-/

namespace Fabula.Script

open Outcome Text

/-! ## A text that is one group -/

theorem readSentences_group {opening closing : Char} {kind : GroupKind}
    (delimits : Delimits kind opening closing) {text : List Char}
    (unclosed : closing ∉ text) {before after : Scope} {condition : Condition}
    (read : readGroup kind (trim text) before = .ok condition after) :
    readSentences (opening :: (text ++ [closing])) before = .ok condition after := by
  refine readSentences_eq_tokensRead.mpr ⟨_, { first := condition, rest := [] },
    scan_group delimits unclosed, .group read (.nil after), rfl⟩

theorem readSentences_parenthesized {text : List Char} (unclosed : ')' ∉ text)
    {before after : Scope} {condition : Condition}
    (read : readRelationalGroup (trim text) before = .ok condition after) :
    readSentences ('(' :: (text ++ [')'])) before = .ok condition after :=
  readSentences_group .parentheses unclosed read

/-! ## Pieces -/

theorem foldr_prependChar_append {stretch : List Char}
    (single : ∀ c ∈ stretch, connectiveOf? c = none) (cut : List Char × List Piece) :
    stretch.foldr prependChar cut = (stretch ++ cut.1, cut.2) := by
  induction stretch with
  | nil => rfl
  | cons c rest ih =>
      rw [List.forall_mem_cons] at single
      rw [List.foldr_cons, ih single.2]
      simp only [prependChar, single.1]
      rfl

/-- A text without connectives is one piece, unless it is blank. -/
theorem groupPieces_of_single {stretch : List Char}
    (single : ∀ c ∈ stretch, connectiveOf? c = none) :
    groupPieces stretch = Piece.ofText stretch := by
  simp [groupPieces, foldr_prependChar_append single]

/-- The first connective of a text cuts off a piece, unless only blanks stand before it. -/
theorem groupPieces_append {stretch : List Char}
    (single : ∀ c ∈ stretch, connectiveOf? c = none) (connective : Connective)
    (text : List Char) :
    groupPieces (stretch ++ connective.symbol :: text) =
      Piece.ofText stretch ++ .connective connective :: groupPieces text := by
  have cut :
      prependChar connective.symbol (text.foldr prependChar ([], [])) =
        ([], .connective connective :: groupPieces text) := by
    rw [prependChar, connectiveOf?_symbol]
    rfl
  rw [groupPieces, List.foldr_append, List.foldr_cons, cut, foldr_prependChar_append single,
    List.append_nil]

theorem ofText_of_isWord {text : List Char} (isWord : IsWord text) :
    Piece.ofText text = [.text text] := by
  simp [Piece.ofText, trim_eq_self isWord, isWord.1]

/-! ## Chains of pieces -/

/-- The pieces that stand for a chain of texts. -/
def Chain.pieces (texts : Chain (List Char)) : List Piece :=
  .text texts.first :: texts.rest.flatMap fun link => [.connective link.1, .text link.2]

/--
Two chains have the same connectives, and the operands of the one are related
to those of the other.
-/
structure Chain.Pairs {α β : Type} (related : α → β → Prop) (chain : Chain α) (other : Chain β) :
    Prop where
  first : related chain.first other.first
  rest :
    List.Forall₂ (fun link other => link.1 = other.1 ∧ related link.2 other.2)
      chain.rest other.rest

/-- The pieces of a chain of texts, each of which has pieces of its own. -/
def Chain.cut (piecesOf : List Char → List Piece) (texts : Chain (List Char)) : List Piece :=
  piecesOf texts.first ++ texts.rest.flatMap fun link => .connective link.1 :: piecesOf link.2

/--
Texts are read as the operands of a chain if this is so of a single text, which
ends where a connective stands.
-/
theorem Chain.reads_cut {α : Type} {readOperand : List Char → Except Error α}
    (piecesOf : List Char → List Piece) {related : List Char → α → Prop}
    (single : ∀ text value rest items,
      (∀ piece ∈ rest.head?, ∃ symbol, piece = .connective symbol) →
        (List.Forall₂ (Piece.Reads readOperand) (piecesOf text ++ rest) (.inr value :: items) ↔
          related text value ∧ List.Forall₂ (Piece.Reads readOperand) rest items))
    {texts : Chain (List Char)} {whole : Chain α} :
    List.Forall₂ (Piece.Reads readOperand) (texts.cut piecesOf) whole.items ↔
      texts.Pairs related whole := by
  have begins (links : List (Connective × List Char)) :
      ∀ piece ∈ (links.flatMap fun link => .connective link.1 :: piecesOf link.2).head?,
        ∃ symbol, piece = .connective symbol := by
    cases links with
    | nil => nofun
    | cons link rest =>
        rintro piece ⟨⟩
        exact ⟨_, rfl⟩
  have behind (links : List (Connective × List Char)) (others : List (Connective × α)) :
      List.Forall₂ (Piece.Reads readOperand)
          (links.flatMap fun link => .connective link.1 :: piecesOf link.2)
          (others.flatMap fun link => [.inl link.1, .inr link.2]) ↔
        List.Forall₂ (fun link other => link.1 = other.1 ∧ related link.2 other.2)
          links others := by
    induction links generalizing others with
    | nil =>
        cases others with
        | nil => simp
        | cons other others => exact ⟨nofun, nofun⟩
    | cons link rest ih =>
        cases others with
        | nil => exact ⟨nofun, nofun⟩
        | cons other others =>
            simp only [List.flatMap_cons, List.cons_append, List.nil_append, List.forall₂_cons,
              Piece.reads_connective, single _ _ _ _ (begins rest), ih, and_assoc]
  rw [Chain.cut, Chain.items, single _ _ _ _ (begins _), behind]
  exact ⟨fun both => ⟨both.1, both.2⟩, fun pairs => ⟨pairs.first, pairs.rest⟩⟩

/-- A chain of pieces is read operand by operand. -/
theorem Chain.reads_pieces {α : Type} {readOperand : List Char → Except Error α}
    {texts : Chain (List Char)} {whole : Chain α} :
    List.Forall₂ (Piece.Reads readOperand) texts.pieces whole.items ↔
      texts.Pairs (fun text operand => readOperand text = .ok operand) whole := by
  refine Chain.reads_cut (fun text => [.text text]) fun text value rest items _ => ?_
  rw [List.singleton_append, List.forall₂_cons, Piece.reads_text]

/-! ## Time sentences -/

/--
A text is a clause: the clock, a comparison, and a number of at most 32 bits,
which may have a plus sign.
-/
def IsClause (text : List Char) (clause : TimeSentence) : Prop :=
  ∃ sign digits, sign ∈ [[], ['+']] ∧ StandsFor wordBound digits clause.time ∧
    words text = [['T'], clause.comparison.clockSymbol.toList, sign ++ digits]

theorem ofClockSymbol?_eq_some {symbol : String} {comparison : Comparison} :
    Comparison.ofClockSymbol? symbol = some comparison ↔ symbol = comparison.clockSymbol := by
  constructor
  · intro found
    have same := List.find?_some found
    exact (beq_iff_eq.mp same).symm
  · rintro rfl
    cases comparison <;> decide

theorem readTimeSentence_eq_ok {text : List Char} {clause : TimeSentence} :
    readTimeSentence text = .ok clause ↔ IsClause text clause := by
  constructor
  · intro read
    rw [readTimeSentence] at read
    split at read
    · rename_i clock symbol time cut
      split at read
      · cases read
      · rename_i isClock
        split at read
        · cases read
        · rename_i comparison found
          split at read
          · rename_i number readNumber
            cases read
            rcases (readNat?_eq_some (by decide)).mp readNumber with
              ⟨sign, digits, isSign, rfl, standsFor⟩
            refine ⟨sign, digits, isSign, standsFor, ?_⟩
            have sameClock : clock = ['T'] := by
              simpa using isClock
            have sameSymbol : symbol = comparison.clockSymbol.toList := by
              rw [← ofClockSymbol?_eq_some.mp found, String.toList_ofList]
            rw [cut, sameClock, sameSymbol]
          · cases read
    · cases read
  · rintro ⟨sign, digits, isSign, standsFor, cut⟩
    have readNumber : readNat? wordBound (sign ++ digits) = some clause.time :=
      (readNat?_eq_some (by decide)).mpr ⟨sign, digits, isSign, rfl, standsFor⟩
    have found : Comparison.ofClockSymbol? clause.comparison.clockSymbol = some clause.comparison :=
      ofClockSymbol?_eq_some.mpr rfl
    rw [readTimeSentence, cut]
    simp [found, readNumber]

/-! ## Relational groups -/

/--
A text without blanks is read as a relation, which makes a sentence of a
subject and an object.
-/
structure States (subject : Term) (object : Option Term) (text : List Char)
    (directed : DirectedRelation) (statement : Statement Term) : Prop where
  solid : ∀ c ∈ text, isBlank c = false
  related : readRelation text = .ok directed
  stated : directed.statement? subject object = some statement

/-- A relation is not empty, since it has a name. -/
theorem States.ne_nil {subject : Term} {object : Option Term} {text : List Char}
    {directed : DirectedRelation} {statement : Statement Term}
    (states : States subject object text directed statement) : text ≠ [] := by
  rintro rfl
  cases states.related

theorem readGroupRelation_eq_ok {body text : List Char} {subject : Term} {object : Option Term}
    {condition : Condition} :
    readGroupRelation body subject object text = .ok condition ↔
      ∃ directed statement, States subject object text directed statement ∧
        condition = .sentence statement := by
  rw [readGroupRelation]
  constructor
  · intro read
    split at read
    · cases read
    · rename_i noBlank
      rcases bind_eq_ok.mp read with ⟨directed, related, read⟩
      split at read
      · rename_i statement stated
        cases read
        exact ⟨directed, statement, ⟨by simpa using noBlank, related, stated⟩, rfl⟩
      · cases read
  · rintro ⟨directed, statement, states, rfl⟩
    have noBlank : ¬text.any isBlank = true := by
      simpa using states.solid
    rw [if_neg noBlank]
    refine bind_eq_ok.mpr ⟨directed, states.related, ?_⟩
    rw [states.stated]
    rfl

/-- A group that is cut into its parts is read term by term, then relation by relation. -/
theorem readRelationalGroup_of_split {body subjectText relationsText : List Char}
    {objectText : Option (List Char)}
    (cut : splitGroup body = .ok (subjectText, relationsText, objectText)) {before after : Scope}
    {condition : Condition} :
    readRelationalGroup body before = .ok condition after ↔
      ∃ subject middle object whole,
        readTerm subjectText before = .ok subject middle ∧
        readTerm? objectText middle = .ok object after ∧
        readPieces body (readGroupRelation body subject object) .nothing
            (groupPieces relationsText) = .ok whole ∧
        condition = .ofChain whole := by
  constructor
  · intro read
    rcases readRelationalGroup_parts read with
      ⟨_, _, _, subject, middle, object, whole, sameCut, parts⟩
    cases cut.symm.trans sameCut
    exact ⟨subject, middle, object, whole, parts⟩
  · rintro ⟨subject, middle, object, whole, readSubject, readObject, readOperands, rfl⟩
    refine run_bind_eq_ok.mpr ⟨(subjectText, relationsText, objectText), before,
      lift_eq_ok.mpr ⟨cut, rfl⟩, ?_⟩
    refine run_bind_eq_ok.mpr ⟨subject, middle, readSubject, ?_⟩
    refine run_bind_eq_ok.mpr ⟨object, after, readObject, ?_⟩
    exact run_bind_eq_ok.mpr ⟨whole, after, lift_eq_ok.mpr ⟨readOperands, rfl⟩, rfl⟩

/--
What the parts of a relational group are read as: first the subject, then the
object, then every relation of the chain with the same subject and object.
-/
def GroupMeans (subjectText : List Char) (relations : Chain (List Char))
    (objectText : Option (List Char)) (before : Scope) (condition : Condition) (after : Scope) :
    Prop :=
  ∃ subject middle object whole,
    readTerm subjectText before = .ok subject middle ∧
    readTerm? objectText middle = .ok object after ∧
    relations.Pairs
      (fun text operand => ∃ directed statement, States subject object text directed statement ∧
        operand = .sentence statement) whole ∧
    condition = .ofChain whole

theorem readRelationalGroup_eq_ok {body subjectText relationsText : List Char}
    {objectText : Option (List Char)} {relations : Chain (List Char)}
    (cut : splitGroup body = .ok (subjectText, relationsText, objectText))
    (pieces : groupPieces relationsText = relations.pieces) {before after : Scope}
    {condition : Condition} :
    readRelationalGroup body before = .ok condition after ↔
      GroupMeans subjectText relations objectText before condition after := by
  simp only [readRelationalGroup_of_split cut, pieces, readPieces_eq_ok, Chain.reads_pieces,
    readGroupRelation_eq_ok, GroupMeans]

theorem splitGroup_eq_ok {body subject relation : List Char} {object : Option (List Char)}
    (cut : words body = subject :: relation :: object.toList) :
    splitGroup body = .ok (subject, relation, object) := by
  cases object with
  | none => simp only [splitGroup, cut, Option.toList_none]
  | some object => simp [splitGroup, cut, join]

/-- Of three words or more the last is the object. -/
theorem splitGroup_of_many {body subject : List Char} {others : List (List Char)}
    (cut : words body = subject :: others) (many : 2 ≤ others.length) :
    splitGroup body = .ok (subject, join [' '] others.dropLast, others.getLast?) := by
  match others, many with
  | _ :: _ :: _, _ => simp only [splitGroup, cut]

/-- A group with a single relation is a sentence. -/
theorem readRelationalGroup_singleton {body subjectText relation : List Char}
    {objectText : Option (List Char)}
    (cut : words body = subjectText :: relation :: objectText.toList)
    (single : ∀ c ∈ relation, connectiveOf? c = none) {before middle after : Scope}
    {subject : Term} {object : Option Term} {directed : DirectedRelation}
    {sentence : Statement Term}
    (readSubject : readTerm subjectText before = .ok subject middle)
    (readObject : readTerm? objectText middle = .ok object after)
    (related : readRelation relation = .ok directed)
    (stated : directed.statement? subject object = some sentence) :
    readRelationalGroup body before = .ok (.sentence sentence) after := by
  have isWord : IsWord relation := by
    have member : relation ∈ words body := by
      simp [cut]
    exact mem_words member
  have pieces : groupPieces relation = Chain.pieces { first := relation, rest := [] } := by
    rw [groupPieces_of_single single, ofText_of_isWord isWord]
    rfl
  rw [readRelationalGroup_eq_ok (splitGroup_eq_ok cut) pieces]
  refine ⟨subject, middle, object, { first := .sentence sentence, rest := [] }, readSubject,
    readObject, ⟨?_, .nil⟩, rfl⟩
  exact ⟨directed, sentence, ⟨isWord.2, related, stated⟩, rfl⟩

end Fabula.Script
