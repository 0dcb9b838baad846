import Fabula.Proofs.Groups
import Fabula.Proofs.Notation

/-!
# Leaves of conditions

A condition without branches is printed as a group, and this text is read as
the condition that was printed.  What its parts may be made of is what the
reader asks for: nouns that do not look like variables, relation names without
the symbols of relations, and numbers of 32 bits.
-/

namespace Fabula.Script

open Outcome Text

/-! ## Parts of a sentence -/

/-- A noun that is read as itself: a word that closes no group and looks like no variable. -/
structure IsNoun (text : List Char) : Prop where
  isWord : IsWord text
  unclosed : ')' ∉ text
  notVariable : text ≠ ['X'] ∧ text ≠ ['Y']
  notDeclaration : ¬['X', '.'] <+: text ∧ ¬['Y', '.'] <+: text
  notNumberSign : ¬['#'] <+: text

theorem IsNoun.read {text : List Char} (isNoun : IsNoun text) (scope : Scope) :
    readTerm text scope = .ok (.noun (String.ofList text)) scope :=
  readTerm_eq_noun.mpr
    ⟨⟨isNoun.notVariable, isNoun.notDeclaration, isNoun.notNumberSign⟩, rfl, rfl⟩

/-- A relation name without symbols: a word whose end is seen from what stands behind it. -/
structure IsClear (name : List Char) : Prop where
  isWord : IsWord name
  clear : ∀ c ∈ name, c ∉ [')', '&', '/', '!', '=', '<', '>']

theorem not_infix_of_not_mem {mark text : List Char} {c : Char} (inMark : c ∈ mark)
    (absent : c ∉ text) : ¬mark <:+: text :=
  fun occurs => absent (occurs.subset inMark)

theorem IsClear.not_mem {name : List Char} (isClear : IsClear name) {c : Char}
    (symbol : c ∈ symbolCharacters) : c ∉ name := by
  have reserved : symbolCharacters ⊆ [')', '&', '/', '!', '=', '<', '>'] := by decide
  exact fun member => isClear.clear c member (reserved symbol)

/-- Behind a clear name the symbol of its comparison occurs for the first time. -/
theorem IsClear.cut?_eq_some {name : List Char} (isClear : IsClear name) (comparison : Comparison)
    (minutes : Nat) :
    cut? comparison.durationSymbol.toList
        (name ++ comparison.durationSymbol.toList ++ numeral 0 minutes) =
      some (name, numeral 0 minutes) := by
  rcases exists_getLast?_durationSymbol comparison with ⟨c, last, symbol, notEarlier⟩
  refine (Text.cut?_eq_some (durationSymbol_ne_nil _)).mpr
    ⟨rfl, not_infix_of_not_mem (List.mem_of_getLast? last) ?_⟩
  rw [List.mem_append, not_or]
  exact ⟨isClear.not_mem symbol, notEarlier⟩

/-- A symbol does not occur if the symbol that stands there lacks one of its characters. -/
theorem IsClear.cut?_eq_none {name : List Char} (isClear : IsClear name)
    (comparison candidate : Comparison) (c : Char) (minutes : Nat)
    (inCandidate : c ∈ candidate.durationSymbol.toList)
    (absent : c ∉ comparison.durationSymbol.toList) (symbol : c ∈ symbolCharacters) :
    cut? candidate.durationSymbol.toList
        (name ++ comparison.durationSymbol.toList ++ numeral 0 minutes) =
      none := by
  have notInDigits : c ∉ numeral 0 minutes :=
    symbol_not_mem_digits symbol fun _ => isDigit_of_mem_numeral
  refine (Text.cut?_eq_none (durationSymbol_ne_nil _)).mpr (not_infix_of_not_mem inCandidate ?_)
  simp only [List.mem_append, not_or]
  exact ⟨⟨isClear.not_mem symbol, absent⟩, notInDigits⟩

/-- Behind a clear name a text is cut at the comparison that stands there. -/
theorem IsClear.cutDuration?_eq_some {name : List Char} (isClear : IsClear name)
    (comparison : Comparison) (minutes : Nat) :
    cutDuration? (name ++ comparison.durationSymbol.toList ++ numeral 0 minutes)
        Comparison.searchOrder =
      some (name, comparison, numeral 0 minutes) := by
  have here := isClear.cut?_eq_some comparison minutes
  have skip := fun candidate c => isClear.cut?_eq_none comparison candidate c minutes
  cases comparison with
  | notEqual => simp only [Comparison.searchOrder, cutDuration?, here]
  | equal =>
      have notEqual := skip .notEqual '!' (by decide) (by decide) (by decide)
      simp only [Comparison.searchOrder, cutDuration?, notEqual, here]
  | less =>
      have notEqual := skip .notEqual '!' (by decide) (by decide) (by decide)
      have equal := skip .equal '=' (by decide) (by decide) (by decide)
      simp only [Comparison.searchOrder, cutDuration?, notEqual, equal, here]
  | greater =>
      have notEqual := skip .notEqual '!' (by decide) (by decide) (by decide)
      have equal := skip .equal '=' (by decide) (by decide) (by decide)
      have less := skip .less '<' (by decide) (by decide) (by decide)
      simp only [Comparison.searchOrder, cutDuration?, notEqual, equal, less, here]

theorem IsClear.legible {relation : Relation} (isClear : IsClear relation.name.toList)
    (below : ∀ duration ∈ relation.duration, duration.minutes < wordBound) : Legible relation := by
  refine ⟨isClear.isWord.1, fun token => ?_⟩
  cases given : relation.duration with
  | none =>
      refine readDuration_of_uncut (cutDuration?_eq_none.mpr fun comparison _ => ?_)
      rcases exists_getLast?_durationSymbol comparison with ⟨c, last, symbol, _⟩
      exact not_infix_of_not_mem (List.mem_of_getLast? last) (isClear.not_mem symbol)
  | some duration =>
      exact readDuration_of_cut (below duration given) (isClear.cutDuration?_eq_some _ _)

/-! ## The text of a sentence -/

theorem toList_renderTriple (subject relation : String) (object : Option String) :
    (renderTriple subject relation object).toList =
      join [' '] (subject.toList :: relation.toList :: (object.map String.toList).toList) := by
  cases object with
  | none => simp [renderTriple, join, List.intercalate_cons_cons]
  | some object => simp [renderTriple, join, List.intercalate_cons_cons]

/-- A character that neither closes or cuts a group nor separates its words. -/
structure Inert (c : Char) : Prop where
  visible : isBlank c = false
  unclosed : c ≠ ')'
  single : connectiveOf? c = none

theorem inert_of_isDigit {c : Char} (isDigit : c.isDigit) : Inert c := by
  have other (d : Char) (notDigit : d.isDigit = false) : c ≠ d := by
    rintro rfl
    simp [isDigit] at notDigit
  exact ⟨isBlank_eq_false_of_isDigit isDigit, other _ (by decide),
    connectiveOf?_eq_none (other _ (by decide)) (other _ (by decide))⟩

theorem inert_of_symbol {c : Char} (symbol : c ∈ symbolCharacters) : Inert c := by
  have facts : ∀ c ∈ symbolCharacters,
      isBlank c = false ∧ c ≠ ')' ∧ connectiveOf? c = none := by
    decide
  exact ⟨(facts c symbol).1, (facts c symbol).2.1, (facts c symbol).2.2⟩

theorem IsClear.inert {relation : Relation} (isClear : IsClear relation.name.toList) {c : Char}
    (member : c ∈ relation.render.toList) : Inert c := by
  rw [toList_render_relation, List.mem_append, List.mem_append] at member
  rcases member with mark | inName | behind
  · have marks : (if relation.negated then ['!', '='] else []) ⊆ symbolCharacters := by
      cases relation.negated <;> decide
    exact inert_of_symbol (marks mark)
  · have clear := isClear.clear c inName
    simp only [List.mem_cons, List.not_mem_nil, or_false, not_or] at clear
    exact ⟨isClear.isWord.2 c inName, clear.1, connectiveOf?_eq_none clear.2.1 clear.2.2.1⟩
  · rcases mem_durationText behind with symbol | isDigit
    · exact inert_of_symbol symbol
    · exact inert_of_isDigit isDigit

/-- A sentence about nouns, with a relation that can be read from its text. -/
structure IsClearSentence (sentence : Sentence) : Prop where
  nouns : ∀ term ∈ sentence.parts, ∃ name, term = .noun name ∧ IsNoun name.toList
  relation : IsClear sentence.relation.name.toList
  minutes : ∀ duration ∈ sentence.relation.duration, duration.minutes < wordBound

theorem subject_mem_parts {α : Type} (statement : Statement α) :
    statement.subject ∈ statement.parts :=
  List.mem_cons_self

theorem object_mem_parts {α : Type} {statement : Statement α} {object : α}
    (given : statement.object = some object) : object ∈ statement.parts :=
  List.mem_cons_of_mem _ (Option.mem_toList.mpr given)

theorem IsClearSentence.isNoun {sentence : Sentence} (isClear : IsClearSentence sentence)
    {term : Term} (member : term ∈ sentence.parts) : IsNoun term.render.toList := by
  rcases isClear.nouns term member with ⟨name, rfl, isNoun⟩
  exact isNoun

theorem IsClearSentence.read {sentence : Sentence} (isClear : IsClearSentence sentence)
    {term : Term} (member : term ∈ sentence.parts) (scope : Scope) :
    readTerm term.render.toList scope = .ok term scope := by
  rcases isClear.nouns term member with ⟨name, rfl, isNoun⟩
  have read := isNoun.read scope
  rw [String.ofList_toList] at read
  exact read

/-- The words of a sentence: its terms, with the relation behind the first of them. -/
def sentenceWords (sentence : Sentence) : List (List Char) :=
  sentence.subject.render.toList :: sentence.relation.render.toList ::
    ((sentence.object.map Term.render).map String.toList).toList

theorem toList_render_sentence (sentence : Sentence) :
    sentence.render.toList = '(' :: (join [' '] (sentenceWords sentence) ++ [')']) := by
  rw [Sentence.render, Statement.renderWith, String.toList_append, String.toList_append,
    toList_renderTriple]
  rfl

theorem IsClearSentence.word {sentence : Sentence} (isClear : IsClearSentence sentence)
    {word : List Char} (member : word ∈ sentenceWords sentence) : IsWord word ∧ ')' ∉ word := by
  rw [sentenceWords, List.mem_cons, List.mem_cons] at member
  rcases member with rfl | rfl | inObject
  · have isNoun := isClear.isNoun (subject_mem_parts sentence)
    exact ⟨isNoun.isWord, isNoun.unclosed⟩
  · have named : sentence.relation.render.toList ≠ [] := by
      simp [toList_render_relation, isClear.relation.isWord.1]
    exact ⟨⟨named, fun c inside => (isClear.relation.inert inside).visible⟩, fun inside =>
      (isClear.relation.inert inside).unclosed rfl⟩
  · cases given : sentence.object with
    | none => simp [given] at inObject
    | some object =>
        have isNoun := isClear.isNoun (object_mem_parts given)
        have same : word = object.render.toList := by
          simpa [given] using inObject
        rw [same]
        exact ⟨isNoun.isWord, isNoun.unclosed⟩

theorem readSentences_sentence {sentence : Sentence} (isClear : IsClearSentence sentence)
    (scope : Scope) :
    readSentences sentence.render.toList scope = .ok (.sentence sentence) scope := by
  have cut : words (trim (join [' '] (sentenceWords sentence))) = sentenceWords sentence := by
    rw [words_trim, words_join fun word member => (isClear.word member).1]
  have unclosed : ')' ∉ join [' '] (sentenceWords sentence) := by
    intro member
    rcases mem_join member with blank | ⟨word, inWords, inWord⟩
    · exact absurd blank (by decide)
    · exact (isClear.word inWords).2 inWord
  have readSubject := isClear.read (subject_mem_parts sentence) scope
  have readObject :
      readTerm? ((sentence.object.map Term.render).map String.toList) scope =
        .ok sentence.object scope := by
    cases given : sentence.object with
    | none => rfl
    | some object =>
        exact run_map_eq_ok.mpr ⟨object, isClear.read (object_mem_parts given) scope, rfl⟩
  have related :
      readRelation sentence.relation.render.toList =
        .ok { relation := sentence.relation, leftDirected := false } := by
    refine (isClear.relation.legible isClear.minutes).readRelation_render.mpr fun begins => ?_
    exact isClear.relation.not_mem (by decide) (begins.subset List.mem_cons_self)
  rw [toList_render_sentence]
  exact readSentences_parenthesized unclosed
    (readRelationalGroup_singleton cut (fun c inside => (isClear.relation.inert inside).single)
      readSubject readObject related rfl)

/-! ## The text of a time sentence -/

theorem readTimeGroup_of_single {body : List Char} (trimmed : trim body = body)
    (nonempty : body ≠ []) (single : ∀ c ∈ body, connectiveOf? c = none) {clause : TimeSentence}
    (read : readTimeSentence body = .ok clause) : readTimeGroup body = .ok (.time clause) := by
  have pieces : groupPieces body = Chain.pieces { first := body, rest := [] } := by
    rw [groupPieces_of_single single]
    simp [Piece.ofText, trimmed, nonempty, Chain.pieces]
  have whole :
      readPieces body (fun text => Condition.time <$> readTimeSentence text) .nothing
          (groupPieces body) =
        .ok { first := .time clause, rest := [] } := by
    rw [pieces, readPieces_eq_ok, Chain.reads_pieces]
    exact ⟨map_eq_ok.mpr ⟨clause, read, rfl⟩, .nil⟩
  exact bind_eq_ok.mpr ⟨_, whole, rfl⟩

theorem isWord_numeral (zeros number : Nat) : IsWord (numeral zeros number) :=
  ⟨numeral_ne_nil zeros number, fun _ member =>
    isBlank_eq_false_of_isDigit (isDigit_of_mem_numeral member)⟩

theorem isWord_clockSymbol (comparison : Comparison) : IsWord comparison.clockSymbol.toList := by
  cases comparison <;> decide

/-- The words of a time sentence: the clock, the comparison, and the time behind some zeros. -/
def clauseWords (clause : TimeSentence) : List (List Char) :=
  [['T'], clause.comparison.clockSymbol.toList,
    numeral (4 - (Nat.toDigits 10 clause.time).length) clause.time]

theorem isWord_of_mem_clauseWords {clause : TimeSentence} {word : List Char}
    (member : word ∈ clauseWords clause) : IsWord word := by
  simp only [clauseWords, List.mem_cons, List.not_mem_nil, or_false] at member
  rcases member with rfl | rfl | rfl
  · decide
  · exact isWord_clockSymbol _
  · exact isWord_numeral _ _

theorem toList_render_time (clause : TimeSentence) :
    clause.render.toList = '[' :: (join [' '] (clauseWords clause) ++ [']']) := by
  simp [TimeSentence.render, clauseWords, join, List.intercalate_cons_cons, toList_padded]

theorem mem_clause {clause : TimeSentence} {c : Char}
    (member : c ∈ join [' '] (clauseWords clause)) :
    c ∈ [' ', 'T', '!', '=', '<', '>'] ∨ c.isDigit := by
  rcases mem_join member with rfl | ⟨word, inWords, inWord⟩
  · exact .inl (by decide)
  · simp only [clauseWords, List.mem_cons, List.not_mem_nil, or_false] at inWords
    rcases inWords with rfl | rfl | rfl
    · rw [List.mem_singleton.mp inWord]
      exact .inl (by decide)
    · have symbols : clause.comparison.clockSymbol.toList ⊆ [' ', 'T', '!', '=', '<', '>'] := by
        cases clause.comparison <;> decide
      exact .inl (symbols inWord)
    · exact .inr (isDigit_of_mem_numeral inWord)

theorem trim_join_clauseWords (clause : TimeSentence) :
    trim (join [' '] (clauseWords clause)) = join [' '] (clauseWords clause) :=
  trim_join fun _ => isWord_of_mem_clauseWords

theorem readTimeSentence_clause {clause : TimeSentence} (below : clause.time < wordBound) :
    readTimeSentence (join [' '] (clauseWords clause)) = .ok clause := by
  have cut : words (join [' '] (clauseWords clause)) = clauseWords clause :=
    words_join fun word => isWord_of_mem_clauseWords
  exact readTimeSentence_eq_ok.mpr ⟨[], _, by decide, standsFor_numeral below _, cut⟩

theorem readSentences_time {clause : TimeSentence} (below : clause.time < wordBound)
    (scope : Scope) :
    readSentences clause.render.toList scope = .ok (.time clause) scope := by
  have unclosed : ']' ∉ join [' '] (clauseWords clause) := fun member =>
    absurd (mem_clause member) (by decide)
  have single : ∀ c ∈ join [' '] (clauseWords clause), connectiveOf? c = none := by
    intro c member
    rcases mem_clause member with symbol | isDigit
    · have noConnective : ∀ c ∈ [' ', 'T', '!', '=', '<', '>'], connectiveOf? c = none := by decide
      exact noConnective c symbol
    · exact (inert_of_isDigit isDigit).single
  have nonempty : join [' '] (clauseWords clause) ≠ [] :=
    List.cons_ne_nil 'T' _
  have read : readTimeGroup (join [' '] (clauseWords clause)) = .ok (.time clause) :=
    readTimeGroup_of_single (trim_join_clauseWords clause) nonempty single
      (readTimeSentence_clause below)
  rw [toList_render_time]
  refine readSentences_group .brackets unclosed ?_
  rw [trim_join_clauseWords]
  exact lift_eq_ok.mpr ⟨read, rfl⟩

/-! ## Leaves -/

/-- A condition without branches whose parts can be read from its text. -/
inductive IsClearLeaf : Condition → Prop where
  | sentence {sentence : Sentence} (isClear : IsClearSentence sentence) :
      IsClearLeaf (.sentence sentence)
  | time {clause : TimeSentence} (below : clause.time < wordBound) : IsClearLeaf (.time clause)

/-- In whatever scope, the text of a clear leaf is read as this leaf, and nothing is declared. -/
theorem leaf_reads_back {condition : Condition} (isClear : IsClearLeaf condition) (scope : Scope) :
    readSentences condition.render.toList scope = .ok condition scope := by
  cases isClear with
  | sentence isClear => exact readSentences_sentence isClear scope
  | time below => exact readSentences_time below scope

/-- A negated relation with a duration, between nouns that stand for themselves. -/
def marthaAvoids : Sentence :=
  ⟨.noun "MARTHA", ⟨"LIKES", true, some ⟨.less, 60⟩⟩, some (.noun "X-RAYS")⟩

theorem leaf_reads_back_of_martha :
    readSentences "(MARTHA !=LIKES<60 X-RAYS)".toList Scope.empty =
        .ok (.sentence marthaAvoids) Scope.empty ∧
      readSentences "[T != 0030]".toList Scope.empty =
        .ok (.time ⟨.notEqual, 30⟩) Scope.empty := by
  have martha : IsNoun "MARTHA".toList := by constructor <;> decide
  have rays : IsNoun "X-RAYS".toList := by constructor <;> decide
  have likes : IsClear "LIKES".toList := by constructor <;> decide
  have nouns : ∀ term ∈ marthaAvoids.parts, ∃ name, term = .noun name ∧ IsNoun name.toList := by
    intro term member
    rcases List.mem_pair.mp member with rfl | rfl
    · exact ⟨"MARTHA", rfl, martha⟩
    · exact ⟨"X-RAYS", rfl, rays⟩
  have minutes : ∀ duration ∈ marthaAvoids.relation.duration, duration.minutes < wordBound := by
    decide
  have afterMidnight : TimeSentence.time ⟨.notEqual, 30⟩ < wordBound := by decide
  have printed : Condition.render (.sentence marthaAvoids) = "(MARTHA !=LIKES<60 X-RAYS)" := by
    rfl
  have printedTime : Condition.render (.time ⟨.notEqual, 30⟩) = "[T != 0030]" := by
    rfl
  have reads := leaf_reads_back (.sentence ⟨nouns, likes, minutes⟩) Scope.empty
  have readsTime := leaf_reads_back (.time afterMidnight) Scope.empty
  rw [printed] at reads
  rw [printedTime] at readsTime
  exact ⟨reads, readsTime⟩

end Fabula.Script
