import Fabula.Proofs.Marks
import Fabula.Proofs.Outcome
import Fabula.Proofs.Words
import Fabula.Script.Sentence

/-!
# The notation of relations

A relation is printed without an arrow, and its text is read as the relation
that was printed: the search for a comparison ends at the one behind the name,
whatever symbols the name has.  Only a name that begins with an arrow itself is
not read again.  `<-<-LOVES=5` has such a name, and the arrow in it looks as if
it exchanged the sides of `LOVES=5`.
-/

namespace Fabula.Script

open Outcome Text

/-! ## Durations -/

theorem durationSymbol_ne_nil (comparison : Comparison) :
    comparison.durationSymbol.toList ≠ [] := by
  cases comparison <;> decide

/-- The characters of marks and comparisons. -/
def symbolCharacters : List Char :=
  ['!', '=', '<', '>']

theorem symbol_not_mem_digits {c : Char} (symbol : c ∈ symbolCharacters) {digits : List Char}
    (isDigit : ∀ c ∈ digits, c.isDigit) : c ∉ digits := by
  have noDigit : ∀ c ∈ symbolCharacters, ¬c.isDigit := by
    decide
  exact fun member => noDigit c symbol (isDigit c member)

/-- A comparison ends in a character that it has only there. -/
theorem exists_getLast?_durationSymbol (comparison : Comparison) :
    ∃ c, comparison.durationSymbol.toList.getLast? = some c ∧ c ∈ symbolCharacters ∧
      c ∉ comparison.durationSymbol.toList.dropLast := by
  cases comparison <;> exact ⟨_, rfl, by decide, by decide⟩

theorem cutDuration?_eq_none {text : List Char} {order : List Comparison} :
    cutDuration? text order = none ↔
      ∀ comparison ∈ order, ¬comparison.durationSymbol.toList <:+: text := by
  induction order with
  | nil => simp [cutDuration?]
  | cons comparison rest ih =>
      rw [List.forall_mem_cons, ← cut?_eq_none (durationSymbol_ne_nil comparison), ← ih]
      cases found : cut? comparison.durationSymbol.toList text with
      | none => simp [cutDuration?, found]
      | some parts => simp [cutDuration?, found]

theorem cutDuration?_append {text name value : List Char} {comparison : Comparison}
    {order : List Comparison} (cut : cutDuration? text order = some (name, comparison, value)) :
    text = name ++ comparison.durationSymbol.toList ++ value := by
  induction order with
  | nil => cases cut
  | cons candidate rest ih =>
      rw [cutDuration?] at cut
      split at cut
      · rename_i found
        cases cut
        exact ((cut?_eq_some (durationSymbol_ne_nil _)).mp found).1
      · exact ih cut

/-- Digits behind a comparison may give way to others: the text is cut at the same place. -/
theorem cutDuration?_replace {text name value digits : List Char} {comparison : Comparison}
    {order : List Comparison} (cut : cutDuration? text order = some (name, comparison, value))
    (isDigit : ∀ c ∈ digits, c.isDigit) :
    cutDuration? (name ++ comparison.durationSymbol.toList ++ digits) order =
      some (name, comparison, digits) := by
  have split := cutDuration?_append cut
  induction order with
  | nil => cases cut
  | cons candidate rest ih =>
      have nonempty := durationSymbol_ne_nil candidate
      rw [cutDuration?] at cut ⊢
      cases found : cut? candidate.durationSymbol.toList text with
      | some parts =>
          rw [found] at cut
          cases cut
          have first := ((cut?_eq_some nonempty).mp found).2
          rw [(cut?_eq_some nonempty).mpr ⟨rfl, first⟩]
      | none =>
          rw [found] at cut
          have absent :
              ¬candidate.durationSymbol.toList <:+:
                name ++ comparison.durationSymbol.toList ++ digits := by
            rcases exists_getLast?_durationSymbol candidate with ⟨c, last, symbol, _⟩
            have notInDigits := symbol_not_mem_digits symbol isDigit
            intro occurs
            refine (cut?_eq_none nonempty).mp found ?_
            rw [split]
            exact (infix_of_infix_append last notInDigits occurs).trans
              (List.prefix_append _ _).isInfix
          rw [(cut?_eq_none nonempty).mpr absent]
          exact ih cut

/-- The text of a duration, if there is one. -/
def durationText (duration : Option Duration) : List Char :=
  ((duration.map Duration.render).getD "").toList

theorem durationText_some (duration : Duration) :
    durationText (some duration) =
      duration.comparison.durationSymbol.toList ++ numeral 0 duration.minutes := by
  rw [← toList_toString]
  exact String.toList_append

theorem mem_durationText {duration : Option Duration} {c : Char}
    (member : c ∈ durationText duration) : c ∈ symbolCharacters ∨ c.isDigit := by
  cases duration with
  | none => cases member
  | some duration =>
      rw [durationText_some, List.mem_append] at member
      rcases member with symbol | digit
      · left
        revert c
        cases duration.comparison <;> decide
      · exact .inr (isDigit_of_mem_numeral digit)

/-- A duration is read again if the text is cut at its comparison. -/
theorem readDuration_of_cut {token name : List Char} {duration : Duration}
    (below : duration.minutes < wordBound)
    (cut :
      cutDuration? (name ++ duration.comparison.durationSymbol.toList ++ numeral 0 duration.minutes)
          Comparison.searchOrder =
        some (name, duration.comparison, numeral 0 duration.minutes)) :
    readDuration token (name ++ durationText (some duration)) = .ok (name, some duration) := by
  rw [durationText_some, ← List.append_assoc, readDuration, cut]
  simp [numeral_ne_nil, readNat?_numeral below]

theorem readDuration_of_uncut {token name : List Char}
    (uncut : cutDuration? name Comparison.searchOrder = none) :
    readDuration token (name ++ durationText none) = .ok (name, none) := by
  have noText : durationText none = [] := by
    rfl
  rw [noText, List.append_nil, readDuration, uncut]

/-- Name and duration are read again from their text. -/
theorem readDuration_again {token text name : List Char} {duration : Option Duration}
    (read : readDuration token text = .ok (name, duration)) (again : List Char) :
    readDuration again (name ++ durationText duration) = .ok (name, duration) := by
  rw [readDuration] at read
  split at read
  · rename_i uncut
    cases read
    exact readDuration_of_uncut uncut
  · rename_i cut
    split at read
    · cases read
    · split at read
      · rename_i minutes readMinutes
        cases read
        have below : minutes < wordBound := readNat?_lt (by decide) readMinutes
        have isDigit : ∀ c ∈ numeral 0 minutes, c.isDigit := fun c => isDigit_of_mem_numeral
        exact readDuration_of_cut below (cutDuration?_replace cut isDigit)
      · cases read

/-! ## Relations -/

theorem readMark_of_isPrefix {mark rest : List Char} :
    readMark mark (mark ++ rest) = (true, rest) := by
  rw [readMark, List.isPrefixOf?_eq_some_iff_append_eq.mpr rfl]

theorem readMark_of_not_isPrefix {mark text : List Char} (absent : ¬mark <+: text) :
    readMark mark text = (false, text) := by
  rw [readMark, isPrefixOf?_eq_none.mpr absent]

theorem readRelation_eq_ok {token rest body : List Char} {negated leftDirected : Bool}
    (negation : readMark ['!', '='] token = (negated, rest))
    (arrow : readMark ['<', '-'] rest = (leftDirected, body)) {directed : DirectedRelation} :
    readRelation token = .ok directed ↔
      ∃ name duration, readDuration token body = .ok (name, duration) ∧ name ≠ [] ∧
        directed =
          { relation := { name := String.ofList name, negated, duration }, leftDirected } := by
  rw [readRelation, negation]
  simp only [arrow]
  constructor
  · intro read
    rcases bind_eq_ok.mp read with ⟨⟨name, duration⟩, readBody, returned⟩
    by_cases unnamed : name = []
    · simp only [unnamed, List.isEmpty_nil, if_true] at returned
      cases returned
    · simp only [List.isEmpty_eq_false_iff.mpr unnamed] at returned
      cases returned
      exact ⟨name, duration, readBody, unnamed, rfl⟩
  · rintro ⟨name, duration, readBody, named, rfl⟩
    refine bind_eq_ok.mpr ⟨(name, duration), readBody, ?_⟩
    simp only [List.isEmpty_eq_false_iff.mpr named]
    rfl

/-- A relation has a name, and name and duration are read again from their text. -/
structure Legible (relation : Relation) : Prop where
  named : relation.name.toList ≠ []
  again :
    ∀ token, readDuration token (relation.name.toList ++ durationText relation.duration) =
      .ok (relation.name.toList, relation.duration)

theorem legible_of_readRelation {token : List Char} {directed : DirectedRelation}
    (read : readRelation token = .ok directed) : Legible directed.relation := by
  rcases (readRelation_eq_ok rfl rfl).mp read with ⟨name, duration, readBody, named, rfl⟩
  refine ⟨?_, fun token => ?_⟩
  · simpa using named
  · simpa using readDuration_again readBody token

theorem toList_render_relation (relation : Relation) :
    relation.render.toList =
      (if relation.negated then ['!', '='] else []) ++
        (relation.name.toList ++ durationText relation.duration) := by
  rw [Relation.render, String.toList_append, String.toList_append, List.append_assoc]
  cases relation.negated <;> rfl

/-- A name with a duration does not begin as a negation: the comparison would leave no name. -/
theorem Legible.not_negation {relation : Relation} (legible : Legible relation) :
    ¬['!', '='] <+: relation.name.toList ++ durationText relation.duration := by
  rintro ⟨rest, begins⟩
  have cut :
      cut? Comparison.notEqual.durationSymbol.toList (['!', '='] ++ rest) = some ([], rest) :=
    (cut?_eq_some (by decide)).mpr ⟨rfl, by decide⟩
  have unnamed := legible.again []
  rw [← begins, readDuration, Comparison.searchOrder, cutDuration?, cut] at unnamed
  dsimp only at unnamed
  split at unnamed
  · cases unnamed
  · split at unnamed
    · rw [Except.ok.injEq, Prod.mk.injEq] at unnamed
      exact legible.named unnamed.1.symm
    · cases unnamed

theorem Legible.arrow_iff {relation : Relation} (legible : Legible relation) :
    ['<', '-'] <+: relation.name.toList ++ durationText relation.duration ↔
      ['<', '-'] <+: relation.name.toList := by
  have named := legible.named
  have noDash : '-' ∉ durationText relation.duration := fun member =>
    absurd (mem_durationText member) (by decide)
  match relation.name.toList, named with
  | [c], _ =>
      refine ⟨fun begins => ?_, fun begins => begins.trans (List.prefix_append _ _)⟩
      rw [List.singleton_append, List.cons_prefix_cons] at begins
      exact absurd (begins.2.subset List.mem_cons_self) noDash
  | c :: d :: rest, _ => simp [List.cons_prefix_cons]

/-- A legible relation is read again as it was unless its name begins with an arrow. -/
theorem Legible.readRelation_render {relation : Relation} (legible : Legible relation) :
    readRelation relation.render.toList = .ok { relation, leftDirected := false } ↔
      ¬['<', '-'] <+: relation.name.toList := by
  have negation :
      readMark ['!', '='] relation.render.toList =
        (relation.negated, relation.name.toList ++ durationText relation.duration) := by
    rw [toList_render_relation]
    cases relation.negated with
    | true => exact readMark_of_isPrefix
    | false => exact readMark_of_not_isPrefix legible.not_negation
  rw [← legible.arrow_iff]
  constructor
  · rintro again ⟨body, begins⟩
    rw [← begins] at negation
    rcases (readRelation_eq_ok negation readMark_of_isPrefix).mp again with ⟨_, _, _, _, same⟩
    cases congrArg DirectedRelation.leftDirected same
  · intro noArrow
    exact (readRelation_eq_ok negation (readMark_of_not_isPrefix noArrow)).mpr
      ⟨relation.name.toList, relation.duration, legible.again _, legible.named, by simp⟩

/--
A relation that was read is read again from its text, the same and without an
arrow, if and only if its name does not begin with an arrow.
-/
theorem relation_reads_back_unless_arrow {token : List Char} {directed : DirectedRelation}
    (read : readRelation token = .ok directed) :
    readRelation directed.relation.render.toList =
        .ok { relation := directed.relation, leftDirected := false } ↔
      ¬['<', '-'] <+: directed.relation.name.toList :=
  (legible_of_readRelation read).readRelation_render

theorem relation_reads_back_unless_arrow_of_love :
    readRelation "!=<-<LOVES!=+007".toList =
        .ok { relation := ⟨"<LOVES", true, some ⟨.notEqual, 7⟩⟩, leftDirected := true } ∧
      readRelation (Relation.render ⟨"<LOVES", true, some ⟨.notEqual, 7⟩⟩).toList =
        .ok { relation := ⟨"<LOVES", true, some ⟨.notEqual, 7⟩⟩, leftDirected := false } := by
  have read :
      readRelation "!=<-<LOVES!=+007".toList =
        .ok { relation := ⟨"<LOVES", true, some ⟨.notEqual, 7⟩⟩, leftDirected := true } := by
    rfl
  exact ⟨read, (relation_reads_back_unless_arrow read).mpr (by decide)⟩

/-- Behind two arrows stands a name that is printed as one arrow and another name. -/
theorem second_arrow_is_printed :
    readRelation "<-<-LOVES=5".toList =
        .ok { relation := ⟨"<-LOVES", false, some ⟨.equal, 5⟩⟩, leftDirected := true } ∧
      Relation.render ⟨"<-LOVES", false, some ⟨.equal, 5⟩⟩ = "<-LOVES=5" ∧
      readRelation "<-LOVES=5".toList =
        .ok { relation := ⟨"LOVES", false, some ⟨.equal, 5⟩⟩, leftDirected := true } := by
  refine ⟨?_, ?_, ?_⟩ <;> rfl

end Fabula.Script
