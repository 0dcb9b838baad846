import Fabula.Proofs.Declaration

/-!
# Rules that are read are well formed

The evaluator looks the noun of a variable up by the number of the variable,
and trusts that this number means the same wherever the variable is written.
Well-formedness says what it trusts in: numbers are given out in the order of
declaration, those of a subrule after those of its rule, and every occurrence
of a variable carries the number, the name and the class with which it was
declared.
-/

namespace Fabula

open Outcome

/-- A variable is, up to its limit, the one that is declared at the place of its number. -/
def Variable.DeclaredIn (declared : List Variable) (v : Variable) : Prop :=
  ∃ w, declared[v.id]? = some w ∧ w.name = v.name ∧ w.className = v.className

/-- A number belongs to one name, and a name to one number. -/
def Identified (declared : List Variable) : Prop :=
  ∀ v ∈ declared, ∀ w ∈ declared,
    (v.id = w.id → v.name = w.name) ∧
      ∀ name, v.name = some name → w.name = some name → v.id = w.id

/-- The variables of a rule are numbered, named and used as the evaluator expects. -/
structure Rule.WellFormed (rule : Rule) : Prop where
  parameters : rule.parameters.map (·.id) = List.range rule.parameters.length
  locals :
    ∀ subrule ∈ rule.subrules,
      subrule.locals.map (·.id) =
        List.range' rule.parameters.length subrule.locals.length
  occurring :
    ∀ v ∈ rule.parameters, ∃ action ∈ rule.actions, ∃ w,
      Term.var w ∈ action.statement.parts ∧ w.unlimited = v.unlimited
  actions :
    ∀ action ∈ rule.actions, ∀ v, Term.var v ∈ action.statement.parts →
      v.DeclaredIn rule.parameters
  conditions :
    ∀ subrule ∈ rule.subrules, ∀ sentence ∈ subrule.condition.sentences, ∀ v,
      Term.var v ∈ sentence.parts → v.DeclaredIn (rule.parameters ++ subrule.locals)
  header : Identified rule.parameters
  scopes : ∀ subrule ∈ rule.subrules, Identified (rule.parameters ++ subrule.locals)
  brief : ∀ action ∈ rule.actions, action.statement.relation.duration = none

theorem Statement.mem_mentioned {statement : Statement Term} {v : Variable} :
    v ∈ statement.mentioned ↔ ∃ w, Term.var w ∈ statement.parts ∧ w.unlimited = v := by
  simp only [mentioned, List.mem_flatMap, Term.mem_mentioned]
  constructor
  · rintro ⟨_, inParts, w, rfl, equal⟩
    exact ⟨w, inParts, equal⟩
  · rintro ⟨w, inParts, equal⟩
    exact ⟨_, inParts, w, rfl, equal⟩

namespace Script

open Scope

/-! ## Variables of regular scopes -/

namespace Scope

theorem Numbered.map_id {scope : Scope} (numbered : scope.Numbered) :
    scope.declared.toList.map (·.id) = List.range scope.declared.size := by
  apply List.ext_getElem?
  intro place
  rw [List.getElem?_map]
  cases found : scope.declared.toList[place]? with
  | none =>
      have outside : scope.declared.size ≤ place := by
        simpa using found
      simp [outside]
  | some v =>
      have inside : place < scope.declared.size := by
        simpa using (List.getElem?_eq_some_iff.mp found).1
      have same : v.id = place := numbered.id_eq (Array.getElem?_toList.symm.trans found)
      simp [inside, same]

section Listed

variable {scope : Scope} {declared : List Variable}

theorem Regular.declaredIn (regular : scope.Regular)
    (listed : declared.map Variable.unlimited = scope.signature) {v : Variable}
    (known : v.unlimited ∈ scope.signature) : v.DeclaredIn declared := by
  have found := regular.numbered.getElem?_id known
  rw [← listed, List.getElem?_map, Option.map_eq_some_iff] at found
  rcases found with ⟨w, found, equal⟩
  exact ⟨w, found, (Variable.unlimited_eq_iff.mp equal).2⟩

theorem Regular.identified (regular : scope.Regular)
    (listed : declared.map Variable.unlimited = scope.signature) : Identified declared := by
  intro v isDeclared w otherDeclared
  have known : v.unlimited ∈ scope.signature := by
    rw [← listed]
    exact List.mem_map_of_mem isDeclared
  have otherKnown : w.unlimited ∈ scope.signature := by
    rw [← listed]
    exact List.mem_map_of_mem otherDeclared
  constructor
  · intro same
    have found := regular.numbered.getElem?_id known
    have otherFound := regular.numbered.getElem?_id otherKnown
    rw [Variable.unlimited_id] at found otherFound
    rw [same, otherFound] at found
    exact (congrArg Variable.name (Option.some.inj found)).symm
  · intro name named otherNamed
    have equal := regular.named _ known _ otherKnown name named otherNamed
    exact (Variable.unlimited_eq_iff.mp equal).1

end Listed

end Scope

/-! ## Actions -/

theorem relation_statement? {α : Type} {directed : DirectedRelation} {subject : α}
    {object : Option α} {statement : Statement α}
    (stated : directed.statement? subject object = some statement) :
    statement.relation = directed.relation := by
  rcases statement?_eq_some.mp stated with ⟨_, rfl⟩ | ⟨_, target, rfl, rfl⟩
  · rfl
  · rfl

theorem readAction_brief {text : List Char} {before after : Scope} {action : Action}
    (read : readAction text before = .ok action after) :
    action.statement.relation.duration = none := by
  rcases readAction_parts read with ⟨_, _, _, _, directed, _, _, _, _, _, _, brief, stated⟩
  rw [relation_statement? stated]
  exact brief

/-! ## Rules -/

/--
The parameters of a rule are the variables of a regular scope, in which its
subrules are read; and its actions have no durations.
-/
theorem readRule_regular {definition : List Char} {rule : Rule}
    (read : readRule definition = .ok rule) :
    ∃ scope : Scope,
      scope.Regular ∧ rule.parameters = scope.declared.toList ∧
        (subruleTexts definition).mapM (readSubrule · scope) = .ok rule.subrules ∧
        ∀ action ∈ rule.actions, action.statement.relation.duration = none := by
  rcases readRule_parts read with ⟨scope, readActions, _, readSubrules, parameters⟩
  have each (text : List Char) :
      (Success.preserving Regular).Yields (readAction text)
        fun action => action.statement.relation.duration = none := by
    intro before regular action after read
    exact ⟨(readAction_preserves lasting_regular text before regular action after read).1,
      readAction_brief read⟩
  have all := Success.mapM _ (fun text _ => each text) _ regular_empty _ _ readActions
  exact ⟨scope, all.1, parameters, readSubrules, all.2⟩

/-- The variables of the actions are those that the rule declares. -/
theorem readRule_declaredIn {definition : List Char} {rule : Rule}
    (read : readRule definition = .ok rule) :
    ∀ action ∈ rule.actions, ∀ v, Term.var v ∈ action.statement.parts →
      v.DeclaredIn rule.parameters := by
  have closed := readRule_closed read
  rcases readRule_regular read with ⟨scope, regular, parameters, _, _⟩
  have listed : rule.parameters.map Variable.unlimited = scope.signature := by
    rw [parameters]
    rfl
  intro action inRule v inParts
  apply regular.declaredIn listed
  rw [← listed]
  apply closed.declared
  exact List.mem_flatMap.mpr ⟨action, inRule, Statement.mem_mentioned.mpr ⟨v, inParts, rfl⟩⟩

/-- The scope of a subrule ends regular, and lists the variables of the rule before its own. -/
theorem readSubrule_regular {definition : List Char} {scope : Scope} {subrule : Subrule}
    (regular : scope.Regular) (read : readSubrule definition scope = .ok subrule) :
    ∃ inner : Scope,
      inner.Regular ∧ inner.inherited = scope.declared.size ∧
        subrule.locals = inner.locals ∧
        (scope.declared.toList ++ subrule.locals).map Variable.unlimited = inner.signature ∧
        ∀ v ∈ subrule.condition.mentioned, v ∈ inner.signature := by
  rcases readSubrule_parts read with ⟨sentences, inner, readCondition, locals⟩
  have preserved :=
    readSentences_preserves lasting_regular sentences scope.child regular.child _ _ readCondition
  have reads := readSentences_reads regular.child.numbered readCondition
  refine ⟨inner, preserved.1, reads.inherited, locals, ?_, reads.known⟩
  rw [signature_eq_append_locals reads.toExtends, List.map_append, locals]
  rfl

/-- Whatever definition is read, the rule that it defines is well formed. -/
theorem readRule_wellFormed {definition : List Char} {rule : Rule}
    (read : readRule definition = .ok rule) : rule.WellFormed := by
  have closed := readRule_closed read
  rcases readRule_regular read with ⟨scope, regular, parameters, readSubrules, brief⟩
  have listed : rule.parameters.map Variable.unlimited = scope.signature := by
    rw [parameters]
    rfl
  have inner :
      ∀ subrule ∈ rule.subrules, ∃ inner : Scope,
        inner.Regular ∧ inner.inherited = scope.declared.size ∧
          subrule.locals = inner.locals ∧
          (rule.parameters ++ subrule.locals).map Variable.unlimited = inner.signature ∧
          ∀ v ∈ subrule.condition.mentioned, v ∈ inner.signature := by
    intro subrule member
    rcases exists_of_mem_mapM readSubrules member with ⟨text, _, readSubrule⟩
    rw [parameters]
    exact readSubrule_regular regular readSubrule
  constructor
  case parameters =>
    rw [parameters, Array.length_toList]
    exact regular.numbered.map_id
  case locals =>
    intro subrule member
    rcases inner subrule member with ⟨own, ownRegular, inherited, locals, _, _⟩
    rw [locals, Scope.locals, inherited, parameters, List.map_drop, ownRegular.numbered.map_id,
      List.range_eq_range', List.drop_range', List.length_drop, Array.length_toList,
      Array.length_toList, Nat.zero_add, Nat.mul_one]
  case occurring =>
    intro v member
    have mentioned := closed.used v.unlimited (List.mem_map_of_mem member)
    rcases List.mem_flatMap.mp mentioned with ⟨action, inRule, inAction⟩
    rcases Statement.mem_mentioned.mp inAction with ⟨w, inParts, equal⟩
    exact ⟨action, inRule, w, inParts, equal⟩
  case actions => exact readRule_declaredIn read
  case conditions =>
    intro subrule member sentence inCondition v inParts
    rcases inner subrule member with ⟨own, ownRegular, _, _, ownListed, known⟩
    apply ownRegular.declaredIn ownListed
    apply known
    exact List.mem_flatMap.mpr
      ⟨sentence, inCondition, Statement.mem_mentioned.mpr ⟨v, inParts, rfl⟩⟩
  case header => exact regular.identified listed
  case scopes =>
    intro subrule member
    rcases inner subrule member with ⟨own, ownRegular, _, _, ownListed, _⟩
    exact ownRegular.identified ownListed
  case brief => exact brief

/--
A rule with variables of all forms.  Its first subrule declares one of them
again and two of its own, the second another one under a name of the first.
-/
def courtRule : List Char :=
  ("X.PEOPLE <-ADMIRES Y.PEOPLE, #.PEOPLE FEARS Y.PEOPLE:2; " ++
    "1,0: (#V.PEOPLE LIKES #X.PEOPLE) & (Y HATES #.ROOMS); 0,1: (#V.ROOMS BORES X)").toList

theorem readRule_wellFormed_of_court :
    ∃ rule, readRule courtRule = .ok rule ∧ rule.WellFormed ∧
      rule.parameters.map (·.id) = [0, 1, 2] ∧
      rule.subrules.map (·.locals.map (·.id)) = [[3, 4], [3]] := by
  obtain ⟨rule, read⟩ : ∃ rule, readRule courtRule = .ok rule :=
    exists_of_isOk (by decide +kernel)
  have numbers :
      (readRule courtRule).toOption.map
          (fun rule => (rule.parameters.map (·.id), rule.subrules.map (·.locals.map (·.id)))) =
        some ([0, 1, 2], [[3, 4], [3]]) := by
    decide +kernel
  rw [read] at numbers
  simp only [Except.toOption, Option.map_some, Option.some.injEq, Prod.mk.injEq] at numbers
  exact ⟨rule, read, readRule_wellFormed read, numbers.1, numbers.2⟩

end Script

end Fabula
