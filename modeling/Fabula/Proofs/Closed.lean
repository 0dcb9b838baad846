import Fabula.Proofs.Building
import Fabula.Script.Definition

/-!
# Rules that are read are closed

A rule is closed if every variable in it is declared where the evaluator
looks for it: a variable of an action among the parameters, a parameter in
some action, and a variable of a condition among the parameters or the locals
of the subrule.  The main statement is that reading yields closed rules only.
-/

namespace Fabula

/-! ## The variables of a rule -/

/-- The variables that a statement mentions, without their limits. -/
def Statement.mentioned (statement : Statement Term) : List Variable :=
  statement.parts.flatMap Term.mentioned

/-- The variables that a condition mentions, without their limits. -/
def Condition.mentioned (condition : Condition) : List Variable :=
  condition.sentences.flatMap Statement.mentioned

/-- The variables that the actions of a rule mention, without their limits. -/
def Rule.mentioned (rule : Rule) : List Variable :=
  rule.actions.flatMap fun action => action.statement.mentioned

/-- Every variable is declared where the evaluator looks for it. -/
structure Rule.Closed (rule : Rule) : Prop where
  declared : ∀ v ∈ rule.mentioned, v ∈ rule.parameters.map Variable.unlimited
  used : ∀ v ∈ rule.parameters.map Variable.unlimited, v ∈ rule.mentioned
  conditions :
    ∀ subrule ∈ rule.subrules, ∀ v ∈ subrule.condition.mentioned,
      v ∈ (rule.parameters ++ subrule.locals).map Variable.unlimited

/-! ## The sentences of a chain -/

namespace Condition

theorem sentencesOf_eq_flatMap (operands : List Condition) :
    sentencesOf operands = operands.flatMap sentences := by
  induction operands with
  | nil => rfl
  | cons operand rest ih => rw [sentencesOf, ih, List.flatMap_cons]

theorem sentences_conjunction (operands : List Condition) :
    (conjunction operands).sentences = operands.flatMap sentences := by
  unfold conjunction
  split
  · simp
  · rw [sentences, sentencesOf_eq_flatMap]

theorem sentences_disjunction (operands : List Condition) :
    (disjunction operands).sentences = operands.flatMap sentences := by
  unfold disjunction
  split
  · simp
  · rw [sentences, sentencesOf_eq_flatMap]

/-- A chain has the sentences of its operands, in order. -/
theorem sentences_ofChain (chain : Script.Chain Condition) :
    (ofChain chain).sentences = chain.operands.flatMap sentences := by
  calc
    (ofChain chain).sentences =
        chain.runs.flatMap fun run => run.flatMap sentences := by
      rw [ofChain, sentences_disjunction, List.flatMap_map]
      simp only [sentences_conjunction]
    _ = chain.runs.flatten.flatMap sentences := by
      rw [← List.flatMap_id, List.flatMap_assoc]
      rfl
    _ = chain.operands.flatMap sentences := by
      rw [Script.Chain.flatten_runs]

theorem mem_mentioned_ofChain {chain : Script.Chain Condition} {v : Variable} :
    v ∈ (ofChain chain).mentioned ↔
      ∃ operand ∈ chain.operands, v ∈ operand.mentioned := by
  simp only [mentioned, sentences_ofChain, List.mem_flatMap]
  constructor
  · rintro ⟨sentence, ⟨operand, inChain, inOperand⟩, inSentence⟩
    exact ⟨operand, inChain, sentence, inOperand, inSentence⟩
  · rintro ⟨operand, inChain, sentence, inOperand, inSentence⟩
    exact ⟨sentence, ⟨operand, inChain, inOperand⟩, inSentence⟩

end Condition

namespace Script

open Fabula.Text Scope

/-! ## Groups and sentence lists -/

theorem statement?_eq_some {α : Type} {directed : DirectedRelation} {subject : α}
    {object : Option α} {statement : Statement α} :
    directed.statement? subject object = some statement ↔
      (directed.leftDirected = false ∧
          statement = { subject, relation := directed.relation, object }) ∨
        (directed.leftDirected = true ∧
          ∃ target, object = some target ∧
            statement =
              { subject := target, relation := directed.relation, object := some subject }) := by
  unfold DirectedRelation.statement?
  cases directed.leftDirected <;> cases object <;> simp [eq_comm]

/-- With or without an arrow, a statement mentions its subject and its object. -/
theorem mem_mentioned_statement? {directed : DirectedRelation} {subject : Term}
    {object : Option Term} {statement : Statement Term} {v : Variable}
    (stated : directed.statement? subject object = some statement) :
    v ∈ statement.mentioned ↔
      v ∈ subject.mentioned ++ object.toList.flatMap Term.mentioned := by
  rcases statement?_eq_some.mp stated with ⟨_, rfl⟩ | ⟨_, target, rfl, rfl⟩
  · rfl
  · simp [Statement.mentioned, Statement.parts, or_comm]

theorem readGroupRelation_mentioned {body text : List Char} {subject : Term}
    {object : Option Term} {condition : Condition}
    (read : readGroupRelation body subject object text = .ok condition) :
    ∀ v ∈ condition.mentioned,
      v ∈ subject.mentioned ++ object.toList.flatMap Term.mentioned := by
  rw [readGroupRelation] at read
  split at read
  · cases read
  · rcases Outcome.bind_eq_ok.mp read with ⟨directed, _, stated⟩
    split at stated
    · rename_i statement found
      cases stated
      intro v member
      apply (mem_mentioned_statement? found).mp
      simpa [Condition.mentioned, Condition.sentences] using member
    · cases stated

/-- What a condition mentions after some reading is known to the scope then. -/
structure ReadsCondition (before after : Scope) (condition : Condition) : Prop
    extends Extends before after where
  known : ∀ v ∈ condition.mentioned, v ∈ after.signature

theorem readTimeGroup_mentioned {body : List Char} {condition : Condition}
    (read : readTimeGroup body = .ok condition) : condition.mentioned = [] := by
  rcases Outcome.bind_eq_ok.mp read with ⟨chain, readChain, returned⟩
  cases returned
  apply List.eq_nil_iff_forall_not_mem.mpr
  intro v mentioned
  rcases Condition.mem_mentioned_ofChain.mp mentioned with ⟨operand, inChain, inOperand⟩
  rcases exists_of_readPieces readChain inChain with ⟨text, readOperand⟩
  rcases Outcome.map_eq_ok.mp readOperand with ⟨clause, _, rfl⟩
  simp [Condition.mentioned, Condition.sentences] at inOperand

/-- A group that is read has been cut and then read term by term, relation by relation. -/
theorem readRelationalGroup_parts {body : List Char} {before after : Scope}
    {condition : Condition} (read : readRelationalGroup body before = .ok condition after) :
    ∃ subjectText relationsText objectText subject middle object whole,
      splitGroup body = .ok (subjectText, relationsText, objectText) ∧
      readTerm subjectText before = .ok subject middle ∧
      readTerm? objectText middle = .ok object after ∧
      readPieces body (readGroupRelation body subject object) .nothing
          (groupPieces relationsText) = .ok whole ∧
      condition = .ofChain whole := by
  rw [readRelationalGroup] at read
  rcases Outcome.run_bind_eq_ok.mp read with
    ⟨⟨subjectText, relationsText, objectText⟩, _, lifted, readTerms⟩
  rcases lift_eq_ok.mp lifted with ⟨cut, rfl⟩
  rcases Outcome.run_bind_eq_ok.mp readTerms with ⟨subject, middle, readSubject, readRest⟩
  rcases Outcome.run_bind_eq_ok.mp readRest with ⟨object, last, readObject, readChain⟩
  rcases Outcome.run_bind_eq_ok.mp readChain with ⟨whole, _, lifted, returned⟩
  cases returned
  rcases lift_eq_ok.mp lifted with ⟨readOperands, rfl⟩
  exact ⟨subjectText, relationsText, objectText, subject, middle, object, whole, cut, readSubject,
    readObject, readOperands, rfl⟩

theorem readRelationalGroup_reads {body : List Char} {before after : Scope}
    {condition : Condition} (numbered : before.Numbered)
    (read : readRelationalGroup body before = .ok condition after) :
    ReadsCondition before after condition := by
  rcases readRelationalGroup_parts read with
    ⟨_, _, _, subject, _, object, _, _, readSubject, readObject, readOperands, rfl⟩
  have subjectReads := readTerm_reads numbered readSubject
  have objectReads := readTerm?_reads subjectReads.numbered readObject
  have termReads := subjectReads.append objectReads
  refine { termReads.toExtends with known := ?_ }
  intro v mentioned
  rcases Condition.mem_mentioned_ofChain.mp mentioned with ⟨operand, inChain, inOperand⟩
  rcases exists_of_readPieces readOperands inChain with ⟨text, readOperand⟩
  exact termReads.known v (readGroupRelation_mentioned readOperand v inOperand)

theorem readGroup_reads {kind : GroupKind} {body : List Char} {before after : Scope}
    {condition : Condition} (numbered : before.Numbered)
    (read : readGroup kind body before = .ok condition after) :
    ReadsCondition before after condition := by
  cases kind with
  | time =>
      rcases lift_eq_ok.mp read with ⟨readGroup, rfl⟩
      refine { Extends.refl numbered with known := ?_ }
      rw [readTimeGroup_mentioned readGroup]
      simp
  | relational => exact readRelationalGroup_reads numbered read

/-- Every operand of tokens that are read mentions what the scope knows at the end. -/
theorem TokensRead.known {tokens : List Token} {before after : Scope}
    {items : List (Connective ⊕ Condition)} (numbered : before.Numbered)
    (reads : TokensRead tokens before items after) :
    Extends before after ∧
      ∀ operand, .inr operand ∈ items → ∀ v ∈ operand.mentioned, v ∈ after.signature := by
  induction reads with
  | nil => exact ⟨Extends.refl numbered, nofun⟩
  | connective symbol _ ih =>
      rcases ih numbered with ⟨extended, known⟩
      exact ⟨extended, fun operand member => known operand (by simpa using member)⟩
  | group read _ ih =>
      have groupReads := readGroup_reads numbered read
      rcases ih groupReads.numbered with ⟨extended, known⟩
      refine ⟨groupReads.toExtends.trans extended, fun operand member v mentioned => ?_⟩
      rcases List.mem_cons.mp member with same | behind
      · cases same
        exact extended.mem (groupReads.known v mentioned)
      · exact known operand behind v mentioned

/-- Reading a sentence list extends the scope, which then knows all that the condition mentions. -/
theorem readSentences_reads {text : List Char} {before after : Scope}
    {condition : Condition} (numbered : before.Numbered)
    (read : readSentences text before = .ok condition after) :
    ReadsCondition before after condition := by
  rcases readSentences_eq_tokensRead.mp read with ⟨_, whole, _, reads, rfl⟩
  rcases reads.known numbered with ⟨extended, known⟩
  refine { extended with known := ?_ }
  intro v mentioned
  rcases Condition.mem_mentioned_ofChain.mp mentioned with ⟨operand, inChain, inOperand⟩
  exact known operand (Chain.inr_mem_items.mpr inChain) v inOperand

/-! ## Actions and rules -/

/-- An action is read from left to right; its relation has no duration. -/
theorem readAction_parts {text : List Char} {before after : Scope} {action : Action}
    (read : readAction text before = .ok action after) :
    ∃ subjectText relationText objectText subject directed object middle,
      splitAction text = .ok (subjectText, relationText, objectText) ∧
      readTerm subjectText before = .ok subject middle ∧
      readRelation relationText = .ok directed ∧
      readTerm? objectText middle = .ok object after ∧
      directed.relation.duration = none ∧
      directed.statement? subject object = some action.statement := by
  rw [readAction] at read
  rcases Outcome.run_bind_eq_ok.mp read with
    ⟨⟨subjectText, relationText, objectText⟩, _, lifted, readTerms⟩
  rcases lift_eq_ok.mp lifted with ⟨cut, rfl⟩
  rcases Outcome.run_bind_eq_ok.mp readTerms with ⟨subject, middle, readSubject, readRest⟩
  rcases Outcome.run_bind_eq_ok.mp readRest with ⟨directed, _, lifted, readObjects⟩
  rcases lift_eq_ok.mp lifted with ⟨related, rfl⟩
  rcases Outcome.run_bind_eq_ok.mp readObjects with ⟨object, last, readObject, stated⟩
  refine ⟨subjectText, relationText, objectText, subject, directed, object, _, cut, readSubject,
    related, ?_⟩
  split at stated
  · cases stated
  · rename_i brief
    split at stated
    · rename_i statement found
      cases stated
      exact ⟨readObject, by simpa using brief, found⟩
    · exact absurd stated throw_ne_ok

theorem readAction_reads {text : List Char} {before after : Scope}
    {action : Action} (numbered : before.Numbered)
    (read : readAction text before = .ok action after) :
    Reads before after action.statement.mentioned := by
  rcases readAction_parts read with
    ⟨_, _, _, subject, directed, object, middle, _, readSubject, _, readObject, _, stated⟩
  have subjectReads := readTerm_reads numbered readSubject
  have objectReads := readTerm?_reads subjectReads.numbered readObject
  exact (subjectReads.append objectReads).congr fun v => (mem_mentioned_statement? stated).symm

theorem readActions_reads {texts : List (List Char)} {before after : Scope}
    {actions : List Action} (numbered : before.Numbered)
    (read : texts.mapM readAction before = .ok actions after) :
    Reads before after (actions.flatMap fun action => action.statement.mentioned) := by
  induction texts generalizing actions before with
  | nil =>
      cases read
      exact Reads.nothing numbered
  | cons text rest ih =>
      rcases Outcome.run_mapM_cons_eq_ok.mp read with
        ⟨action, _, others, readFirst, readOthers, rfl⟩
      have firstReads := readAction_reads numbered readFirst
      exact firstReads.append (ih firstReads.numbered readOthers)

theorem runFrom_eq_ok {α : Type} {computation : Scoped α} {before after : Scope}
    {value : α} :
    computation.runFrom before = .ok (value, after) ↔
      computation before = .ok value after := by
  rw [Scoped.runFrom]
  cases computation before <;> simp

/-- A subrule is read in a child of the scope of its rule, and keeps what it declares there. -/
theorem readSubrule_parts {definition : List Char} {scope : Scope} {subrule : Subrule}
    (read : readSubrule definition scope = .ok subrule) :
    ∃ sentences inner,
      readSentences sentences scope.child = .ok subrule.condition inner ∧
        subrule.locals = inner.locals := by
  rw [readSubrule] at read
  split at read
  · split at read
    · rcases Outcome.bind_eq_ok.mp read with ⟨⟨condition, inner⟩, ran, readIncrements⟩
      rcases Outcome.bind_eq_ok.mp readIncrements with ⟨whenTrue, _, readFalse⟩
      rcases Outcome.bind_eq_ok.mp readFalse with ⟨whenFalse, _, returned⟩
      cases returned
      exact ⟨_, inner, runFrom_eq_ok.mp ran, rfl⟩
    · cases read
  · cases read

theorem readSubrule_reads {definition : List Char} {scope : Scope}
    {subrule : Subrule} (numbered : scope.Numbered)
    (read : readSubrule definition scope = .ok subrule) :
    ∃ inner, ReadsCondition scope.child inner subrule.condition ∧
      subrule.locals = inner.locals := by
  rcases readSubrule_parts read with ⟨sentences, inner, readCondition, locals⟩
  have childNumbered : scope.child.Numbered := numbered
  exact ⟨inner, readSentences_reads childNumbered readCondition, locals⟩

/-- In the end a child has the variables of its parent, up to their limits, and then its own. -/
theorem signature_eq_append_locals {scope inner : Scope}
    (extended : Extends scope.child inner) :
    inner.signature = scope.signature ++ inner.locals.map Variable.unlimited := by
  rcases extended.kept with ⟨own, appended⟩
  have inherited : inner.inherited = scope.signature.length := by
    rw [extended.inherited, length_signature]
    rfl
  have declared : inner.locals.map Variable.unlimited = own := by
    rw [locals, List.map_drop, inherited]
    change inner.signature.drop scope.signature.length = own
    rw [← appended]
    exact List.drop_left
  rw [declared]
  exact appended.symm

/-- The list of actions with which a definition begins. -/
def actionList (definition : List Char) : List Char :=
  trim ((definition.splitOn ';').headD [])

/-- The subrules that follow the list of actions, without the empty ones. -/
def subruleTexts (definition : List Char) : List (List Char) :=
  ((definition.splitOn ';').map trim).tail.filter (!·.isEmpty)

/-- Every subrule of a rule is read in a child of the scope in which its actions end. -/
theorem readRule_parts {definition : List Char} {rule : Rule}
    (read : readRule definition = .ok rule) :
    ∃ scope : Scope,
      (parts ',' (actionList definition)).mapM readAction Scope.empty =
        .ok rule.actions scope ∧
      rule.actions ≠ [] ∧
      (subruleTexts definition).mapM (readSubrule · scope) = .ok rule.subrules ∧
      rule.parameters = scope.declared.toList := by
  have head : ((definition.splitOn ';').map trim).headD [] = actionList definition := by
    rw [actionList]
    cases definition.splitOn ';' <;> rfl
  rw [readRule] at read
  dsimp only at read
  rw [head] at read
  rcases Outcome.bind_eq_ok.mp read with ⟨⟨actions, scope⟩, ran, readRest⟩
  dsimp only at readRest
  split at readRest
  · cases readRest
  · rename_i some
    rcases Outcome.bind_eq_ok.mp readRest with ⟨subrules, readSubrules, returned⟩
    cases returned
    exact ⟨scope, runFrom_eq_ok.mp ran, by simpa using some, readSubrules, rfl⟩

/-- Reading yields closed rules. -/
theorem readRule_closed {definition : List Char} {rule : Rule}
    (read : readRule definition = .ok rule) : rule.Closed := by
  rcases readRule_parts read with ⟨scope, readActions, _, readSubrules, parameters⟩
  have actionsRead := readActions_reads numbered_empty readActions
  refine
    { declared := ?_
      used := ?_
      conditions := ?_ }
  · rw [parameters]
    exact actionsRead.known
  · rw [parameters]
    intro v member
    rcases actionsRead.fresh v member with old | mentioned
    · simp [signature, Scope.empty] at old
    · exact mentioned
  · intro subrule member v mentioned
    rcases Outcome.exists_of_mem_mapM readSubrules member with ⟨text, _, readSubrule⟩
    rcases readSubrule_reads actionsRead.numbered readSubrule with
      ⟨inner, conditionReads, locals⟩
    rw [List.map_append, locals, parameters]
    change v ∈ scope.signature ++ inner.locals.map Variable.unlimited
    rw [← signature_eq_append_locals conditionReads.toExtends]
    exact conditionReads.known v mentioned

theorem readRules_closed {text : String} {rules : List Rule}
    (read : readRules text = .ok rules) : ∀ rule ∈ rules, rule.Closed := by
  intro rule member
  rcases Outcome.exists_of_mem_mapM read member with ⟨definition, _, readRule⟩
  exact readRule_closed readRule

end Script

end Fabula
