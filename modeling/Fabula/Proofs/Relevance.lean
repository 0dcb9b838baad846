import Fabula.Proofs.Outcome
import Fabula.Rule

/-!
# What a test sees of the world

A test of a rule asks a world for the members of classes, for the clock
reading, and for the truth of statements whose relations occur in the subrules
of the rule.  Two worlds that answer alike cannot be told apart by the test;
in particular the effects that wait in a world do not matter.
-/

namespace Fabula

/-! ## Worlds that answer alike -/

/-- Two worlds that answer alike all that conditions about some relations can ask. -/
structure World.Alike (relations : List String) (world other : World) : Prop where
  members : ∀ className, world.members className = other.members className
  time : world.clock.time = other.clock.time
  satisfies : ∀ statement : Statement String, statement.relation.name ∈ relations →
    world.satisfies statement = other.satisfies statement

/-- Worlds that differ only in the effects that wait answer alike. -/
theorem World.alike_of_pending (relations : List String) (world : World)
    (pending : Array Effect) : Alike relations { world with pending } world where
  members := fun _ => rfl
  time := rfl
  satisfies := fun _ _ => rfl

/-- The names of the relations in a condition. -/
def Condition.relations (condition : Condition) : List String :=
  condition.sentences.map fun sentence => sentence.relation.name

/-- The names of the relations in the subrules of a rule. -/
def Rule.relations (rule : Rule) : List String :=
  rule.subrules.flatMap fun subrule => subrule.condition.relations

theorem Binding.resolve?_eq_ok {binding : Binding} {term : Option Term}
    {noun : Option String} :
    binding.resolve? term = .ok noun ↔
      Option.Rel (fun term noun => binding.resolve term = .ok noun) term noun := by
  cases term with
  | none =>
      cases noun with
      | none => exact ⟨fun _ => .none, fun _ => rfl⟩
      | some noun => exact ⟨nofun, nofun⟩
  | some term =>
      rw [resolve?, Outcome.map_eq_ok]
      constructor
      · rintro ⟨value, resolved, rfl⟩
        exact .some resolved
      · rintro ⟨resolved⟩
        exact ⟨_, resolved, rfl⟩

/-- Subject and object become nouns, and the relation stays as it is. -/
theorem Binding.ground_eq_ok {binding : Binding} {statement : Statement Term}
    {effect : Effect} :
    binding.ground statement = .ok effect ↔
      binding.resolve statement.subject = .ok effect.subject ∧
        Option.Rel (fun term noun => binding.resolve term = .ok noun)
          statement.object effect.object ∧
        effect.relation = statement.relation := by
  rw [← resolve?_eq_ok]
  constructor
  · intro grounded
    rcases Outcome.bind_eq_ok.mp grounded with ⟨subject, subjectResolved, grounded⟩
    rcases Outcome.bind_eq_ok.mp grounded with ⟨object, objectResolved, grounded⟩
    cases grounded
    exact ⟨subjectResolved, objectResolved, rfl⟩
  · rintro ⟨subjectResolved, objectResolved, same⟩
    refine Outcome.bind_eq_ok.mpr ⟨effect.subject, subjectResolved,
      Outcome.bind_eq_ok.mpr ⟨effect.object, objectResolved, ?_⟩⟩
    rw [← same]
    rfl

theorem Binding.relation_ground {binding : Binding} {statement : Statement Term}
    {effect : Effect} (grounded : binding.ground statement = .ok effect) :
    effect.relation = statement.relation :=
  (ground_eq_ok.mp grounded).2.2

/-! ## Conditions -/

namespace Condition

variable {world other : World} {relations : List String}

mutual

/-- A condition has one value in worlds that answer alike, or one error. -/
theorem evaluate_congr (alike : world.Alike relations other) (binding : Binding) :
    ∀ condition : Condition,
      (∀ sentence ∈ condition.sentences, sentence.relation.name ∈ relations) →
      condition.evaluate world binding = condition.evaluate other binding
  | .sentence statement, known => by
      rw [evaluate, evaluate]
      cases grounded : binding.ground statement with
      | error cause => rfl
      | ok effect =>
          have named : effect.relation.name ∈ relations := by
            rw [Binding.relation_ground grounded]
            apply known
            rw [sentences]
            exact List.mem_singleton_self _
          exact congrArg Except.ok (alike.satisfies effect named)
  | .time clause, _ => by
      rw [evaluate, evaluate, TimeSentence.holds, TimeSentence.holds, alike.time]
  | .all operands, known => by
      rw [evaluate, evaluate]
      exact evaluateAll_congr alike binding operands known
  | .any operands, known => by
      rw [evaluate, evaluate]
      exact evaluateAny_congr alike binding operands known

theorem evaluateAll_congr (alike : world.Alike relations other) (binding : Binding) :
    ∀ operands : List Condition,
      (∀ sentence ∈ sentencesOf operands, sentence.relation.name ∈ relations) →
      evaluateAll world binding operands = evaluateAll other binding operands
  | [], _ => rfl
  | operand :: rest, known => by
      rw [sentencesOf, List.forall_mem_append] at known
      rw [evaluateAll, evaluateAll, evaluate_congr alike binding operand known.1,
        evaluateAll_congr alike binding rest known.2]

theorem evaluateAny_congr (alike : world.Alike relations other) (binding : Binding) :
    ∀ operands : List Condition,
      (∀ sentence ∈ sentencesOf operands, sentence.relation.name ∈ relations) →
      evaluateAny world binding operands = evaluateAny other binding operands
  | [], _ => rfl
  | operand :: rest, known => by
      rw [sentencesOf, List.forall_mem_append] at known
      rw [evaluateAny, evaluateAny, evaluate_congr alike binding operand known.1,
        evaluateAny_congr alike binding rest known.2]

end

end Condition

/-! ## Tests -/

variable {world other : World}

theorem Subrule.holds_congr {subrule : Subrule}
    (alike : world.Alike subrule.condition.relations other) (header : Binding) :
    subrule.holds world header = subrule.holds other header := by
  have sameMembers : world.members = other.members := funext alike.members
  have sameTries :
      subrule.tryNouns world header (subrule.free header) =
        subrule.tryNouns other header (subrule.free header) := by
    funext nouns found
    have sameTruth :
        ∀ binding, subrule.condition.evaluate world binding =
          subrule.condition.evaluate other binding := by
      intro binding
      apply Condition.evaluate_congr alike
      intro sentence member
      exact List.mem_map_of_mem member
    simp only [tryNouns, sameTruth]
  simp only [holds, sameMembers, sameTries]

namespace Rule

theorem verdictFrom_congr {settings : Settings} {binding : Binding}
    {probability : Float} {subrules : List Subrule}
    (same : ∀ subrule ∈ subrules,
      subrule.holds world binding = subrule.holds other binding) :
    verdictFrom settings world binding probability subrules =
      verdictFrom settings other binding probability subrules := by
  induction subrules generalizing probability with
  | nil => rfl
  | cons subrule rest ih =>
      rw [List.forall_mem_cons] at same
      rw [verdictFrom, verdictFrom, same.1]
      simp only [ih same.2]

theorem verdict_congr {rule : Rule} (settings : Settings)
    (alike : world.Alike rule.relations other) (binding : Binding) :
    rule.verdict settings world binding = rule.verdict settings other binding := by
  apply verdictFrom_congr
  intro subrule member
  apply Subrule.holds_congr
  exact
    { members := alike.members
      time := alike.time
      satisfies := fun statement named =>
        alike.satisfies statement (List.mem_flatMap.mpr ⟨subrule, member, named⟩) }

theorem triggered_congr {rule : Rule} (settings : Settings)
    (alike : world.Alike rule.relations other) (binding : Binding) :
    rule.triggered settings world binding = rule.triggered settings other binding := by
  unfold triggered
  rw [verdict_congr settings alike binding]

/-- A rule fires for the same bindings, after the same draws, in worlds that answer alike. -/
theorem firedBindings_congr {rule : Rule} (settings : Settings)
    (alike : world.Alike rule.relations other) :
    rule.firedBindings settings world = rule.firedBindings settings other := by
  have sameCandidates : candidates world = candidates other := by
    funext term
    cases term with
    | var v => exact alike.members v.className
    | noun name => rfl
  have sameExaminations :
      rule.examine settings world rule.slots rule.limit =
        rule.examine settings other rule.slots rule.limit := by
    funext nouns fired
    simp only [examine, triggered_congr settings alike]
  simp only [firedBindings, sameCandidates, sameExaminations]

end Rule

end Fabula
