import Fabula.Proofs.Closed

/-!
# The truth of conditions

If every variable stands for a noun, a condition is true or false of a world
as logic has it: a conjunction is true if every operand is, and a disjunction
if some operand is.  Evaluation finds this truth value under any binding that
has the nouns of all variables in the condition.  Where it stops early, the
operands that it has not looked at do not matter.
-/

namespace Fabula

open Outcome

/-! ## Truth -/

/-- The noun that a term stands for if `choice` gives nouns to variables. -/
def Term.choose (choice : Nat → String) : Term → String
  | .noun name => name
  | .var v => choice v.id

/-- A statement with nouns in the places of its variables. -/
def Statement.choose (choice : Nat → String) (statement : Statement Term) : Effect :=
  { subject := statement.subject.choose choice
    relation := statement.relation
    object := statement.object.map (Term.choose choice) }

/-- A condition is true of a world if variables stand for the nouns that `choice` gives them. -/
inductive Condition.Holds (world : World) (choice : Nat → String) : Condition → Prop where
  | sentence {statement : Sentence}
      (satisfied : world.satisfies (statement.choose choice)) :
      Holds world choice (.sentence statement)
  | time {clause : TimeSentence} (holds : clause.holds world) :
      Holds world choice (.time clause)
  | all {operands : List Condition} (hold : ∀ operand ∈ operands, Holds world choice operand) :
      Holds world choice (.all operands)
  | any {operands : List Condition} {operand : Condition} (member : operand ∈ operands)
      (holds : Holds world choice operand) : Holds world choice (.any operands)

namespace Condition

variable {world : World} {choice : Nat → String}

theorem holds_sentence_iff {statement : Sentence} :
    Holds world choice (.sentence statement) ↔
      world.satisfies (statement.choose choice) :=
  ⟨fun | .sentence satisfied => satisfied, .sentence⟩

theorem holds_time_iff {clause : TimeSentence} :
    Holds world choice (.time clause) ↔ clause.holds world :=
  ⟨fun | .time holds => holds, .time⟩

theorem holds_all_iff {operands : List Condition} :
    Holds world choice (.all operands) ↔ ∀ operand ∈ operands, operand.Holds world choice :=
  ⟨fun | .all hold => hold, .all⟩

theorem holds_any_iff {operands : List Condition} :
    Holds world choice (.any operands) ↔ ∃ operand ∈ operands, operand.Holds world choice :=
  ⟨fun | .any member holds => ⟨_, member, holds⟩, fun ⟨_, member, holds⟩ => .any member holds⟩

/-- The truth of a condition does not depend on the members of classes. -/
theorem Holds.with_classes {condition : Condition} (holds : condition.Holds world choice)
    (classes : NameTable) : condition.Holds { world with classes } choice := by
  induction holds with
  | sentence satisfied => exact .sentence satisfied
  | time holds => exact .time holds
  | all _ ih => exact .all ih
  | any member _ ih => exact .any member ih

theorem holds_with_classes_iff {condition : Condition} {classes : NameTable} :
    condition.Holds { world with classes } choice ↔ condition.Holds world choice :=
  ⟨fun holds => holds.with_classes world.classes, fun holds => holds.with_classes classes⟩

end Condition

/-! ## Bindings that have the nouns of variables -/

namespace Binding

/-- A binding has, for each of some variables, the noun that it stands for. -/
def Gives (binding : Binding) (choice : Nat → String) (needed : List Variable) : Prop :=
  ∀ v ∈ needed, binding[v.id]? = some (choice v.id)

/-- What variables stand for: their nouns in a binding, or else what is chosen for them. -/
def completed (binding : Binding) (choice : Nat → String) (id : Nat) : String :=
  binding[id]?.getD (choice id)

variable {binding : Binding} {choice : Nat → String}

theorem Gives.mono {needed others : List Variable} (given : binding.Gives choice needed)
    (fewer : ∀ v ∈ others, v ∈ needed) : binding.Gives choice others :=
  fun v member => given v (fewer v member)

theorem resolve_eq {term : Term} (given : binding.Gives choice term.mentioned) :
    binding.resolve term = .ok (term.choose choice) := by
  cases term with
  | noun name => rfl
  | var v =>
      have found : binding[v.id]? = some (choice v.id) :=
        given v.unlimited (List.mem_singleton_self _)
      rw [resolve, found]
      rfl

theorem resolve?_eq {term : Option Term}
    (given : binding.Gives choice (term.toList.flatMap Term.mentioned)) :
    binding.resolve? term = .ok (term.map (Term.choose choice)) := by
  cases term with
  | none => rfl
  | some term =>
      have termGiven : binding.Gives choice term.mentioned := by
        simpa using given
      rw [resolve?, resolve_eq termGiven]
      rfl

/-- A statement is grounded to what its terms stand for. -/
theorem ground_eq {statement : Statement Term}
    (given : binding.Gives choice statement.mentioned) :
    binding.ground statement = .ok (statement.choose choice) := by
  have split :
      statement.mentioned =
        statement.subject.mentioned ++ statement.object.toList.flatMap Term.mentioned := by
    rfl
  rw [split] at given
  have subject := resolve_eq (given.mono fun _ member => List.mem_append_left _ member)
  have object := resolve?_eq (given.mono fun _ member => List.mem_append_right _ member)
  exact bind_eq_ok.mpr ⟨_, subject, bind_eq_ok.mpr ⟨_, object, rfl⟩⟩

end Binding

/-! ## Evaluation -/

namespace Condition

mutual

/-- A condition is evaluated to whether it is true of what its variables stand for. -/
theorem evaluate_iff_holds (world : World) {binding : Binding} {choice : Nat → String} :
    ∀ condition : Condition, binding.Gives choice condition.mentioned →
      ∃ truth, condition.evaluate world binding = .ok truth ∧
        (truth = true ↔ condition.Holds world choice)
  | .sentence statement, given => by
      have statementGiven : binding.Gives choice statement.mentioned := by
        simpa [mentioned, sentences] using given
      refine ⟨world.satisfies (statement.choose choice), ?_,
        holds_sentence_iff.symm⟩
      rw [evaluate, Binding.ground_eq statementGiven]
      rfl
  | .time clause, _ => ⟨clause.holds world, rfl, holds_time_iff.symm⟩
  | .all operands, given => by
      rw [evaluate, holds_all_iff]
      exact evaluateAll_iff_holds world operands given
  | .any operands, given => by
      rw [evaluate, holds_any_iff]
      exact evaluateAny_iff_holds world operands given

theorem evaluateAll_iff_holds (world : World) {binding : Binding} {choice : Nat → String} :
    ∀ operands : List Condition,
      binding.Gives choice ((sentencesOf operands).flatMap Statement.mentioned) →
      ∃ truth, evaluateAll world binding operands = .ok truth ∧
        (truth = true ↔ ∀ operand ∈ operands, operand.Holds world choice)
  | [], _ => ⟨true, rfl, by simp⟩
  | operand :: rest, given => by
      rw [sentencesOf, List.flatMap_append] at given
      rcases evaluate_iff_holds world operand
          (given.mono fun _ member => List.mem_append_left _ member) with
        ⟨truth, evaluated, means⟩
      have restMeans :=
        evaluateAll_iff_holds world rest
          (given.mono fun _ member => List.mem_append_right _ member)
      simp only [evaluateAll, evaluated, List.forall_mem_cons, ← means]
      cases truth with
      | false => exact ⟨false, rfl, by simp⟩
      | true => simpa using restMeans

theorem evaluateAny_iff_holds (world : World) {binding : Binding} {choice : Nat → String} :
    ∀ operands : List Condition,
      binding.Gives choice ((sentencesOf operands).flatMap Statement.mentioned) →
      ∃ truth, evaluateAny world binding operands = .ok truth ∧
        (truth = true ↔ ∃ operand ∈ operands, operand.Holds world choice)
  | [], _ => ⟨false, rfl, by simp⟩
  | operand :: rest, given => by
      rw [sentencesOf, List.flatMap_append] at given
      rcases evaluate_iff_holds world operand
          (given.mono fun _ member => List.mem_append_left _ member) with
        ⟨truth, evaluated, means⟩
      have restMeans :=
        evaluateAny_iff_holds world rest
          (given.mono fun _ member => List.mem_append_right _ member)
      simp only [evaluateAny, evaluated, List.exists_mem_cons_iff, ← means]
      cases truth with
      | true => exact ⟨true, rfl, by simp⟩
      | false => simpa using restMeans

end

end Condition

end Fabula
