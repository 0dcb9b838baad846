import Fabula.Proofs.Closed

/-!
# Conjunctions bind tighter than disjunctions

A chain of operands has an obvious reading, from left to right and without a
tree.  As long as `&` goes on, the present run of operands is true if all of it
was so far; where `/` stands, a true run settles the matter and a false one
gives way to the next.  The condition that is built from a chain has the same
result as this reading, be it a truth value or an error.

The tree adds nothing else.  It holds every operand once and in order, and none
of its nodes has less than two branches.
-/

namespace Fabula

open Outcome

namespace Script.Chain

/-! ## Chains -/

/--
Read what follows in a chain, the run at hand having the truth value `run`.
The rest of a false run is passed over, and behind a true run nothing is read.
-/
def truthFrom (world : World) (binding : Binding) :
    (run : Bool) → List (Connective × Condition) → Except Error Bool
  | run, [] => .ok run
  | false, (.and, _) :: rest => truthFrom world binding false rest
  | true, (.and, operand) :: rest => do
      truthFrom world binding (← operand.evaluate world binding) rest
  | false, (.or, operand) :: rest => do
      truthFrom world binding (← operand.evaluate world binding) rest
  | true, (.or, _) :: _ => .ok true

/-- Read a chain from its first operand on. -/
def truth (chain : Chain Condition) (world : World) (binding : Binding) : Except Error Bool := do
  truthFrom world binding (← chain.first.evaluate world binding) chain.rest

theorem ne_nil_of_mem_runs {α : Type} (chain : Chain α) : ∀ run ∈ chain.runs, run ≠ [] := by
  have cut (rest : List (Connective × α)) : ∀ run ∈ (rest.foldr prepend ([], [])).2, run ≠ [] := by
    induction rest with
    | nil => simp
    | cons link rest ih =>
        obtain ⟨connective, operand⟩ := link
        cases connective with
        | and => exact ih
        | or => exact List.forall_mem_cons.mpr ⟨List.cons_ne_nil _ _, ih⟩
  exact List.forall_mem_cons.mpr ⟨List.cons_ne_nil _ _, cut chain.rest⟩

end Script.Chain

namespace Condition

open Script

/-! ## Evaluation -/

section Evaluation

variable {world : World} {binding : Binding}

theorem evaluate_conjunction (operands : List Condition) :
    (conjunction operands).evaluate world binding = evaluateAll world binding operands := by
  unfold conjunction
  split
  · rename_i operand
    rw [evaluateAll]
    rcases operand.evaluate world binding with cause | _ | _ <;> rfl
  · rw [evaluate]

theorem evaluate_disjunction (operands : List Condition) :
    (disjunction operands).evaluate world binding = evaluateAny world binding operands := by
  unfold disjunction
  split
  · rename_i operand
    rw [evaluateAny]
    rcases operand.evaluate world binding with cause | _ | _ <;> rfl
  · rw [evaluate]

/--
A false run leaves the truth to the runs behind it, and a true run has to go on
being true or leave it to them.
-/
theorem truthFrom_eq (world : World) (binding : Binding) (rest : List (Connective × Condition)) :
    let (run, others) := rest.foldr Chain.prepend ([], [])
    Chain.truthFrom world binding false rest =
        evaluateAny world binding (others.map conjunction) ∧
      Chain.truthFrom world binding true rest =
        evaluateAny world binding (.all run :: others.map conjunction) := by
  induction rest with
  | nil => exact ⟨rfl, rfl⟩
  | cons link rest ih =>
      obtain ⟨connective, operand⟩ := link
      rw [List.foldr_cons]
      generalize rest.foldr Chain.prepend ([], []) = cut at ih ⊢
      obtain ⟨run, others⟩ := cut
      have goOn :
          (do Chain.truthFrom world binding (← operand.evaluate world binding) rest) =
            evaluateAny world binding (.all (operand :: run) :: others.map conjunction) := by
        rw [evaluateAny, evaluate, evaluateAll]
        rcases operand.evaluate world binding with cause | _ | _
        · rfl
        · exact ih.1
        · exact ih.2
      cases connective with
      | and => exact ⟨ih.1, goOn⟩
      | or =>
          refine ⟨goOn.trans ?_, rfl⟩
          simp only [List.map_cons, evaluateAny, evaluate, evaluate_conjunction]

/-- Evaluating the condition of a chain is reading the chain. -/
theorem evaluate_ofChain (chain : Chain Condition) :
    (ofChain chain).evaluate world binding = chain.truth world binding := by
  have behind := truthFrom_eq world binding chain.rest
  rw [ofChain, evaluate_disjunction, Chain.runs, Chain.truth]
  generalize chain.rest.foldr Chain.prepend ([], []) = cut at behind ⊢
  obtain ⟨run, others⟩ := cut
  rw [List.map_cons, evaluateAny, evaluate_conjunction, evaluateAll]
  rcases chain.first.evaluate world binding with cause | _ | _
  · rfl
  · exact behind.1.symm
  · exact behind.2.symm

end Evaluation

/-! ## Trees over operands -/

mutual

/--
A condition is built over operands, each of them once and in order, and every
conjunction and disjunction that this takes has two branches or more.
-/
inductive BuiltOver : Condition → List Condition → Prop where
  | operand (condition : Condition) : BuiltOver condition [condition]
  | all {branches operands : List Condition} (several : 2 ≤ branches.length)
      (built : AllBuiltOver branches operands) : BuiltOver (.all branches) operands
  | any {branches operands : List Condition} (several : 2 ≤ branches.length)
      (built : AllBuiltOver branches operands) : BuiltOver (.any branches) operands

/-- Conditions are built over operands, one after another. -/
inductive AllBuiltOver : List Condition → List Condition → Prop where
  | nil : AllBuiltOver [] []
  | cons {branch : Condition} {rest operands others : List Condition}
      (built : BuiltOver branch operands) (restBuilt : AllBuiltOver rest others) :
      AllBuiltOver (branch :: rest) (operands ++ others)

end

theorem allBuiltOver_self (operands : List Condition) : AllBuiltOver operands operands := by
  induction operands with
  | nil => exact .nil
  | cons operand rest ih => exact .cons (.operand operand) ih

theorem conjunction_builtOver {operands : List Condition} (nonempty : operands ≠ []) :
    (conjunction operands).BuiltOver operands := by
  match operands with
  | [operand] => exact .operand operand
  | first :: second :: rest => exact .all (by simp) (allBuiltOver_self _)

theorem disjunction_builtOver {branches operands : List Condition} (nonempty : branches ≠ [])
    (built : AllBuiltOver branches operands) : (disjunction branches).BuiltOver operands := by
  match branches, built with
  | [_], .cons built .nil =>
      rw [List.append_nil]
      exact built
  | _ :: _ :: _, built => exact .any (by simp) built

theorem conjunctions_builtOver {runs : List (List Condition)} (nonempty : ∀ run ∈ runs, run ≠ []) :
    AllBuiltOver (runs.map conjunction) runs.flatten := by
  induction runs with
  | nil => exact .nil
  | cons run rest ih =>
      rw [List.forall_mem_cons] at nonempty
      exact .cons (conjunction_builtOver nonempty.1) (ih nonempty.2)

/-- The condition of a chain is built over the operands of the chain. -/
theorem ofChain_builtOver (chain : Chain Condition) :
    (ofChain chain).BuiltOver chain.operands := by
  rw [← Chain.flatten_runs]
  exact disjunction_builtOver (by simp [Chain.runs])
    (conjunctions_builtOver chain.ne_nil_of_mem_runs)

/-! ## Nodes with two branches or more -/

mutual

/-- Every conjunction and every disjunction in a condition has two branches or more. -/
def Branching : Condition → Prop
  | .sentence _ => True
  | .time _ => True
  | .all branches => 2 ≤ branches.length ∧ AllBranching branches
  | .any branches => 2 ≤ branches.length ∧ AllBranching branches

/-- This is so of several conditions. -/
def AllBranching : List Condition → Prop
  | [] => True
  | branch :: rest => branch.Branching ∧ AllBranching rest

end

mutual

theorem BuiltOver.branching {condition : Condition} {operands : List Condition}
    (built : condition.BuiltOver operands) (each : ∀ operand ∈ operands, operand.Branching) :
    condition.Branching := by
  match built with
  | .operand _ => exact each _ (List.mem_singleton_self _)
  | .all several branches => exact ⟨several, branches.branching each⟩
  | .any several branches => exact ⟨several, branches.branching each⟩

theorem AllBuiltOver.branching {branches operands : List Condition}
    (built : AllBuiltOver branches operands) (each : ∀ operand ∈ operands, operand.Branching) :
    AllBranching branches := by
  match built with
  | .nil => trivial
  | .cons branch rest =>
      rw [List.forall_mem_append] at each
      exact ⟨branch.branching each.1, rest.branching each.2⟩

end

theorem ofChain_branching {chain : Chain Condition}
    (each : ∀ operand ∈ chain.operands, operand.Branching) : (ofChain chain).Branching :=
  (ofChain_builtOver chain).branching each

end Condition

/-! ## Conditions that are read -/

namespace Script

theorem readTimeGroup_branching {body : List Char} {condition : Condition}
    (read : readTimeGroup body = .ok condition) : condition.Branching := by
  rcases bind_eq_ok.mp read with ⟨chain, readChain, returned⟩
  cases returned
  apply Condition.ofChain_branching
  intro operand member
  rcases exists_of_readPieces readChain member with ⟨text, readOperand⟩
  rcases map_eq_ok.mp readOperand with ⟨clause, _, rfl⟩
  trivial

theorem readGroupRelation_branching {body text : List Char} {subject : Term}
    {object : Option Term} {condition : Condition}
    (read : readGroupRelation body subject object text = .ok condition) : condition.Branching := by
  rw [readGroupRelation] at read
  split at read
  · cases read
  · rcases bind_eq_ok.mp read with ⟨directed, _, stated⟩
    split at stated
    · cases stated
      trivial
    · cases stated

theorem readGroup_branching {kind : GroupKind} {body : List Char} {before after : Scope}
    {condition : Condition} (read : readGroup kind body before = .ok condition after) :
    condition.Branching := by
  cases kind with
  | time =>
      rcases lift_eq_ok.mp read with ⟨read, _⟩
      exact readTimeGroup_branching read
  | relational =>
      rcases readRelationalGroup_parts read with
        ⟨_, _, _, _, _, _, _, _, _, _, readOperands, rfl⟩
      apply Condition.ofChain_branching
      intro operand member
      rcases exists_of_readPieces readOperands member with ⟨_, readOperand⟩
      exact readGroupRelation_branching readOperand

theorem readSentences_branching {text : List Char} {before after : Scope} {condition : Condition}
    (read : readSentences text before = .ok condition after) : condition.Branching := by
  rcases readSentences_eq_tokensRead.mp read with ⟨_, whole, _, reads, rfl⟩
  apply Condition.ofChain_branching
  intro operand member
  rcases reads.exists_of_mem (Chain.inr_mem_items.mpr member) with ⟨_, _, _, _, readGroup⟩
  exact readGroup_branching readGroup

/--
Conjunctions bind tighter than disjunctions.  The condition of a chain is
evaluated as the chain is read from left to right, up to the first true run,
and each run up to its first false operand; it is built over the operands, and
has their sentences in order.  So wherever a condition that was read branches,
it has two branches or more.
-/
theorem conjunction_binds_tighter :
    (∀ chain : Chain Condition,
      (∀ world binding,
        (Condition.ofChain chain).evaluate world binding = chain.truth world binding) ∧
      (Condition.ofChain chain).BuiltOver chain.operands ∧
      (Condition.ofChain chain).sentences = chain.operands.flatMap Condition.sentences) ∧
    ∀ text before condition after,
      readSentences text before = .ok condition after → condition.Branching := by
  constructor
  · intro chain
    exact ⟨fun _ _ => Condition.evaluate_ofChain chain, Condition.ofChain_builtOver chain,
      Condition.sentences_ofChain chain⟩
  · intro text before condition after read
    exact readSentences_branching read

/-- An evening in an empty house. -/
def houseAtDusk : World :=
  { clock := { time := 1900, elapsed := 0 }
    network := Network.empty
    classes := ∅
    pending := #[]
    nextId := 0
    chronicle := ∅ }

/-- A sentence about a variable that no binding has met. -/
def strangerAsleep : Condition :=
  .sentence ⟨.var ⟨0, some "X", "PEOPLE", none⟩, .plain "ASLEEP", none⟩

/-- A time that has come, a stranger asleep, and a time that has passed. -/
def duskChain (first second : Connective) : Chain Condition :=
  { first := .time ⟨.greater, 1800⟩
    rest := [(first, strangerAsleep), (second, .time ⟨.less, 1800⟩)] }

theorem conjunction_binds_tighter_at_dusk :
    (Condition.ofChain (duskChain .or .and)).evaluate houseAtDusk ∅ = .ok true ∧
      (Condition.ofChain (duskChain .and .or)).evaluate houseAtDusk ∅ =
        .error (.unbound ⟨0, some "X", "PEOPLE", none⟩) ∧
      ∃ condition after,
        readSentences "[T > 1800] / (MARTHA ASLEEP & <-WATCHES #.PEOPLE)".toList Scope.empty =
            .ok condition after ∧
          condition.Branching := by
  have ended :
      succeeded
        (readSentences "[T > 1800] / (MARTHA ASLEEP & <-WATCHES #.PEOPLE)".toList Scope.empty) := by
    decide +kernel
  rcases exists_of_succeeded ended with ⟨condition, after, read⟩
  refine ⟨?_, ?_, condition, after, read, conjunction_binds_tighter.2 _ _ _ _ read⟩
  · exact ((conjunction_binds_tighter.1 (duskChain .or .and)).1 houseAtDusk ∅).trans (by decide)
  · exact ((conjunction_binds_tighter.1 (duskChain .and .or)).1 houseAtDusk ∅).trans (by decide)

end Script

end Fabula
