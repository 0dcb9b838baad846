import Fabula.Condition

/-!
# Chains

A chain is a sequence of operands with connectives between them, as rules
write them.  It is built from left to right, and read as a disjunction of its
maximal runs of operands that are joined by `&`.
-/

namespace Fabula.Script

/-- An operand, and further operands each after a connective. -/
structure Chain (α : Type) where
  first : α
  rest : List (Connective × α)
deriving DecidableEq, Repr

namespace Chain

variable {α : Type}

/-- The operands of a chain, in order. -/
def operands (chain : Chain α) : List α :=
  chain.first :: chain.rest.map Prod.snd

/--
Put a connective and an operand before a chain that is cut into runs: `run`
is what remains of the run to which the operand belongs, and `others` are the
runs after it.
-/
def prepend : Connective × α → List α × List (List α) → List α × List (List α)
  | (.and, operand), (run, others) => (operand :: run, others)
  | (.or, operand), (run, others) => ([], (operand :: run) :: others)

/-- The maximal runs of operands that are joined by `&`. -/
def runs (chain : Chain α) : List (List α) :=
  let (run, others) := chain.rest.foldr prepend ([], [])
  (chain.first :: run) :: others

theorem flatten_runs (chain : Chain α) : chain.runs.flatten = chain.operands := by
  have cut (rest : List (Connective × α)) :
      (rest.foldr prepend ([], [])).1 ++ (rest.foldr prepend ([], [])).2.flatten =
        rest.map Prod.snd := by
    induction rest with
    | nil => rfl
    | cons link rest ih =>
        obtain ⟨connective, operand⟩ := link
        cases connective <;> simpa [prepend] using ih
  simpa [runs, operands] using cut chain.rest

end Chain

/--
The beginning of a chain: nothing yet, a whole chain, or one that awaits an
operand.  What stands behind the first operand is kept backwards.
-/
inductive Partial (α : Type) where
  | nothing
  | complete (first : α) (behind : List (Connective × α))
  | awaiting (first : α) (behind : List (Connective × α)) (connective : Connective)
deriving DecidableEq, Repr

namespace Partial

variable {α : Type}

/-- Go on with an operand. -/
def operand (value : α) : Partial α → Except Flaw (Partial α)
  | nothing => .ok (complete value [])
  | complete _ _ => .error .adjacentSentences
  | awaiting first behind connective => .ok (complete first ((connective, value) :: behind))

/-- Go on with a connective. -/
def connective (symbol : Connective) : Partial α → Except Flaw (Partial α)
  | complete first behind => .ok (awaiting first behind symbol)
  | _ => .error (.noLeftOperand symbol.symbol)

/-- The chain, if it ends here. -/
def finish : Partial α → Except Flaw (Chain α)
  | nothing => .error .emptySentence
  | complete first behind => .ok { first, rest := behind.reverse }
  | awaiting _ _ connective => .error (.noRightOperand connective.symbol)

end Partial

end Fabula.Script

namespace Fabula

/-- The condition that a chain of conditions states: `&` binds tighter than `/`. -/
def Condition.ofChain (chain : Script.Chain Condition) : Condition :=
  disjunction (chain.runs.map conjunction)

end Fabula
