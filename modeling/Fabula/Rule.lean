import Fabula.Condition
import Fabula.Product
import Fabula.Source

/-!
# Rules

A rule has actions and subrules.  Each subrule moves the probability with
which the actions happen, one way if its condition holds and the other way if
it does not.

A test of a rule goes through the bindings of its slots.  For each binding
the subrules either decide whether the rule fires, or leave a probability
against which a number is drawn.  The effects of the bindings that fire wait
for the next tick; nothing else of the world changes.
-/

namespace Fabula

/-- A change to the network, once for each binding for which the rule fires. -/
structure Action where
  statement : Statement Term
  text : String
deriving DecidableEq, Repr

/-- The text of an action. -/
def Action.render (action : Action) : String :=
  action.statement.renderWith Term.render

/--
Two increments of the probability, a condition that chooses between them, and
the variables that occur in the condition only.
-/
structure Subrule where
  whenTrue : Float
  whenFalse : Float
  condition : Condition
  locals : List Variable
  text : String

/-- The increment for a truth value of the condition. -/
def Subrule.increment (subrule : Subrule) (truth : Bool) : Float :=
  if truth then subrule.whenTrue else subrule.whenFalse

/-- Actions, subrules, and the variables that the actions declare. -/
structure Rule where
  actions : List Action
  subrules : List Subrule
  parameters : List Variable
  text : String

namespace Rule

/-- The smallest limit among the variables: how often the rule may fire in one test. -/
def limit (rule : Rule) : Option Nat :=
  (rule.parameters.filterMap (·.limit)).min?

/-- The terms of the actions, one for each slot, in the order of first occurrence. -/
def slots (rule : Rule) : List Term :=
  (rule.actions.flatMap (·.statement.parts)).eraseDupsBy Term.sameSlot

/-- The texts of the actions. -/
def summary (rule : Rule) : String :=
  ", ".intercalate (rule.actions.map Action.render)

end Rule

/-! ## Testing rules -/

/-- How rules are evaluated. -/
structure Settings where
  /-- An increment of this magnitude decides by its sign whether a rule fires. -/
  threshold : Float
  /-- Whether two slots may have the same noun. -/
  allowDuplicates : Bool

/-- The world in which rules are tested, and the source of their draws. -/
structure Stage where
  world : World
  source : Source

/-- Give nouns to variables, from left to right. -/
def Binding.bindAll (binding : Binding) : List (Variable × String) → Binding
  | [] => binding
  | (v, noun) :: rest => bindAll (binding.bind v.id noun) rest

namespace Subrule

/-- The local variables to which a binding gives no noun. -/
def free (subrule : Subrule) (header : Binding) : List Variable :=
  subrule.locals.filter fun v => !header.isBound v.id

/-- Test the condition with nouns for the variables `free`, and stop where it is true. -/
def tryNouns (subrule : Subrule) (world : World) (header : Binding) (free : List Variable)
    (nouns : List String) (_ : Bool) : Except Error (ForInStep Bool) := do
  let binding := header.bindAll (free.zip nouns)
  return if ← subrule.condition.evaluate world binding then .done true else .yield false

/--
Whether the condition holds: whether it is true for some choice of nouns for
the free variables, each from the class of its variable.
-/
def holds (subrule : Subrule) (world : World) (header : Binding) : Except Error Bool := do
  let free := subrule.free header
  let candidates ← free.mapM fun v => world.members v.className
  return Product.outcome (← Product.visit candidates (subrule.tryNouns world header free) false)

end Subrule

/-- What the subrules say of a binding. -/
inductive Verdict where
  | decided (fires : Bool)
  | chance (probability : Float)

namespace Rule

/--
The verdict of subrules that follow on those that have brought the
probability to its present value.  The first increment that reaches the
threshold decides, whatever was added before.
-/
def verdictFrom (settings : Settings) (world : World) (binding : Binding)
    (probability : Float) : List Subrule → Except Error Verdict
  | [] => .ok (.chance probability)
  | subrule :: rest => do
      let increment := subrule.increment (← subrule.holds world binding)
      if settings.threshold ≤ increment.abs then
        return .decided (0.0 < increment)
      else
        verdictFrom settings world binding (probability + increment) rest

/-- The verdict of all subrules of a rule on a binding. -/
def verdict (rule : Rule) (settings : Settings) (world : World) (binding : Binding) :
    Except Error Verdict :=
  verdictFrom settings world binding 0.0 rule.subrules

/-- Whether a rule fires for a binding; a number is drawn only if the subrules do not decide. -/
def triggered (rule : Rule) (settings : Settings) (world : World) (binding : Binding) :
    EStateM Error Source Bool := fun source =>
  match rule.verdict settings world binding with
  | .error error => .error error source
  | .ok (.decided fires) => .ok fires source
  | .ok (.chance probability) =>
      let (number, source) := source.draw
      .ok (number < probability) source

/-- The nouns among which a slot chooses. -/
def candidates (world : World) : Term → Except Error (List String)
  | .var v => world.members v.className
  | .noun name => .ok [name]

/-- Whether a noun occurs twice. -/
def hasRepeats : List String → Bool
  | [] => false
  | noun :: rest => rest.contains noun || hasRepeats rest

/-- The binding that gives nouns to those slots that are variables. -/
def slotBinding (slots : List Term) (nouns : List String) : Binding :=
  Binding.bindAll ∅ ((slots.zip nouns).filterMap fun (term, noun) =>
    term.asVariable.map fun v => (v, noun))

/-- Whether a count of bindings that have fired ends a test. -/
def isExhausted (limit : Option Nat) (count : Nat) : Bool :=
  match limit with
  | some limit => limit ≤ count
  | none => false

/-- Examine one combination of nouns for the slots of a rule. -/
def examine (rule : Rule) (settings : Settings) (world : World) (slots : List Term)
    (limit : Option Nat) (nouns : List String) (fired : Array Binding) :
    EStateM Error Source (ForInStep (Array Binding)) :=
  if !settings.allowDuplicates && hasRepeats nouns then
    pure (.yield fired)
  else do
    let binding := slotBinding slots nouns
    if ← rule.triggered settings world binding then
      let fired := fired.push binding
      return if isExhausted limit fired.size then .done fired else .yield fired
    else
      return .yield fired

/-- The bindings for which a rule fires, in the order in which they are examined. -/
def firedBindings (rule : Rule) (settings : Settings) (world : World) :
    EStateM Error Source (List Binding) :=
  let slots := rule.slots
  match slots.mapM (candidates world) with
  | .error error => throw error
  | .ok lists => do
      let outcome ← Product.visit lists (rule.examine settings world slots rule.limit) #[]
      return (Product.outcome outcome).toList

/-- The effects of a rule under a binding. -/
def effects (rule : Rule) (binding : Binding) : Except Error (List Effect) :=
  rule.actions.mapM fun action => binding.ground action.statement

/-- Let the effects of a rule under a binding wait for the next tick: all of them, or none. -/
def fire (rule : Rule) (binding : Binding) : EStateM Error World Unit := fun world =>
  match rule.effects binding with
  | .ok effects => .ok () (world.enqueue effects)
  | .error error => .error error world

/-- Fire a rule for bindings one after another, up to the first that fails. -/
def fireAll (rule : Rule) (bindings : List Binding) : EStateM Error World Unit :=
  bindings.forM rule.fire

/--
Test a rule: find all bindings for which it fires, then let their effects
wait.  The result is the number of these bindings.
-/
def test (rule : Rule) (settings : Settings) : EStateM Error Stage Nat := fun stage =>
  match rule.firedBindings settings stage.world stage.source with
  | .error error source => .error error { stage with source }
  | .ok fired source =>
      match rule.fireAll fired stage.world with
      | .error error world => .error error { world, source }
      | .ok () world => .ok fired.length { world, source }

end Rule

end Fabula
