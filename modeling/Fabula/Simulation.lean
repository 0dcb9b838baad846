import Fabula.Configuration
import Fabula.Lexicon

/-!
# Simulations

A simulation runs rules against a world, tick by tick.  A tick files a
snapshot, lets time pass, applies the effects of the tick before, and then
tests every rule in order.  The effects of these tests wait for the next
tick, so that no rule sees what another has done in the same tick.
-/

namespace Fabula

/-- Rules, the world against which they run, and all that decides how they run. -/
structure Simulation where
  rules : List Rule
  world : World
  lexicon : Lexicon
  settings : Settings
  timestep : Nat
  source : Source

/-- What a tick did: the clock reading after it, the effects it applied, the bindings that fired. -/
structure Tick where
  time : Nat
  update : Summary
  firings : Nat
deriving DecidableEq, Repr

namespace Simulation

/-! ## Checks before the first tick -/

/-- Check that a name which an action mentions is in the lexicon. -/
def requireEntry (lexicon : Lexicon) (kind : WordKind) (action : Action) (name : String) :
    Except Error Unit :=
  if lexicon.contains name then .ok () else .error (.missingPhrase kind name action.text)

/-- Check that a term which an action mentions is in the lexicon, unless it is a variable. -/
def requireTerm (lexicon : Lexicon) (action : Action) : Term → Except Error Unit
  | .noun name => requireEntry lexicon .noun action name
  | .var _ => .ok ()

/-- Check the subject, the relation and the object of an action. -/
def checkAction (lexicon : Lexicon) (action : Action) : Except Error Unit := do
  requireTerm lexicon action action.statement.subject
  requireEntry lexicon .relation action action.statement.relation.name
  match action.statement.object with
  | some object => requireTerm lexicon action object
  | none => return ()

/-- Check that the lexicon has every name that an action mentions. -/
def checkLexicon (rules : List Rule) (lexicon : Lexicon) : Except Error Unit :=
  (rules.flatMap (·.actions)).forM (checkAction lexicon)

/-- The variables of a rule: those of its actions, then those of its subrules. -/
def variablesOf (rule : Rule) : List Variable :=
  rule.parameters ++ rule.subrules.flatMap (·.locals)

/-- Check that the class of every variable is defined. -/
def checkClasses (rules : List Rule) (world : World) : Except Error Unit :=
  (rules.flatMap variablesOf).forM fun v => (world.members v.className).map fun _ => ()

/-- Set up a simulation, and check its configuration, its lexicon and its classes. -/
def create (rules : List Rule) (world : World) (lexicon : Lexicon)
    (configuration : Configuration) (source : Source) : Except Error Simulation := do
  configuration.validate
  checkLexicon rules lexicon
  checkClasses rules world
  return {
    rules
    world
    lexicon
    settings := configuration.settings
    timestep := configuration.timestep
    source }

/-! ## Ticks -/

/-- File a snapshot, let time pass, and apply the effects that wait. -/
def advance (simulation : Simulation) : Simulation × Summary :=
  let (world, summary) := (simulation.world.snapshot.advance simulation.timestep).applyPending
  ({ simulation with world }, summary)

/-- Test rules in order; the result is the number of bindings that fired. -/
def testRules (settings : Settings) (rules : List Rule) : EStateM Error Stage Nat :=
  rules.foldlM (fun firings rule => do return firings + (← rule.test settings)) 0

/-- A simulation with another stage. -/
def withStage (simulation : Simulation) (stage : Stage) : Simulation :=
  { simulation with world := stage.world, source := stage.source }

/-- One tick.  If a test fails, what the tick has done until then remains. -/
def tick : EStateM Error Simulation Tick := fun simulation =>
  let (simulation, update) := simulation.advance
  let stage : Stage := { world := simulation.world, source := simulation.source }
  match testRules simulation.settings simulation.rules stage with
  | .error error stage => .error error (simulation.withStage stage)
  | .ok firings stage =>
      .ok { time := stage.world.clock.time, update, firings } (simulation.withStage stage)

/-- Apply the effects of the last tick without testing rules again. -/
def terminate : EStateM Error Simulation Summary := fun simulation =>
  let (simulation, summary) := simulation.advance
  .ok summary simulation

/-- Several ticks in a row. -/
def ticks (count : Nat) : EStateM Error Simulation (List Tick) :=
  (List.replicate count ()).mapM fun _ => tick

/-- Run for a number of ticks, and then apply the effects of the last one. -/
def run (count : Nat) : EStateM Error Simulation (List Tick) := do
  let reports ← ticks count
  let _ ← terminate
  return reports

end Simulation

end Fabula
