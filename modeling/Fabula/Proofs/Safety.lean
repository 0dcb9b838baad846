import Fabula.Proofs.Evaluation
import Fabula.Proofs.Tick
import Mathlib

/-!
# Simulations that are set up do not fail

A simulation can be set up only if every class that its rules range over is
defined.  If the rules have been read from a text they are closed as well, and
then neither ticks nor runs fail: a tick tests supported rules, and as it
keeps the rules and the classes, it leaves a simulation whose rules are still
supported.
-/

namespace Fabula

open Outcome

namespace Simulation

/-! ## Supported simulations -/

/-- The world of a simulation supports all its rules. -/
def Supported (simulation : Simulation) : Prop :=
  ∀ rule ∈ simulation.rules, rule.Supported simulation.world.classes

theorem defined_of_checkClasses {rules : List Rule} {world : World}
    (checked : checkClasses rules world = .ok ()) :
    ∀ rule ∈ rules, ∀ v ∈ variablesOf rule, v.className ∈ world.classes := by
  intro rule inRules v inRule
  have member : v ∈ rules.flatMap variablesOf :=
    List.mem_flatMap.mpr ⟨rule, inRules, inRule⟩
  have found := forM_eq_ok.mp checked v member
  rcases map_eq_ok.mp found with ⟨nouns, found, _⟩
  rw [World.members] at found
  split at found
  · rename_i members filed
    rw [← Std.TreeMap.isSome_getElem?_iff_mem, filed]
    rfl
  · cases found

/-- Closed rules with which a simulation is set up are supported. -/
theorem create_supported {rules : List Rule} {world : World} {lexicon : Lexicon}
    {configuration : Configuration} {source : Source} {simulation : Simulation}
    (closed : ∀ rule ∈ rules, rule.Closed)
    (created : create rules world lexicon configuration source = .ok simulation) :
    simulation.Supported := by
  rcases create_eq_ok.mp created with ⟨_, _, checked, rfl⟩
  have defined := defined_of_checkClasses checked
  intro rule member
  exact
    { closed := closed rule member
      parameters := fun v isParameter =>
        defined rule member v (List.mem_append_left _ isParameter)
      locals := fun subrule inRule v isLocal =>
        defined rule member v
          (List.mem_append_right _ (List.mem_flatMap.mpr ⟨subrule, inRule, isLocal⟩)) }

/-! ## Calls -/

theorem testRules_yields {rules : List Rule} {classes : NameTable} (settings : Settings)
    (supported : ∀ rule ∈ rules, rule.Supported classes) :
    (Success.keeping fun stage : Stage => stage.world.classes = classes).Yields
      (testRules settings rules) fun _ => True := by
  apply Success.foldlM
  intro rule member firings
  refine Success.bind _ (Rule.test_yields settings (supported rule member)) ?_
  intro count _
  exact Success.pure _ trivial

/-- A flush keeps the classes, so that the rules are supported when they are tested. -/
theorem tick_yields :
    (Success.keeping Supported).Yields tick fun _ => True := by
  intro simulation supported
  have stillSupported :
      ∀ rule ∈ simulation.rules,
        rule.Supported simulation.advance.1.world.classes := by
    rw [(advance_flushes simulation).classes]
    exact supported
  rcases testRules_yields simulation.settings stillSupported
      { world := simulation.advance.1.world, source := simulation.source } rfl with
    ⟨firings, stage, tested, sameClasses, _⟩
  have ticked := tick_eq_ok.mpr ⟨firings, stage, tested, rfl, rfl⟩
  refine ⟨_, _, ticked, ?_, trivial⟩
  intro rule member
  have ruleSupported := stillSupported rule member
  rw [← sameClasses] at ruleSupported
  exact ruleSupported

theorem terminate_yields :
    (Success.keeping Supported).Yields terminate fun _ => True := by
  intro simulation supported
  refine ⟨simulation.advance.2, simulation.advance.1, rfl, ?_, trivial⟩
  intro rule member
  rw [(advance_flushes simulation).classes]
  exact supported rule member

/-- What can be asked of a simulation that is set up. -/
inductive Call where
  | tick
  | run (count : Nat)
  | terminate
deriving DecidableEq, Repr

/-- Do what a call asks for, and leave its report aside. -/
def Call.perform : Call → EStateM Error Simulation Unit
  | tick => do
      let _ ← Simulation.tick
  | run count => do
      let _ ← Simulation.run count
  | terminate => do
      let _ ← Simulation.terminate

section Calls

variable (success : Success (EStateM Error Simulation))
  (ticks : success.Yields tick fun _ => True) (flushes : success.Yields terminate fun _ => True)

include ticks flushes

/-- What ticks and flushes ensure, a run ensures. -/
theorem run_yields_of (count : Nat) : success.Yields (run count) fun _ => True := by
  refine success.bind (success.mapM fun _ _ => ticks) ?_
  intro reports _
  refine success.bind flushes ?_
  intro _ _
  exact success.pure trivial

theorem perform_yields_of (call : Call) : success.Yields call.perform fun _ => True := by
  cases call with
  | tick => exact success.bind ticks fun _ _ => success.pure trivial
  | run count =>
      exact success.bind (run_yields_of success ticks flushes count) fun _ _ =>
        success.pure trivial
  | terminate => exact success.bind flushes fun _ _ => success.pure trivial

end Calls

theorem run_yields (count : Nat) :
    (Success.keeping Supported).Yields (run count) fun _ => True :=
  run_yields_of _ tick_yields terminate_yields count

theorem perform_yields (call : Call) :
    (Success.keeping Supported).Yields call.perform fun _ => True :=
  perform_yields_of _ tick_yields terminate_yields call

/--
Rules that could be read, in a simulation that could be set up, never fail:
every later sequence of calls succeeds.
-/
theorem calls_succeed {text : String} {rules : List Rule} {world : World}
    {lexicon : Lexicon} {configuration : Configuration} {source : Source}
    {simulation : Simulation}
    (read : Script.readRules text = .ok rules)
    (created : create rules world lexicon configuration source = .ok simulation)
    (calls : List Call) :
    ∃ final, calls.forM Call.perform simulation = .ok () final := by
  have supported := create_supported (Script.readRules_closed read) created
  have performed :
      (Success.keeping Supported).Yields (calls.forM Call.perform) fun _ => True := by
    apply Success.forM
    intro call _
    exact perform_yields call
  rcases performed simulation supported with ⟨_, final, done, _, _⟩
  exact ⟨final, done⟩

/-- A world with a class of two people, in the evening. -/
def village : World :=
  { clock := { time := 1700, elapsed := 0 }
    network := .empty
    classes := NameTable.extend ∅ "PEOPLE" ["GEORGE", "MARTHA"]
    pending := #[]
    nextId := 0
    chronicle := ∅ }

/-- A rule about people, with a variable that only its condition mentions. -/
def villageRule : String :=
  "X.PEOPLE LIKES Y.PEOPLE:1; 10,0: (X LIKES #W.PEOPLE) & [T > 1700]"

theorem calls_succeed_in_village :
    ∃ rules simulation final,
      Script.readRules ("$RULE " ++ villageRule) = .ok rules ∧
      create rules village (NameTable.extend ∅ "LIKES" ["likes"])
          Configuration.default (.ofSeed 7) =
        .ok simulation ∧
      [Call.tick, .terminate, .run 3, .tick].forM Call.perform simulation =
        .ok () final := by
  have onlyDefinition :
      Script.definitions (Script.normalize ("$RULE " ++ villageRule).toList) =
        [villageRule.toList] := by
    cbv
  have accepted :
      ([villageRule.toList].mapM Script.readRule >>= fun rules =>
        create rules village (NameTable.extend ∅ "LIKES" ["likes"])
          Configuration.default (.ofSeed 7)).isOk := by
    decide +kernel
  rw [← onlyDefinition] at accepted
  rcases exists_of_isOk accepted with ⟨simulation, accepted⟩
  rcases bind_eq_ok.mp accepted with ⟨rules, read, created⟩
  rcases calls_succeed read created [.tick, .terminate, .run 3, .tick] with ⟨final, done⟩
  exact ⟨rules, simulation, final, read, created, done⟩

end Simulation

end Fabula
