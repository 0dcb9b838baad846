import Fabula.Proofs.Trace

/-!
# Every effect is delivered once, and one tick late

A tick applies exactly the effects that the calls before it have left, in
order, and leaves exactly the effects of its own firings.  Hence in a run the
effects of each tick are applied by the next one, and those of the last tick by
the flush that ends the run.
-/

namespace Fabula.Simulation

open Outcome

/-- The effects that wait in a simulation, in order. -/
def queue (simulation : Simulation) : List Effect :=
  simulation.world.pending.toList

/-! ## Ticks -/

/--
How a tick handles effects.  It begins by a flush; every rule is tested in the
flushed world, which the tests leave as it is but for the queue; and in the end
the queue consists of what the fired bindings demand.
-/
structure TickLaw (before : Simulation) (report : Tick) (after : Simulation)
    (flushed : World) (fired : List (Rule × List Binding)) : Prop where
  flush : Flush before flushed
  undisturbed :
    ∀ first others, before.rules = first ++ others →
      ∃ firings stage,
        testRules before.settings first { world := flushed, source := before.source } =
          .ok firings stage ∧
        stage.world = { flushed with pending := stage.world.pending }
  tested :
    Tested before.settings flushed before.rules before.source fired after.source
  queued :
    ∃ lists : List (List Effect),
      demands fired = lists.map .ok ∧ after.queue = lists.flatten
  length_queue :
    after.queue.length =
      (fired.map fun (rule, bindings) => bindings.length * rule.actions.length).sum
  frame :
    after =
      { before with
        world := { flushed with pending := after.world.pending }
        source := after.source }
  time : report.time = flushed.clock.time
  asserted :
    report.update.asserted = before.queue.countP fun effect => !effect.relation.negated
  firings : report.firings = (fired.map fun (_, bindings) => bindings.length).sum

/-- Tests of the first rules change nothing but the queue. -/
theorem testRules_undisturbed {settings : Settings} {first others : List Rule}
    {world : World} {source : Source} {firings : Nat} {stage : Stage}
    (tested : testRules settings (first ++ others) { world, source } = .ok firings stage) :
    ∃ firings stage,
      testRules settings first { world, source } = .ok firings stage ∧
      stage.world = { world with pending := stage.world.pending } := by
  rw [testRules, List.foldlM_append] at tested
  rcases run_bind_eq_ok.mp tested with ⟨count, middle, firstTested, _⟩
  rcases testRules_eq_ok firstTested with ⟨_, lists, _, _, changed, _⟩
  refine ⟨count, middle, firstTested, ?_⟩
  rw [changed]
  rfl

theorem tick_law {before after : Simulation} {report : Tick}
    (ticked : tick before = .ok report after) :
    ∃ flushed fired, TickLaw before report after flushed fired := by
  rcases tick_eq_ok.mp ticked with ⟨firings, stage, tested, rfl, rfl⟩
  rcases testRules_eq_ok tested with ⟨fired, lists, allTested, met, changed, rfl⟩
  have flush := advance_flushes before
  have waiting :
      (before.advance.1.withStage stage).queue = lists.flatten := by
    rw [queue, withStage, changed, World.enqueue, flush.pending]
    simp
  refine ⟨before.advance.1.world, fired, ?_⟩
  exact
    { flush
      undisturbed := by
        intro first others split
        rw [split] at tested
        exact testRules_undisturbed tested
      tested := allTested
      queued := ⟨lists, met, waiting⟩
      length_queue := by
        rw [waiting]
        exact length_flatten_demands met
      frame := by
        rw [withStage, changed]
        rfl
      time := by
        rw [changed]
        rfl
      asserted := asserted_advance before
      firings := by
        rw [← length_demands, met, List.length_map] }

/-! ## Runs -/

/--
How a run handles effects.  The simulations before the ticks and before the
last flush are listed as `passed`; their queues are the rounds that the run
applies, one round in a step, each at a clock that has advanced once more.
-/
structure RunLaw (count : Nat) (before : Simulation) (reports : List Tick)
    (after : Simulation) (passed : List Simulation) : Prop where
  steps :
    ∃ summary,
      Trace before (List.replicate count .tick ++ [.terminate])
        (reports.map .ticked ++ [.flushed summary]) passed after
  delivered :
    ∀ (number : Nat) (state : Simulation), (passed ++ [after])[number]? = some state →
      state.world.contents =
        Contents.replay before.timestep before.world.clock before.world.contents
          ((passed.map queue).take number)
  settled : after.queue = []

/-- At any point of a trace, the rounds before it have been applied, each in one step. -/
theorem Trace.contents {before after : Simulation} {steps : List Step}
    {replies : List Reply} {passed : List Simulation}
    (trace : Trace before steps replies passed after) {number : Nat} {state : Simulation}
    (reached : (passed ++ [after])[number]? = some state) :
    state.world.contents =
      Contents.replay before.timestep before.world.clock before.world.contents
        ((passed.map queue).take number) := by
  induction trace generalizing number with
  | nil =>
      cases number with
      | zero =>
          cases reached
          rfl
      | succ number => simp at reached
  | @cons step rest before middle after reply replies passed performed _ ih =>
      cases number with
      | zero =>
          cases reached
          rfl
      | succ number =>
          rcases perform_flushes performed with ⟨flushed, pending, source, flush, changed⟩
          have sameStep : middle.timestep = before.timestep := by
            rw [changed]
          have clock :
              middle.world.clock = before.world.clock.advance before.timestep := by
            rw [changed]
            exact flush.clock
          have contents :
              middle.world.contents =
                before.queue.foldl
                  (Contents.revise (before.world.clock.advance before.timestep))
                  before.world.contents := by
            rw [changed, ← flush.clock]
            exact flush.contents
          have replayed := ih reached
          rw [sameStep, clock, contents] at replayed
          exact replayed

theorem run_law {count : Nat} {before after : Simulation} {reports : List Tick}
    (ran : run count before = .ok reports after) :
    ∃ passed, RunLaw count before reports after passed := by
  rcases run_trace ran with ⟨summary, passed, last, trace, ended⟩
  have flushed : Trace last [.terminate] [.flushed summary] [last] after :=
    .cons (run_map_eq_ok.mpr ⟨summary, ended, rfl⟩) .nil
  have whole := trace.append flushed
  refine ⟨passed ++ [last], ⟨summary, whole⟩, ?_, ?_⟩
  · intro number state reached
    exact whole.contents reached
  · rcases terminate_eq_ok.mp ended with ⟨_, rfl⟩
    rw [queue, (advance_flushes last).pending]

/--
No effect is lost, applied twice, moved or applied early, by a tick or by a
run.
-/
theorem effects_are_delivered :
    (∀ before report after, tick before = .ok report after →
      ∃ flushed fired, TickLaw before report after flushed fired) ∧
    (∀ count before reports after, run count before = .ok reports after →
      ∃ passed, RunLaw count before reports after passed) :=
  ⟨fun _ _ _ ticked => tick_law ticked, fun _ _ _ _ ran => run_law ran⟩

/-- A simulation with an effect that waits and a rule that fires for two people. -/
def tavern : Simulation :=
  { rules :=
      [{ actions := [⟨.var ⟨0, some "X", "PEOPLE", none⟩, .plain "SINGS", none⟩].map (⟨·, ""⟩)
         subrules :=
          [{ whenTrue := 10.0
             whenFalse := 0.0
             condition := .time ⟨.greater, 1700⟩
             locals := []
             text := "" }]
         parameters := [⟨0, some "X", "PEOPLE", none⟩]
         text := "" }]
    world :=
      { clock := { time := 1700, elapsed := 0 }
        network := .empty
        classes := NameTable.extend ∅ "PEOPLE" ["GEORGE", "MARTHA"]
        pending := #[⟨"GEORGE", .plain "DRINKS", none⟩]
        nextId := 0
        chronicle := ∅ }
    lexicon := ∅
    settings := { threshold := 10.0, allowDuplicates := true }
    timestep := 10
    source := .ofSeed 7 }

theorem effects_are_delivered_in_tavern :
    (∃ report after flushed fired,
      tick tavern = .ok report after ∧
      TickLaw tavern report after flushed fired) ∧
    (∃ reports after passed,
      run 2 tavern = .ok reports after ∧
      RunLaw 2 tavern reports after passed) := by
  constructor
  · obtain ⟨report, after, ticked⟩ :
        ∃ report after, tick tavern = .ok report after :=
      exists_of_succeeded (by decide +kernel)
    rcases effects_are_delivered.1 tavern report after ticked with ⟨flushed, fired, law⟩
    exact ⟨report, after, flushed, fired, ticked, law⟩
  · obtain ⟨reports, after, ran⟩ :
        ∃ reports after, run 2 tavern = .ok reports after :=
      exists_of_succeeded (by decide +kernel)
    rcases effects_are_delivered.2 2 tavern reports after ran with ⟨passed, law⟩
    exact ⟨reports, after, passed, ran, law⟩

end Fabula.Simulation
