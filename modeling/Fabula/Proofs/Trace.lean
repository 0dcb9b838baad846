import Fabula.Proofs.Change
import Fabula.Proofs.Tick

/-!
# Traces

A trace is a succession of steps that succeed: ticks, and flushes that end a
run.  It lists the simulations before each step.  What single steps have in
common, the flush with which they begin, is carried along traces by induction.
-/

namespace Fabula.Simulation

open Outcome

/-! ## Steps -/

/-- A step: a tick, or a flush of the effects that the last tick has left. -/
inductive Step where
  | tick
  | terminate
deriving DecidableEq, Repr

/-- What a step reports. -/
inductive Reply where
  | ticked (report : Tick)
  | flushed (summary : Summary)
deriving DecidableEq, Repr

/-- Perform a step. -/
def Step.perform : Step → EStateM Error Simulation Reply
  | tick => Reply.ticked <$> Simulation.tick
  | terminate => Reply.flushed <$> Simulation.terminate

/-- Every step flushes; after that it changes the source and lets effects wait, if anything. -/
theorem perform_flushes {step : Step} {before after : Simulation} {reply : Reply}
    (performed : step.perform before = .ok reply after) :
    ∃ flushed pending source,
      Flush before flushed ∧
      after = { before with world := { flushed with pending }, source } := by
  cases step with
  | tick =>
      rcases run_map_eq_ok.mp performed with ⟨report, ticked, _⟩
      rcases tick_eq_ok.mp ticked with ⟨firings, stage, tested, _, rfl⟩
      rcases testRules_eq_ok tested with ⟨_, _, _, _, changed, _⟩
      refine ⟨before.advance.1.world, stage.world.pending, stage.source,
        advance_flushes before, ?_⟩
      rw [withStage, changed]
      rfl
  | terminate =>
      rcases run_map_eq_ok.mp performed with ⟨summary, ended, _⟩
      rcases terminate_eq_ok.mp ended with ⟨_, rfl⟩
      exact ⟨before.advance.1.world, before.advance.1.world.pending, before.source,
        advance_flushes before, rfl⟩

theorem advance_eq_change (before : Simulation) :
    before.advance.1.world =
      before.world.change
        (.snapshot :: .advance before.timestep :: .clear ::
          before.world.pending.toList.flatMap Change.ofEffect) :=
  World.applyPending_eq_change (before.world.snapshot.advance before.timestep)

theorem advance_takes (before : Simulation) :
    before.world.Takes before.timestep before.advance.1.world := by
  refine ⟨_, advance_eq_change before, ?_⟩
  rw [List.map_cons, List.map_cons, List.sum_cons, List.sum_cons, Change.sum_minutes_flush]
  exact Nat.zero_add before.timestep

/-- Every step changes the world by elementary changes, and lets one time step pass. -/
theorem perform_takes {step : Step} {before after : Simulation} {reply : Reply}
    (performed : step.perform before = .ok reply after) :
    before.world.Takes before.timestep after.world := by
  have flushed := advance_takes before
  cases step with
  | tick =>
      rcases run_map_eq_ok.mp performed with ⟨report, ticked, _⟩
      rcases tick_eq_ok.mp ticked with ⟨firings, stage, tested, _, rfl⟩
      rcases testRules_eq_ok tested with ⟨_, lists, _, _, changed, _⟩
      rw [withStage, changed]
      exact flushed.trans (World.takes_apply _ (.queue lists.flatten))
  | terminate =>
      rcases run_map_eq_ok.mp performed with ⟨summary, ended, _⟩
      rcases terminate_eq_ok.mp ended with ⟨_, rfl⟩
      exact flushed

/-! ## Traces -/

/-- Steps that succeed one after another, with what they report and what they began with. -/
inductive Trace :
    Simulation → List Step → List Reply → List Simulation → Simulation → Prop where
  | nil {simulation : Simulation} : Trace simulation [] [] [] simulation
  | cons {step : Step} {rest : List Step} {before middle after : Simulation}
      {reply : Reply} {replies : List Reply} {passed : List Simulation}
      (performed : step.perform before = .ok reply middle)
      (others : Trace middle rest replies passed after) :
      Trace before (step :: rest) (reply :: replies) (before :: passed) after

namespace Trace

theorem append {before middle after : Simulation} {first others : List Step}
    {replies otherReplies : List Reply} {passed otherPassed : List Simulation}
    (left : Trace before first replies passed middle)
    (right : Trace middle others otherReplies otherPassed after) :
    Trace before (first ++ others) (replies ++ otherReplies) (passed ++ otherPassed)
      after := by
  induction left with
  | nil => exact right
  | cons performed _ ih => exact .cons performed (ih right)

theorem length_passed {before after : Simulation} {steps : List Step}
    {replies : List Reply} {passed : List Simulation}
    (trace : Trace before steps replies passed after) :
    passed.length = steps.length := by
  induction trace with
  | nil => rfl
  | cons _ _ ih => simp [ih]

/-- Changes lead from the first world of a trace to every other. -/
theorem leads {before after : Simulation} {steps : List Step}
    {replies : List Reply} {passed : List Simulation}
    (trace : Trace before steps replies passed after) :
    ∀ state ∈ passed, before.world.Leads state.world := by
  induction trace with
  | nil => simp
  | cons performed _ ih =>
      intro state member
      rcases List.mem_cons.mp member with rfl | later
      · exact World.Leads.refl _
      · exact World.Leads.trans _ _ _ (perform_takes performed).leads (ih state later)

theorem timestep {before after : Simulation} {steps : List Step} {replies : List Reply}
    {passed : List Simulation} (trace : Trace before steps replies passed after) :
    after.timestep = before.timestep := by
  induction trace with
  | nil => rfl
  | cons performed _ ih =>
      rcases perform_flushes performed with ⟨_, _, _, _, rfl⟩
      exact ih

theorem takes {before after : Simulation} {steps : List Step} {replies : List Reply}
    {passed : List Simulation} (trace : Trace before steps replies passed after) :
    before.world.Takes (steps.length * before.timestep) after.world := by
  induction trace with
  | nil =>
      rw [List.length_nil, Nat.zero_mul]
      exact World.Takes.refl _
  | @cons _ _ _ middle _ _ _ _ performed _ ih =>
      have same : middle.timestep = _ := (Trace.cons performed .nil).timestep
      rw [same] at ih
      rw [List.length_cons, Nat.succ_mul, Nat.add_comm]
      exact (perform_takes performed).trans ih

end Trace

theorem trace_of_mapM {steps : List Step} {before after : Simulation}
    {replies : List Reply} (performed : steps.mapM Step.perform before = .ok replies after) :
    ∃ passed, Trace before steps replies passed after := by
  induction steps generalizing before replies with
  | nil =>
      cases performed
      exact ⟨[], .nil⟩
  | cons step rest ih =>
      rcases run_mapM_cons_eq_ok.mp performed with
        ⟨reply, middle, others, first, restPerformed, rfl⟩
      rcases ih restPerformed with ⟨passed, trace⟩
      exact ⟨before :: passed, .cons first trace⟩

theorem ticks_trace {count : Nat} {before after : Simulation} {reports : List Tick}
    (ticked : ticks count before = .ok reports after) :
    ∃ passed,
      Trace before (List.replicate count .tick) (reports.map .ticked) passed after := by
  apply trace_of_mapM
  unfold ticks at ticked
  induction count generalizing before reports with
  | zero =>
      cases ticked
      rfl
  | succ count ih =>
      rw [List.replicate_succ] at ticked ⊢
      rcases run_mapM_cons_eq_ok.mp ticked with ⟨report, middle, others, first, rest, rfl⟩
      have performed : Step.tick.perform before = .ok (.ticked report) middle :=
        run_map_eq_ok.mpr ⟨report, first, rfl⟩
      exact run_mapM_cons_eq_ok.mpr ⟨.ticked report, middle, _, performed, ih rest, rfl⟩

/-- A run is a trace of ticks that a flush ends. -/
theorem run_trace {count : Nat} {before after : Simulation} {reports : List Tick}
    (ran : run count before = .ok reports after) :
    ∃ summary passed last,
      Trace before (List.replicate count .tick) (reports.map .ticked) passed last ∧
      terminate last = .ok summary after := by
  rcases run_bind_eq_ok.mp ran with ⟨reported, last, ticked, ended⟩
  rcases run_bind_eq_ok.mp ended with ⟨summary, _, terminated, returned⟩
  cases returned
  rcases ticks_trace ticked with ⟨passed, trace⟩
  exact ⟨summary, passed, last, trace, terminated⟩

end Fabula.Simulation
