import Fabula.Proofs.Contents
import Fabula.Proofs.Outcome
import Fabula.Proofs.Relevance
import Fabula.Simulation
import Mathlib.Algebra.GroupWithZero.Nat

/-!
# Setting up, and one tick

A tick flushes the effects that wait, and then tests its rules in the world
that the flush leaves.  The tests only let effects wait, and no test depends on
effects that wait; so every rule is tested as if it were the first.
-/

namespace Fabula

open Outcome

namespace Simulation

/-! ## Setting up -/

/-- A simulation is set up if its configuration, its lexicon and its classes pass. -/
theorem create_eq_ok {rules : List Rule} {world : World} {lexicon : Lexicon}
    {configuration : Configuration} {source : Source} {simulation : Simulation} :
    create rules world lexicon configuration source = .ok simulation ↔
      configuration.validate = .ok () ∧
      checkLexicon rules lexicon = .ok () ∧
      checkClasses rules world = .ok () ∧
      simulation =
        { rules
          world
          lexicon
          settings := configuration.settings
          timestep := configuration.timestep
          source } := by
  constructor
  · intro created
    rcases bind_eq_ok.mp created with ⟨_, valid, created⟩
    rcases bind_eq_ok.mp created with ⟨_, phrased, created⟩
    rcases bind_eq_ok.mp created with ⟨_, defined, created⟩
    cases created
    exact ⟨valid, phrased, defined, rfl⟩
  · rintro ⟨valid, phrased, defined, rfl⟩
    exact bind_eq_ok.mpr ⟨_, valid,
      bind_eq_ok.mpr ⟨_, phrased, bind_eq_ok.mpr ⟨_, defined, rfl⟩⟩⟩

/-! ## The flush -/

/-- The world in which a call on a simulation has applied the effects that waited. -/
structure Flush (before : Simulation) (flushed : World) : Prop where
  clock : flushed.clock = before.world.clock.advance before.timestep
  classes : flushed.classes = before.world.classes
  chronicle :
    flushed.chronicle =
      before.world.chronicle.insert before.world.clock.time before.world.network.facts
  contents :
    flushed.contents =
      before.world.pending.toList.foldl (Contents.revise flushed.clock)
        before.world.contents
  pending : flushed.pending = #[]

theorem Flush.elapsed {before : Simulation} {flushed : World} (flush : Flush before flushed)
    (fits : before.world.clock.elapsed + before.timestep < Text.wordBound) :
    flushed.clock.elapsed = before.world.clock.elapsed + before.timestep := by
  rw [flush.clock]
  exact Clock.elapsed_advance fits

/-- A fact after a flush is one from before, or an effect that waited has asserted it. -/
theorem Flush.origin {before : Simulation} {flushed : World} (flush : Flush before flushed)
    {key : Fact.Key} {fact : Fact} (found : flushed.get? key = some fact) :
    before.world.get? key = some fact ∨
      before.world.nextId ≤ fact.id ∧ fact.assertedElapsed = flushed.clock.elapsed ∧
        ∃ effect ∈ before.world.pending.toList,
          effect.relation.negated = false ∧ fact.key = effect.key := by
  have revised : flushed.contents.fact key = some fact := found
  rw [flush.contents] at revised
  exact Contents.fact_foldl_revise revised

theorem advance_flushes (before : Simulation) : Flush before before.advance.1.world := by
  have frame :=
    World.applyEffects_frame
      { before.world.snapshot.advance before.timestep with pending := #[] }
      { asserted := 0, retracted := 0 } before.world.pending.toList
  have contents :=
    World.contents_applyEffects
      { before.world.snapshot.advance before.timestep with pending := #[] }
      { asserted := 0, retracted := 0 } before.world.pending.toList
  have flushed :
      before.advance.1.world =
        { before.world.snapshot.advance before.timestep with
          pending := #[]
          network := before.advance.1.world.network
          nextId := before.advance.1.world.nextId } :=
    frame
  have clock :
      before.advance.1.world.clock = before.world.clock.advance before.timestep := by
    rw [flushed]
    rfl
  refine ⟨clock, ?_, ?_, ?_, ?_⟩
  · rw [flushed]
    rfl
  · rw [flushed]
    rfl
  · rw [clock]
    exact contents
  · rw [flushed]

theorem asserted_advance (before : Simulation) :
    before.advance.2.asserted =
      before.world.pending.toList.countP fun effect => !effect.relation.negated := by
  have counted :=
    World.asserted_applyEffects
      { before.world.snapshot.advance before.timestep with pending := #[] }
      { asserted := 0, retracted := 0 } before.world.pending.toList
  rw [Nat.zero_add] at counted
  exact counted

end Simulation

/-! ## Effects that are made to wait -/

namespace World

theorem enqueue_nil (world : World) : world.enqueue [] = world := by
  simp [enqueue]

theorem enqueue_enqueue (world : World) (first others : List Effect) :
    (world.enqueue first).enqueue others = world.enqueue (first ++ others) := by
  have appended :
      world.pending ++ first ++ others = world.pending ++ (first ++ others) := by
    apply Array.toList_inj.mp
    simp
  simp only [enqueue, appended]

end World

namespace Rule

theorem fireAll_cons_eq_ok {rule : Rule} {binding : Binding} {rest : List Binding}
    {world after : World} :
    rule.fireAll (binding :: rest) world = .ok () after ↔
      ∃ effects, rule.effects binding = .ok effects ∧
        rule.fireAll rest (world.enqueue effects) = .ok () after := by
  refine run_bind_eq_ok.trans ?_
  constructor
  · rintro ⟨_, middle, fired, restFired⟩
    rw [fire] at fired
    split at fired
    · rename_i effects grounded
      cases fired
      exact ⟨effects, grounded, restFired⟩
    · cases fired
  · rintro ⟨effects, grounded, restFired⟩
    refine ⟨(), world.enqueue effects, ?_, restFired⟩
    rw [fire, grounded]

/-- Firing for some bindings lets the effects of all of them wait, in this order. -/
theorem fireAll_eq_ok {rule : Rule} {bindings : List Binding} {world after : World} :
    rule.fireAll bindings world = .ok () after ↔
      ∃ lists : List (List Effect), bindings.map rule.effects = lists.map .ok ∧
        after = world.enqueue lists.flatten := by
  induction bindings generalizing world with
  | nil =>
      constructor
      · intro fired
        cases fired
        exact ⟨[], rfl, (World.enqueue_nil _).symm⟩
      · rintro ⟨lists, none, rfl⟩
        rw [List.map_nil, eq_comm, List.map_eq_nil_iff] at none
        rw [none, List.flatten_nil, World.enqueue_nil]
        rfl
  | cons binding rest ih =>
      rw [fireAll_cons_eq_ok]
      constructor
      · rintro ⟨effects, grounded, restFired⟩
        rcases ih.mp restFired with ⟨lists, equal, rfl⟩
        refine ⟨effects :: lists, ?_, ?_⟩
        · rw [List.map_cons, List.map_cons, grounded, equal]
        · rw [World.enqueue_enqueue, List.flatten_cons]
      · rintro ⟨lists, equal, rfl⟩
        cases lists with
        | nil => cases equal
        | cons effects lists =>
            rw [List.map_cons, List.map_cons, List.cons.injEq] at equal
            refine ⟨effects, equal.1, ih.mpr ⟨lists, equal.2, ?_⟩⟩
            rw [World.enqueue_enqueue, List.flatten_cons]

/-- A test finds bindings first, and only then lets effects wait. -/
theorem test_eq_ok {rule : Rule} {settings : Settings} {before after : Stage}
    {count : Nat} :
    rule.test settings before = .ok count after ↔
      ∃ (bindings : List Binding) (lists : List (List Effect)),
        rule.firedBindings settings before.world before.source =
          .ok bindings after.source ∧
        bindings.map rule.effects = lists.map .ok ∧
        after.world = before.world.enqueue lists.flatten ∧
        count = bindings.length := by
  rw [test]
  constructor
  · intro tested
    split at tested
    · cases tested
    · rename_i bindings source found
      split at tested
      · cases tested
      · rename_i world fired
        cases tested
        rcases fireAll_eq_ok.mp fired with ⟨lists, equal, changed⟩
        exact ⟨bindings, lists, found, equal, changed, rfl⟩
  · rintro ⟨bindings, lists, found, equal, changed, rfl⟩
    have fired := fireAll_eq_ok.mpr ⟨lists, equal, changed⟩
    simp only [found, fired]

/-- Every binding has one effect for each action. -/
theorem length_flatten_effects {rule : Rule} {bindings : List Binding}
    {lists : List (List Effect)} (met : bindings.map rule.effects = lists.map .ok) :
    lists.flatten.length = bindings.length * rule.actions.length := by
  have each : ∀ effects ∈ lists, effects.length = rule.actions.length := by
    intro effects member
    have demanded : Except.ok effects ∈ bindings.map rule.effects := by
      rw [met]
      exact List.mem_map_of_mem member
    rcases List.mem_map.mp demanded with ⟨binding, _, grounded⟩
    exact (mapM_eq_ok.mp grounded).length_eq.symm
  have sameLength : lists.length = bindings.length := by
    simpa using congrArg List.length met.symm
  rw [List.length_flatten, List.map_congr_left each, List.map_const', List.sum_replicate_nat,
    sameLength]

end Rule

/-! ## Rules tested in one world -/

/--
Rules are tested one after another in one world, with the draws of one source.
The result lists for every rule the bindings for which it fires.
-/
inductive Tested (settings : Settings) (world : World) :
    List Rule → Source → List (Rule × List Binding) → Source → Prop where
  | nil {source : Source} : Tested settings world [] source [] source
  | cons {rule : Rule} {rest : List Rule} {before middle after : Source}
      {bindings : List Binding} {others : List (Rule × List Binding)}
      (found : rule.firedBindings settings world before = .ok bindings middle)
      (tested : Tested settings world rest middle others after) :
      Tested settings world (rule :: rest) before ((rule, bindings) :: others) after

theorem Tested.of_mem {settings : Settings} {world : World} {rules : List Rule}
    {before after : Source} {fired : List (Rule × List Binding)}
    (tested : Tested settings world rules before fired after) {rule : Rule}
    {bindings : List Binding} (member : (rule, bindings) ∈ fired) :
    rule ∈ rules ∧
      ∃ earlier later, rule.firedBindings settings world earlier = .ok bindings later := by
  induction tested with
  | nil => cases member
  | cons found _ ih =>
      rcases List.mem_cons.mp member with same | later
      · cases same
        exact ⟨List.mem_cons_self, _, _, found⟩
      · exact ⟨List.mem_cons_of_mem _ (ih later).1, (ih later).2⟩

/-- What the rules that fired demand: for each rule and each of its bindings, the effects. -/
def demands (fired : List (Rule × List Binding)) : List (Except Error (List Effect)) :=
  fired.flatMap fun (rule, bindings) => bindings.map rule.effects

/-- An effect that is demanded is one of those of a fired rule for one of its bindings. -/
theorem exists_of_demands {fired : List (Rule × List Binding)} {lists : List (List Effect)}
    (met : demands fired = lists.map .ok) {effect : Effect} (member : effect ∈ lists.flatten) :
    ∃ rule bindings, (rule, bindings) ∈ fired ∧
      ∃ binding ∈ bindings, ∃ effects,
        rule.effects binding = .ok effects ∧ effect ∈ effects := by
  rcases List.mem_flatten.mp member with ⟨effects, inLists, inEffects⟩
  have demanded : Except.ok effects ∈ demands fired := by
    rw [met]
    exact List.mem_map_of_mem inLists
  rcases List.mem_flatMap.mp demanded with ⟨⟨rule, bindings⟩, inFired, demanded⟩
  rcases List.mem_map.mp demanded with ⟨binding, inBindings, grounded⟩
  exact ⟨rule, bindings, inFired, binding, inBindings, effects, grounded, inEffects⟩

theorem length_demands (fired : List (Rule × List Binding)) :
    (demands fired).length = (fired.map fun (_, bindings) => bindings.length).sum := by
  simp [demands, List.length_flatMap]

/-- Every binding demands one effect for each action. -/
theorem length_flatten_demands {fired : List (Rule × List Binding)}
    {lists : List (List Effect)} (met : demands fired = lists.map .ok) :
    lists.flatten.length =
      (fired.map fun (rule, bindings) => bindings.length * rule.actions.length).sum := by
  induction fired generalizing lists with
  | nil =>
      have none : lists = [] := by
        simpa [demands] using met.symm
      rw [none]
      rfl
  | cons entry rest ih =>
      rcases entry with ⟨rule, bindings⟩
      have split :
          demands ((rule, bindings) :: rest) =
            bindings.map rule.effects ++ demands rest := by
        rfl
      rw [split] at met
      rcases List.map_eq_append_iff.mp met.symm with ⟨own, others, rfl, ownMet, othersMet⟩
      rw [List.flatten_append, List.length_append, Rule.length_flatten_effects ownMet.symm,
        ih othersMet.symm]
      rfl

namespace Simulation

/--
Tests that succeed find what tests in a world without queued effects find, and
queue what this demands.  The induction is on the rules; effects that are
queued already do not change what later rules find.
-/
theorem tested_of_foldlM {settings : Settings} {rules : List Rule} {world : World}
    {queued : List Effect} {source : Source} {count firings : Nat} {stage : Stage}
    (ended :
      (rules.foldlM (fun firings rule => do return firings + (← rule.test settings)) count :
          EStateM Error Stage Nat) { world := world.enqueue queued, source } =
        .ok firings stage) :
    ∃ (fired : List (Rule × List Binding)) (lists : List (List Effect)),
      Tested settings world rules source fired stage.source ∧
      demands fired = lists.map .ok ∧
      stage.world = world.enqueue (queued ++ lists.flatten) ∧
      firings = count + lists.length := by
  induction rules generalizing queued count source with
  | nil =>
      cases ended
      exact ⟨[], [], .nil, rfl, by simp, rfl⟩
  | cons rule rest ih =>
      rw [List.foldlM_cons] at ended
      rcases run_bind_eq_ok.mp ended with ⟨_, middle, counted, ended⟩
      rcases run_bind_eq_ok.mp counted with ⟨number, _, tested, counted⟩
      cases counted
      rcases Rule.test_eq_ok.mp tested with ⟨bindings, lists, found, met, changed, rfl⟩
      have unaffected :
          rule.firedBindings settings (world.enqueue queued) =
            rule.firedBindings settings world :=
        Rule.firedBindings_congr settings (World.alike_of_pending _ world _)
      rw [unaffected] at found
      rw [World.enqueue_enqueue] at changed
      rcases middle with ⟨middleWorld, middleSource⟩
      cases changed
      rcases ih ended with
        ⟨others, otherLists, othersTested, othersMet, othersChanged, total⟩
      refine ⟨(rule, bindings) :: others, lists ++ otherLists,
        .cons found othersTested, ?_, ?_, ?_⟩
      · rw [List.map_append, ← met, ← othersMet]
        rfl
      · rw [othersChanged, List.flatten_append, List.append_assoc]
      · have sameLength : bindings.length = lists.length := by
          simpa using congrArg List.length met
        rw [total, sameLength, List.length_append, Nat.add_assoc]

theorem testRules_eq_ok {settings : Settings} {rules : List Rule} {world : World}
    {source : Source} {firings : Nat} {stage : Stage}
    (tested : testRules settings rules { world, source } = .ok firings stage) :
    ∃ (fired : List (Rule × List Binding)) (lists : List (List Effect)),
      Tested settings world rules source fired stage.source ∧
      demands fired = lists.map .ok ∧
      stage.world = world.enqueue lists.flatten ∧
      firings = lists.length := by
  have started :
      testRules settings rules { world := world.enqueue [], source } =
        .ok firings stage := by
    rw [World.enqueue_nil]
    exact tested
  rcases tested_of_foldlM started with ⟨fired, lists, allTested, met, changed, total⟩
  exact ⟨fired, lists, allTested, met, changed, by rw [total, Nat.zero_add]⟩

/-! ## Calls that succeed -/

theorem terminate_eq_ok {before after : Simulation} {summary : Summary} :
    terminate before = .ok summary after ↔
      summary = before.advance.2 ∧ after = before.advance.1 := by
  constructor
  · intro ended
    cases ended
    exact ⟨rfl, rfl⟩
  · rintro ⟨rfl, rfl⟩
    rfl

/-- A tick succeeds if the tests of its rules do, in the world that the flush leaves. -/
theorem tick_eq_ok {before after : Simulation} {report : Tick} :
    tick before = .ok report after ↔
      ∃ firings stage,
        testRules before.settings before.rules
            { world := before.advance.1.world, source := before.source } =
          .ok firings stage ∧
        report =
          { time := stage.world.clock.time, update := before.advance.2, firings } ∧
        after = before.advance.1.withStage stage := by
  constructor
  · intro ticked
    unfold tick at ticked
    split at ticked
    rename_i flushed update advanced
    dsimp only at ticked
    split at ticked
    · cases ticked
    · rename_i firings stage tested
      cases ticked
      have world : before.advance.1 = flushed := congrArg Prod.fst advanced
      have summary : before.advance.2 = update := congrArg Prod.snd advanced
      rw [world, summary]
      refine ⟨firings, stage, ?_, rfl, rfl⟩
      rw [← world] at tested
      rw [← world]
      exact tested
  · rintro ⟨firings, stage, tested, rfl, rfl⟩
    unfold tick
    split
    rename_i flushed update advanced
    have world : before.advance.1 = flushed := congrArg Prod.fst advanced
    have summary : before.advance.2 = update := congrArg Prod.snd advanced
    have testedThere :
        testRules flushed.settings flushed.rules
            { world := flushed.world, source := flushed.source } =
          .ok firings stage := by
      rw [← world]
      exact tested
    simp only [testedThere, world, summary]

end Simulation

end Fabula
