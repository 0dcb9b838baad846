import Fabula.Proofs.Assignment
import Fabula.Proofs.Consistency
import Fabula.Proofs.Delivery
import Fabula.Proofs.History
import Fabula.Proofs.Safety
import Fabula.Proofs.WellFormed

/-!
# Where facts come from

A fact of a simulation is one with which its world began, or an action of some
rule states it, with nouns of their classes in the places of its variables.  The
numbers of facts tell which, and so do their stamps as long as the minutes that
pass fit 32 bits: time passes before the first effect is applied, so that only
the first facts are initial.
-/

namespace Fabula

open Outcome

/-! ## Instances of actions -/

/-- An effect is an action in which each variable is replaced by a noun of its class. -/
def Action.Instance (action : Action) (world : World) (effect : Effect) : Prop :=
  ∃ choice : Nat → String,
    (∀ term ∈ action.statement.parts, term.Ranges world (term.choose choice)) ∧
      effect = action.statement.choose choice

/-- An effect is an instance of an action of some rule. -/
def Produced (rules : List Rule) (world : World) (effect : Effect) : Prop :=
  ∃ rule ∈ rules, ∃ action ∈ rule.actions, action.Instance world effect

/-- Terms have the same nouns in worlds that have the same classes. -/
theorem Term.ranges_congr {world other : World} (same : world.classes = other.classes)
    {term : Term} {noun : String} : term.Ranges world noun ↔ term.Ranges other noun := by
  cases term with
  | noun name => exact Iff.rfl
  | var v => simp only [Ranges, World.members, same]

theorem Action.Instance.congr {action : Action} {world other : World} {effect : Effect}
    (isInstance : action.Instance world effect) (same : world.classes = other.classes) :
    action.Instance other effect := by
  rcases isInstance with ⟨choice, ranges, rfl⟩
  exact ⟨choice, fun term member => (Term.ranges_congr same).mp (ranges term member), rfl⟩

/-! ## Effects of fired bindings -/

namespace Binding

theorem choose_of_resolve {binding : Binding} {term : Term} {noun : String}
    (resolved : binding.resolve term = .ok noun) :
    term.choose (fun id => binding.getD id "") = noun := by
  cases term with
  | noun name =>
      cases resolved
      rfl
  | var v =>
      rw [resolve] at resolved
      split at resolved
      · rename_i found
        cases resolved
        simp [Term.choose, Std.TreeMap.getD_eq_getD_getElem?, found]
      · cases resolved

/-- A statement that is grounded has nouns in the places of its variables, one for each term. -/
theorem choose_of_ground {binding : Binding} {statement : Statement Term} {effect : Effect}
    (grounded : binding.ground statement = .ok effect) :
    effect = statement.choose (fun id => binding.getD id "") ∧
      ∀ term ∈ statement.parts, ∃ noun, binding.resolve term = .ok noun := by
  rcases statement with ⟨subject, relation, object⟩
  rcases effect with ⟨given, _, givenObject⟩
  rcases ground_eq_ok.mp grounded with ⟨subjectResolved, objectResolved, same⟩
  dsimp only at subjectResolved objectResolved same
  subst same
  cases objectResolved with
  | none =>
      refine ⟨?_, ?_⟩
      · rw [Statement.choose, choose_of_resolve subjectResolved]
        rfl
      · intro term member
        cases List.mem_singleton.mp member
        exact ⟨given, subjectResolved⟩
  | @some term noun resolved =>
      refine ⟨?_, ?_⟩
      · rw [Statement.choose, choose_of_resolve subjectResolved, Option.map_some,
          choose_of_resolve resolved]
      · intro other member
        rcases List.mem_pair.mp member with rfl | rfl
        · exact ⟨given, subjectResolved⟩
        · exact ⟨noun, resolved⟩

end Binding

namespace Rule

variable {rule : Rule} {world : World}

/--
Under a binding of the slots, a term of an action stands for a noun of its class.
A variable of a slot occurs in some action as well, so that the two variables are
the same parameter.
-/
theorem ranges_of_resolve
    (declared : ∀ action ∈ rule.actions, ∀ v, Term.var v ∈ action.statement.parts →
      v.DeclaredIn rule.parameters)
    {nouns : List String} (ranges : List.Forall₂ (Term.Ranges world) rule.slots nouns)
    {action : Action} (inRule : action ∈ rule.actions) {term : Term}
    (member : term ∈ action.statement.parts) {noun : String}
    (resolved : (slotBinding rule.slots nouns).resolve term = .ok noun) :
    term.Ranges world noun := by
  cases term with
  | noun name =>
      cases resolved
      rfl
  | var v =>
      rw [Binding.resolve] at resolved
      split at resolved
      · rename_i given found
        cases resolved
        rcases slot_of_getElem?_slotBinding found with ⟨w, inZip, same⟩
        have range := (List.forall₂_iff_zip.mp ranges).2 inZip
        have occurs := mem_of_mem_eraseDupsBy (List.of_mem_zip inZip).1
        rcases List.mem_flatMap.mp occurs with ⟨other, otherInRule, inParts⟩
        rcases declared other otherInRule w inParts with ⟨parameter, place, _, className⟩
        rcases declared action inRule v member with ⟨other, otherPlace, _, otherClassName⟩
        rw [same, otherPlace] at place
        cases place
        rw [otherClassName] at className
        rw [Term.Ranges, ← className] at range
        exact range
      · cases resolved

/-- What a rule demands for a binding for which it fires is produced by its actions. -/
theorem instance_of_effects
    (declared : ∀ action ∈ rule.actions, ∀ v, Term.var v ∈ action.statement.parts →
      v.DeclaredIn rule.parameters)
    {settings : Settings} {before after : Source} {fired : List Binding}
    (found : rule.firedBindings settings world before = .ok fired after)
    {binding : Binding} (fires : binding ∈ fired) {effects : List Effect}
    (grounded : rule.effects binding = .ok effects) {effect : Effect} (member : effect ∈ effects) :
    ∃ action ∈ rule.actions, action.Instance world effect := by
  rcases firedBindings_chooses found with ⟨all, chosen, assigned, inAll, rfl⟩
  rcases List.mem_map.mp fires with ⟨nouns, isChosen, rfl⟩
  have ranges := (mem_assignments_iff assigned).mp (inAll.subset isChosen)
  rcases exists_of_mem_mapM grounded member with ⟨action, inRule, grounded⟩
  rcases Binding.choose_of_ground grounded with ⟨equal, resolves⟩
  refine ⟨action, inRule, _, ?_, equal⟩
  intro term inParts
  rcases resolves term inParts with ⟨noun, resolved⟩
  rw [Binding.choose_of_resolve resolved]
  exact ranges_of_resolve declared ranges inRule inParts resolved

end Rule

namespace Simulation

/-! ## Provenance -/

/--
Every fact of a simulation is one of the world in which it began, or has a later
number and has been asserted by an effect that the rules produce; and they
produce the effects that wait.
-/
structure Provenance (rules : List Rule) (origin : World) (simulation : Simulation) : Prop where
  sameRules : simulation.rules = rules
  classes : simulation.world.classes = origin.classes
  counter : origin.nextId ≤ simulation.world.nextId
  facts :
    ∀ key fact, simulation.world.get? key = some fact →
      origin.get? key = some fact ∨
        origin.nextId ≤ fact.id ∧
          ∃ effect, Produced rules origin effect ∧ effect.relation.negated = false ∧
            fact.key = effect.key
  waiting : ∀ effect ∈ simulation.queue, Produced rules origin effect

section Steps

variable {rules : List Rule} {origin : World} {before : Simulation}

/-- A flush asserts what has waited, under new numbers. -/
theorem Provenance.flush (provenance : Provenance rules origin before) {flushed : World}
    (flush : Flush before flushed) {pending : Array Effect} {source : Source}
    (waiting : ∀ effect ∈ pending.toList, Produced rules origin effect) :
    Provenance rules origin { before with world := { flushed with pending }, source } where
  sameRules := provenance.sameRules
  classes := flush.classes.trans provenance.classes
  counter := by
    apply provenance.counter.trans
    show before.world.contents.nextId ≤ flushed.contents.nextId
    rw [flush.contents]
    exact Contents.nextId_le_foldl_revise _ _ _
  facts := by
    intro key fact found
    rcases flush.origin found with old | ⟨above, _, effect, waited, positive, sameKey⟩
    · exact provenance.facts key fact old
    · exact .inr ⟨provenance.counter.trans above, effect, provenance.waiting effect waited,
        positive, sameKey⟩
  waiting := waiting

theorem terminate_provenance :
    (Success.preserving (Provenance rules origin)).Yields terminate fun _ => True := by
  intro before provenance summary after ended
  refine ⟨?_, trivial⟩
  rcases terminate_eq_ok.mp ended with ⟨_, rfl⟩
  have flush := advance_flushes before
  have settled : ∀ effect ∈ before.advance.1.world.pending.toList,
      Produced rules origin effect := by
    rw [flush.pending]
    simp
  have flushed :
      Provenance rules origin
        { before with
          world :=
            { before.advance.1.world with pending := before.advance.1.world.pending }
          source := before.source } :=
    provenance.flush flush settled
  exact flushed

variable
  (declared : ∀ rule ∈ rules, ∀ action ∈ rule.actions, ∀ v,
    Term.var v ∈ action.statement.parts → v.DeclaredIn rule.parameters)

include declared

theorem tick_provenance :
    (Success.preserving (Provenance rules origin)).Yields tick fun _ => True := by
  intro before provenance report after ticked
  refine ⟨?_, trivial⟩
  rcases tick_law ticked with ⟨flushed, fired, law⟩
  rw [law.frame]
  apply provenance.flush law.flush
  intro effect member
  rcases law.queued with ⟨lists, met, queued⟩
  change effect ∈ after.queue at member
  rw [queued] at member
  rcases exists_of_demands met member with
    ⟨rule, bindings, inFired, binding, fires, effects, grounded, inEffects⟩
  rcases law.tested.of_mem inFired with ⟨inRules, _, _, found⟩
  rw [provenance.sameRules] at inRules
  rcases Rule.instance_of_effects (declared rule inRules) found fires grounded inEffects with
    ⟨action, inRule, isInstance⟩
  exact ⟨rule, inRules, action, inRule,
    isInstance.congr (law.flush.classes.trans provenance.classes)⟩

end Steps

/-- A simulation has provenance from its beginning. -/
theorem provenance_of_create {rules : List Rule} {world : World} {lexicon : Lexicon}
    {configuration : Configuration} {source : Source} {simulation : Simulation}
    (idle : world.pending = #[])
    (created : create rules world lexicon configuration source = .ok simulation) :
    Provenance rules world simulation := by
  rcases create_eq_ok.mp created with ⟨_, _, _, rfl⟩
  exact
    { sameRules := rfl
      classes := rfl
      counter := Nat.le_refl _
      facts := fun _ _ found => .inl found
      waiting := by
        rw [queue, idle]
        simp }

/-! ## Stamps -/

/-- A fact that some steps have asserted is later than their beginning. -/
theorem Trace.stamped {before after : Simulation} {steps : List Step} {replies : List Reply}
    {passed : List Simulation} (trace : Trace before steps replies passed after)
    (positive : 0 < before.timestep)
    (fits : before.world.clock.elapsed + steps.length * before.timestep < Text.wordBound)
    {key : Fact.Key} {fact : Fact} (found : after.world.get? key = some fact) :
    before.world.get? key = some fact ∨ before.world.clock.elapsed < fact.assertedElapsed := by
  induction trace with
  | nil => exact .inl found
  | cons performed _ ih =>
      rcases perform_flushes performed with ⟨flushed, pending, source, flush, rfl⟩
      rw [List.length_cons, Nat.succ_mul, Nat.add_comm (_ * _), ← Nat.add_assoc] at fits
      have elapsed := flush.elapsed (Nat.lt_of_le_of_lt (Nat.le_add_right _ _) fits)
      rw [← elapsed] at fits
      rcases ih positive fits found with old | later
      · rcases flush.origin old with older | ⟨_, stamped, _⟩
        · exact .inl older
        · right
          omega
      · right
        exact Nat.lt_of_le_of_lt (elapsed ▸ Nat.le_add_right _ _) later

/-- The steps of which a call consists. -/
def Call.steps : Call → List Step
  | tick => [.tick]
  | run count => List.replicate count .tick ++ [.terminate]
  | terminate => [.terminate]

theorem perform_trace {call : Call} {before after : Simulation}
    (performed : call.perform before = .ok () after) :
    ∃ replies passed, Trace before call.steps replies passed after := by
  cases call with
  | tick =>
      rcases run_bind_eq_ok.mp performed with ⟨report, _, ticked, returned⟩
      cases returned
      exact ⟨_, _, .cons (run_map_eq_ok.mpr ⟨report, ticked, rfl⟩) .nil⟩
  | run count =>
      rcases run_bind_eq_ok.mp performed with ⟨reports, _, ran, returned⟩
      cases returned
      rcases run_trace ran with ⟨summary, passed, last, trace, ended⟩
      exact ⟨_, _, trace.append (.cons (run_map_eq_ok.mpr ⟨summary, ended, rfl⟩) .nil)⟩
  | terminate =>
      rcases run_bind_eq_ok.mp performed with ⟨summary, _, ended, returned⟩
      cases returned
      exact ⟨_, _, .cons (run_map_eq_ok.mpr ⟨summary, ended, rfl⟩) .nil⟩

theorem calls_trace {calls : List Call} {before after : Simulation}
    (performed : calls.forM Call.perform before = .ok () after) :
    ∃ replies passed, Trace before (calls.flatMap Call.steps) replies passed after := by
  induction calls generalizing before with
  | nil =>
      cases performed
      exact ⟨[], [], .nil⟩
  | cons call rest ih =>
      rcases run_bind_eq_ok.mp performed with ⟨_, middle, first, others⟩
      rcases perform_trace first with ⟨replies, passed, trace⟩
      rcases ih others with ⟨otherReplies, otherPassed, otherTrace⟩
      exact ⟨_, _, trace.append otherTrace⟩

/-! ## The facts of a simulation -/

/--
Rules that could be read, in a simulation that could be set up over a world
that begins with a text, never assert anything but instances of their actions.
Whatever is asked of the simulation, the facts with which it began keep their
numbers and are initial, and the others are not, if the minutes that pass fit 32
bits.
-/
theorem facts_have_provenance {definitions opening : String} {rules : List Rule} {time : Nat}
    {world : World} {lexicon : Lexicon} {configuration : Configuration} {source : Source}
    {simulation : Simulation}
    (read : Script.readRules definitions = .ok rules)
    (opened : Project.openWorld time opening = .ok world)
    (created : create rules world lexicon configuration source = .ok simulation)
    (calls : List Call) :
    ∃ final, calls.forM Call.perform simulation = .ok () final ∧
      (∀ fact ∈ final.world.network.facts,
        (fact.id < world.nextId ∧ fact ∈ world.network.facts ∧ fact.isInitial = true) ∨
          (world.nextId ≤ fact.id ∧
            ((calls.flatMap Call.steps).length * configuration.timestep < Text.wordBound →
              fact.isInitial = false) ∧
            ∃ effect, Produced rules world effect ∧ effect.relation.negated = false ∧
              fact.key = effect.key)) ∧
      ∀ effect ∈ final.queue, Produced rules world effect := by
  have declared : ∀ rule ∈ rules, ∀ action ∈ rule.actions, ∀ v,
      Term.var v ∈ action.statement.parts → v.DeclaredIn rule.parameters := by
    intro rule inRules
    rcases exists_of_mem_mapM read inRules with ⟨definition, _, readRule⟩
    exact Script.readRule_declaredIn readRule
  have supported := create_supported (Script.readRules_closed read) created
  have succeeds : (Success.keeping Supported).Yields (calls.forM Call.perform) fun _ => True :=
    Success.forM _ fun call _ => perform_yields call
  rcases succeeds simulation supported with ⟨_, final, done, _, _⟩
  rcases World.fresh_of_openWorld opened with ⟨early, idle⟩
  have preserves :
      (Success.preserving (Provenance rules world)).Yields (calls.forM Call.perform)
        fun _ => True :=
    Success.forM _ fun call _ =>
      perform_yields_of _ (tick_provenance declared) terminate_provenance call
  have provenance :=
    (preserves simulation (provenance_of_create idle created) _ _ done).1
  refine ⟨final, done, ?_, provenance.waiting⟩
  intro fact inNetwork
  rcases Network.mem_facts.mp inNetwork with ⟨key, found⟩
  have reachable := World.reachableInTime_of_openWorld opened
  have allocated (key : Fact.Key) (old : world.get? key = some fact) : fact.id < world.nextId :=
    reachable.reachable.consistent.allocated fact (.inl ⟨key, old⟩)
  rcases provenance.facts key fact found with old | ⟨above, produced⟩
  · have past := reachable.dated.past fact (.inl ⟨key, old⟩)
    rw [early, Nat.le_zero] at past
    refine .inl ⟨allocated key old, Network.mem_facts.mpr ⟨key, old⟩, ?_⟩
    rw [Fact.isInitial, past]
    rfl
  · refine .inr ⟨above, ?_, produced⟩
    intro fits
    have positive := timestep_pos_of_create created
    rcases create_eq_ok.mp created with ⟨_, _, _, rfl⟩
    rcases calls_trace done with ⟨replies, passed, trace⟩
    rcases trace.stamped positive (by rwa [early, Nat.zero_add]) found with old | later
    · exact absurd (allocated key old) (Nat.not_lt_of_le above)
    · rw [Fact.isInitial, beq_eq_false_iff_ne]
      exact Nat.ne_of_gt (Nat.lt_of_le_of_lt (Nat.zero_le _) later)

/-- Two people, and two facts about one of them. -/
def hamlet : String :=
  "CLASS.PEOPLE\tGEORGE, MARTHA\nGEORGE\tSLEEPS, OWNS DOG"

/-- A rule that removes one of these facts and asserts others. -/
def hamletRule : String :=
  "X.PEOPLE !=SLEEPS, X LIKES Y.PEOPLE; 10,0: [T > 1600]"

theorem definitions_hamletRule :
    Script.definitions (Script.normalize ("$RULE " ++ hamletRule).toList) =
      [hamletRule.toList] := by
  cbv

theorem facts_have_provenance_in_hamlet :
    ∃ rules world simulation final,
      Script.readRules ("$RULE " ++ hamletRule) = .ok rules ∧
      Project.openWorld 1700 hamlet = .ok world ∧
      create rules world (NameTable.extend (NameTable.extend ∅ "SLEEPS" []) "LIKES" [])
          Configuration.default (.ofSeed 7) =
        .ok simulation ∧
      [Call.run 1, .tick].forM Call.perform simulation = .ok () final ∧
      (final.world.network.inKeyOrder.map fun fact => (fact.id, fact.isInitial)) =
        [(2, false), (3, false), (1, true), (4, false), (5, false)] ∧
      (∀ fact ∈ final.world.network.facts, world.nextId ≤ fact.id →
        fact.isInitial = false ∧
          ∃ effect, Produced rules world effect ∧ effect.relation.negated = false ∧
            fact.key = effect.key) ∧
      final.queue.length = 8 ∧ ∀ effect ∈ final.queue, Produced rules world effect := by
  have accepted :
      ([hamletRule.toList].mapM Script.readRule >>= fun rules =>
        Project.openWorld 1700 hamlet >>= fun world =>
        (create rules world (NameTable.extend (NameTable.extend ∅ "SLEEPS" []) "LIKES" [])
          Configuration.default (.ofSeed 7)).map fun simulation =>
        let final := endState ([Call.run 1, .tick].forM Call.perform simulation)
        (final.world.network.inKeyOrder.map fun fact => (fact.id, fact.isInitial),
          final.queue.length)) =
      .ok ([(2, false), (3, false), (1, true), (4, false), (5, false)], 8) := by
    decide +kernel
  rw [← definitions_hamletRule] at accepted
  rcases bind_eq_ok.mp accepted with ⟨rules, read, accepted⟩
  rcases bind_eq_ok.mp accepted with ⟨world, opened, accepted⟩
  rcases map_eq_ok.mp accepted with ⟨simulation, created, accepted⟩
  rcases facts_have_provenance read opened created [.run 1, .tick] with
    ⟨final, done, known, produced⟩
  dsimp only at accepted
  rw [done, Prod.mk.injEq] at accepted
  refine ⟨rules, world, simulation, final, read, opened, created, done, accepted.1, ?_,
    accepted.2, produced⟩
  intro fact inNetwork above
  rcases known fact inNetwork with ⟨below, _⟩ | ⟨_, later, asserted⟩
  · exact absurd below (Nat.not_lt_of_le above)
  · exact ⟨later (by decide), asserted⟩

end Simulation

end Fabula
