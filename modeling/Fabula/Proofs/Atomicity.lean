import Fabula.Proofs.Assignment
import Fabula.Proofs.Tick

/-!
# Tests are all or nothing

A test may fail late, after other bindings have fired: at a variable without a
noun in the condition of any subrule, or at a class that is not defined.  Yet
no effect waits then, since a test looks for all its bindings before it lets
the effects of the first of them wait.

After that nothing can fail.  Whatever the rule is like, the slots were taken
from its actions, and a binding that gives nouns to all of them can ground
every action.  So the effects wait either for all bindings that fired or for
none.
-/

namespace Fabula.Rule

open Outcome

/-- Effects are those of the actions of a rule under a binding, one each and in their order. -/
def Performs (rule : Rule) (binding : Binding) (effects : List Effect) : Prop :=
  List.Forall₂ (fun action effect => binding.ground action.statement = .ok effect)
    rule.actions effects

variable {rule : Rule}

theorem effects_eq_ok {binding : Binding} {effects : List Effect} :
    rule.effects binding = .ok effects ↔ rule.Performs binding effects :=
  mapM_eq_ok

theorem map_effects_eq_ok {bindings : List Binding} {lists : List (List Effect)} :
    bindings.map rule.effects = lists.map .ok ↔ List.Forall₂ rule.Performs bindings lists := by
  rw [← List.forall₂_eq_eq_eq, List.forall₂_map_left_iff, List.forall₂_map_right_iff]
  simp only [effects_eq_ok]

/-! ## Firing -/

/-- Under any binding, the effects of all actions wait afterwards, or nothing has changed. -/
theorem fire_performs_or_fails (rule : Rule) (binding : Binding) (world : World) :
    (∃ effects, rule.Performs binding effects ∧
      rule.fire binding world = .ok () (world.enqueue effects)) ∨
    ∃ cause, rule.fire binding world = .error cause world := by
  cases grounded : rule.effects binding with
  | ok effects => exact .inl ⟨effects, effects_eq_ok.mp grounded, by rw [fire, grounded]⟩
  | error cause => exact .inr ⟨cause, by rw [fire, grounded]⟩

theorem fireAll_of_covers {bindings : List Binding}
    (covered : ∀ binding ∈ bindings, binding.Covers rule.mentioned) (world : World) :
    ∃ lists : List (List Effect), bindings.map rule.effects = lists.map .ok ∧
      rule.fireAll bindings world = .ok () (world.enqueue lists.flatten) := by
  obtain ⟨lists, grounded⟩ : ∃ lists, bindings.mapM rule.effects = .ok lists :=
    mapM_succeeds fun binding member => effects_succeed (covered binding member)
  have performed : List.Forall₂ rule.Performs bindings lists :=
    (mapM_eq_ok.mp grounded).imp fun _ _ => effects_eq_ok.mp
  have met := map_effects_eq_ok.mpr performed
  exact ⟨lists, met, fireAll_eq_ok.mpr ⟨lists, met, rfl⟩⟩

/-! ## Tests -/

variable {settings : Settings}

/-- Every binding for which a rule fires gives nouns to all variables of its actions. -/
theorem covers_of_firedBindings {world : World} {before after : Source} {fired : List Binding}
    (found : rule.firedBindings settings world before = .ok fired after) :
    ∀ binding ∈ fired, binding.Covers rule.mentioned := by
  rcases firedBindings_chooses found with ⟨all, chosen, assigned, inAll, rfl⟩
  intro binding member
  rcases List.mem_map.mp member with ⟨nouns, isChosen, rfl⟩
  have ranges := (mem_assignments_iff assigned).mp (inAll.subset isChosen)
  exact covers_slotBinding ranges.length_eq.symm

/-- A test that has found its bindings succeeds. -/
theorem test_of_firedBindings {before : Stage} {fired : List Binding} {source : Source}
    (found : rule.firedBindings settings before.world before.source = .ok fired source) :
    ∃ after, rule.test settings before = .ok fired.length after := by
  rcases fireAll_of_covers (covers_of_firedBindings found) before.world with ⟨lists, met, _⟩
  exact ⟨{ world := before.world.enqueue lists.flatten, source },
    test_eq_ok.mpr ⟨fired, lists, found, met, rfl, rfl⟩⟩

/-- A test fails in the search for bindings or not at all, and leaves the world as it was. -/
theorem test_eq_error {before after : Stage} {cause : Error} :
    rule.test settings before = .error cause after ↔
      rule.firedBindings settings before.world before.source = .error cause after.source ∧
        after.world = before.world := by
  constructor
  · intro failed
    cases found : rule.firedBindings settings before.world before.source with
    | ok fired source =>
        rcases test_of_firedBindings found with ⟨last, succeeds⟩
        rw [succeeds] at failed
        cases failed
    | error other source =>
        simp only [test, found] at failed
        cases failed
        exact ⟨rfl, rfl⟩
  · rcases after with ⟨world, source⟩
    rintro ⟨failed, rfl⟩
    simp only [test, failed]

/--
A test is all or nothing, whatever the rule.  If it fails, which it does only in
the search for bindings, the world is as before.  If it succeeds, nothing but
the queue has changed, and this has grown by the effects of the bindings that
fired: for each of them in turn, one effect for each action.  A rule that fires
for a single binding adds its effects or leaves the world alone, too.
-/
theorem test_is_all_or_nothing (rule : Rule) (settings : Settings) :
    (∀ before cause after,
      rule.test settings before = .error cause after ↔
        rule.firedBindings settings before.world before.source = .error cause after.source ∧
          after.world = before.world) ∧
    (∀ before count after, rule.test settings before = .ok count after →
      ∃ (fired : List Binding) (lists : List (List Effect)),
        rule.firedBindings settings before.world before.source = .ok fired after.source ∧
        count = fired.length ∧
        List.Forall₂ rule.Performs fired lists ∧
        after.world =
          { before.world with pending := before.world.pending ++ lists.flatten } ∧
        after.world.pending.size =
          before.world.pending.size + count * rule.actions.length) ∧
    ∀ binding world,
      (∃ effects, rule.Performs binding effects ∧
        rule.fire binding world =
          .ok () { world with pending := world.pending ++ effects }) ∨
      ∃ cause, rule.fire binding world = .error cause world := by
  refine ⟨fun _ _ _ => test_eq_error, ?_, rule.fire_performs_or_fails⟩
  intro before count after tested
  rcases test_eq_ok.mp tested with ⟨fired, lists, found, met, changed, rfl⟩
  refine ⟨fired, lists, found, rfl, map_effects_eq_ok.mp met, changed, ?_⟩
  rw [changed, ← Array.length_toList, ← Array.length_toList]
  simp [World.enqueue, length_flatten_effects met]

/-- Someone of whom the rule below knows no more than a number. -/
def stranger : Term :=
  .var ⟨7, none, "GHOSTS", none⟩

/--
Everyone applauds and bows to the stage.  The condition is true of whoever
sings; of others it asks the stranger, who has no noun.
-/
def choirRule : Rule :=
  { actions :=
      [⟨.var ⟨0, some "X", "PEOPLE", none⟩, .plain "APPLAUDS", none⟩,
        ⟨.var ⟨0, some "X", "PEOPLE", none⟩, .plain "BOWS-TO", some (.noun "STAGE")⟩].map (⟨·, ""⟩)
    subrules :=
      [{ whenTrue := 10.0
         whenFalse := 0.0
         condition :=
          .any
            [.sentence ⟨.var ⟨0, some "X", "PEOPLE", none⟩, .plain "SINGS", none⟩,
              .sentence ⟨stranger, .plain "SINGS", none⟩]
         locals := []
         text := "" }]
    parameters := [⟨0, some "X", "PEOPLE", none⟩]
    text := "" }

/-- A choir in which some people sing, while an effect waits. -/
def choir (singers : List String) : Stage :=
  { world :=
      singers.foldl (fun world name => world.assertFact ⟨name, "SINGS", none⟩)
        { clock := { time := 1700, elapsed := 0 }
          network := .empty
          classes := NameTable.extend ∅ "PEOPLE" ["GEORGE", "MARTHA"]
          pending := #[⟨"NICK", .plain "COUGHS", none⟩]
          nextId := 0
          chronicle := ∅ }
    source := .ofSeed 7 }

/-- If both sing the rule fires twice; if only George sings the test fails after he has fired. -/
theorem test_is_all_or_nothing_in_choir :
    (∃ (after : Stage) (lists : List (List Effect)),
      choirRule.test Configuration.default.settings (choir ["GEORGE", "MARTHA"]) =
          .ok 2 after ∧
        after.world.pending = (choir ["GEORGE", "MARTHA"]).world.pending ++ lists.flatten ∧
        after.world.pending.size = 5) ∧
    ∃ after,
      choirRule.test Configuration.default.settings (choir ["GEORGE"]) =
          .error (.unbound ⟨7, none, "GHOSTS", none⟩) after ∧
        after.world = (choir ["GEORGE"]).world := by
  have law := test_is_all_or_nothing choirRule Configuration.default.settings
  constructor
  · obtain ⟨count, after, tested⟩ :
        ∃ count after,
          choirRule.test Configuration.default.settings (choir ["GEORGE", "MARTHA"]) =
            .ok count after :=
      exists_of_succeeded (by decide +kernel)
    have twice :
        (choirRule.test Configuration.default.settings).run' (choir ["GEORGE", "MARTHA"]) =
          some 2 := by
      decide +kernel
    rw [run'_eq_toOption (show _ = ending (.ok count) after from tested)] at twice
    cases twice
    rcases law.2.1 _ _ _ tested with ⟨fired, lists, _, _, _, changed, grown⟩
    exact ⟨after, lists, tested, congrArg World.pending changed, grown⟩
  · have failed :
        failure? (choirRule.test Configuration.default.settings (choir ["GEORGE"])) =
          some (.unbound ⟨7, none, "GHOSTS", none⟩) := by
      decide +kernel
    have stopped := eq_error_of_failure? failed
    exact ⟨_, stopped, ((law.1 _ _ _).mp stopped).2⟩

end Fabula.Rule
