import Fabula.Proofs.Tick
import Fabula.Proofs.Verdict
import Mathlib.Data.List.Perm.Basic

/-!
# The order of rules

The rules of a tick are tested one after another, each in the world and with the
source that the tests before it leave.  Effects that wait are out of sight of a
test, so that two rules get in each other's way only through the draws.  If no
test takes one, every rule does what it would do as the first, and rules in
another order let the same effects wait in another order.
-/

namespace Fabula

open Outcome

/-! ## Tests without draws -/

/-- How often a rule fired in a test, and the effects that the test let wait. -/
structure Testing where
  firings : Nat
  effects : List Effect

/-- Whatever effects wait already, a test succeeds without a draw, and adds its own behind them. -/
def Rule.TestsQuietly (settings : Settings) (world : World) (source : Source) (rule : Rule)
    (testing : Testing) : Prop :=
  ∀ queued : List Effect,
    rule.test settings { world := world.enqueue queued, source } =
      .ok testing.firings { world := world.enqueue (queued ++ testing.effects), source }

namespace Rule

variable {rule : Rule} {settings : Settings} {world : World}

/-- A search for bindings takes draws from the source, and keeps its stream. -/
theorem stream_of_firedBindings {before after : Source} {fired : List Binding}
    (found : rule.firedBindings settings world before = .ok fired after) :
    after.stream = before.stream := by
  cases assigned : rule.assignments world with
  | error cause =>
      rw [firedBindings_of_unassigned assigned] at found
      cases found
  | ok all =>
      rcases firedBindings_examines rule settings assigned before with
        ⟨examined, left, last, failure, examines, ended⟩
      rw [ended] at found
      cases failure with
      | some cause => cases found
      | none =>
          cases found
          rw [examines.threaded.source]

/-- A test that takes no draw does the same behind any effects that wait. -/
theorem testsQuietly_of_test {source : Source} {firings : Nat} {after : Stage}
    (tested : rule.test settings { world, source } = .ok firings after)
    (undrawn : after.source.taken = source.taken) :
    ∃ effects, rule.TestsQuietly settings world source ⟨firings, effects⟩ := by
  rcases test_eq_ok.mp tested with ⟨bindings, lists, found, met, _, counted⟩
  have untouched : after.source = source :=
    congrArg₂ Source.mk (stream_of_firedBindings found) undrawn
  rw [untouched] at found
  refine ⟨lists.flatten, fun queued => ?_⟩
  have unaffected :
      rule.firedBindings settings (world.enqueue queued) = rule.firedBindings settings world :=
    firedBindings_congr settings (World.alike_of_pending _ world _)
  refine test_eq_ok.mpr ⟨bindings, lists, ?_, met, ?_, counted⟩
  · rw [unaffected]
    exact found
  · rw [World.enqueue_enqueue]

end Rule

/-! ## Several rules -/

/-- How often rules fired in all. -/
def totalFirings (testings : List Testing) : Nat :=
  (testings.map (·.firings)).sum

/-- The effects of rules that were tested one after another. -/
def allEffects (testings : List Testing) : List Effect :=
  testings.flatMap (·.effects)

namespace Simulation

variable {rules others : List Rule} {settings : Settings} {world : World} {source : Source}

/-- The induction is on the rules, with the firings and the effects of those before them. -/
theorem foldlM_of_testsQuietly {testings : List Testing}
    (quiet : List.Forall₂ (Rule.TestsQuietly settings world source) rules testings)
    (count : Nat) (queued : List Effect) :
    (rules.foldlM (fun firings rule => do return firings + (← rule.test settings)) count :
        EStateM Error Stage Nat) { world := world.enqueue queued, source } =
      .ok (count + totalFirings testings)
        { world := world.enqueue (queued ++ allEffects testings), source } := by
  induction quiet generalizing count queued with
  | nil =>
      rw [List.foldlM_nil, allEffects, List.flatMap_nil, List.append_nil]
      rfl
  | @cons rule testing rest testings tested _ ih =>
      have total :
          count + totalFirings (testing :: testings) =
            count + testing.firings + totalFirings testings := by
        simp [totalFirings, Nat.add_assoc]
      have effects :
          queued ++ allEffects (testing :: testings) =
            queued ++ testing.effects ++ allEffects testings := by
        simp [allEffects]
      rw [List.foldlM_cons, total, effects]
      refine run_bind_eq_ok.mpr ⟨_, _, ?_, ih _ _⟩
      exact run_bind_eq_ok.mpr ⟨_, _, tested queued, rfl⟩

/-- Rules whose tests take no draw add up: each does what it would do as the first. -/
theorem testRules_of_testsQuietly {testings : List Testing}
    (quiet : List.Forall₂ (Rule.TestsQuietly settings world source) rules testings) :
    testRules settings rules { world, source } =
      .ok (totalFirings testings) { world := world.enqueue (allEffects testings), source } := by
  have added := foldlM_of_testsQuietly quiet 0 []
  rw [World.enqueue_nil, Nat.zero_add, List.nil_append] at added
  exact added

/-- A tick tests its rules in the world that the flush leaves. -/
theorem tick_of_testRules (simulation : Simulation) {firings : Nat} {effects : List Effect}
    (tested :
      testRules simulation.settings simulation.rules
          { world := simulation.advance.1.world, source := simulation.source } =
        .ok firings
          { world := simulation.advance.1.world.enqueue effects, source := simulation.source }) :
    tick simulation =
      .ok
        { time := simulation.advance.1.world.clock.time
          update := simulation.advance.2
          firings }
        { simulation with world := simulation.advance.1.world.enqueue effects } :=
  tick_eq_ok.mpr ⟨firings, _, tested, rfl, rfl⟩

/--
Rules whose tests succeed without a draw, and the same rules in another order.
Both times they fire equally often, and nothing changes but the queue: behind
the effects that wait already come those of each rule by itself, in the order of
the rules, hence the same effects both times in another order.  So two ticks that
test these rules in this world report the same.
-/
theorem rule_order_only_orders_queue (shuffled : rules.Perm others)
    (quiet : ∀ rule ∈ rules, ∃ firings after,
      rule.test settings { world, source } = .ok firings after ∧
        after.source.taken = source.taken) :
    ∃ (firings : Nat) (queued otherwise : List Effect),
      testRules settings rules { world, source } =
          .ok firings
            { world := { world with pending := world.pending ++ queued }, source } ∧
        testRules settings others { world, source } =
          .ok firings
            { world := { world with pending := world.pending ++ otherwise }, source } ∧
        queued.Perm otherwise ∧
        (∃ testings,
          List.Forall₂ (Rule.TestsQuietly settings world source) rules testings ∧
            firings = totalFirings testings ∧ queued = allEffects testings) ∧
        ∀ simulation : Simulation,
          simulation.settings = settings → simulation.source = source →
          simulation.advance.1.world = world →
          ∃ report, report.firings = firings ∧
            tick { simulation with rules } =
              .ok report
                { simulation with
                  rules
                  world := { world with pending := world.pending ++ queued } } ∧
            tick { simulation with rules := others } =
              .ok report
                { simulation with
                  rules := others
                  world := { world with pending := world.pending ++ otherwise } } := by
  obtain ⟨testings, each⟩ : ∃ testings,
      List.Forall₂ (Rule.TestsQuietly settings world source) rules testings := by
    apply exists_forall₂
    intro rule member
    rcases quiet rule member with ⟨firings, after, tested, undrawn⟩
    rcases Rule.testsQuietly_of_test tested undrawn with ⟨effects, quietly⟩
    exact ⟨_, quietly⟩
  obtain ⟨otherTestings, otherEach, sameTestings⟩ := List.perm_comp_forall₂ shuffled.symm each
  have sameTotal : totalFirings otherTestings = totalFirings testings :=
    (sameTestings.map _).sum_nat
  have tested := testRules_of_testsQuietly each
  have otherTested := testRules_of_testsQuietly otherEach
  rw [sameTotal] at otherTested
  refine ⟨totalFirings testings, allEffects testings, allEffects otherTestings, tested,
    otherTested, (sameTestings.flatMap_right _).symm, ⟨testings, each, rfl, rfl⟩, ?_⟩
  rintro simulation rfl rfl rfl
  exact ⟨_, rfl, tick_of_testRules { simulation with rules } tested,
    tick_of_testRules { simulation with rules := others } otherTested⟩

/-- George hates and is feared for it, and whom he does not hate yet he will. -/
def feudRules : String :=
  "$RULE X.PEOPLE FEARS GEORGE; 10,-10: (GEORGE HATES X)
   $RULE GEORGE SHOUTS; 10,-10: [T > 1600]
   $RULE GEORGE HATES Y.PEOPLE; -10,10: (GEORGE HATES Y)"

/-- A world in which George hates one of two people, while an effect waits. -/
def feud : World :=
  { clock := { time := 1700, elapsed := 0 }
    network := Network.empty.insert ⟨0, ⟨"GEORGE", "HATES", some "MARTHA"⟩, 1700, 0⟩
    classes := NameTable.extend ∅ "PEOPLE" ["MARTHA", "NICK"]
    pending := #[⟨"GEORGE", .plain "COUGHS", none⟩]
    nextId := 1
    chronicle := ∅ }

/-- The three rules fire once each, in the order in which they are written and backwards. -/
theorem rule_order_only_orders_queue_in_feud :
    ∃ rules,
      Script.readRules feudRules = .ok rules ∧
        rules.Perm rules.reverse ∧
        (∀ rule ∈ rules, ∃ firings after,
          rule.test Rule.courteous { world := feud, source := .ofSeed 7 } = .ok firings after ∧
            after.source.taken = 0) ∧
        ∃ queued otherwise : List Effect,
          testRules Rule.courteous rules { world := feud, source := .ofSeed 7 } =
              .ok 3
                { world := { feud with pending := feud.pending ++ queued }
                  source := .ofSeed 7 } ∧
            testRules Rule.courteous rules.reverse { world := feud, source := .ofSeed 7 } =
              .ok 3
                { world := { feud with pending := feud.pending ++ otherwise }
                  source := .ofSeed 7 } ∧
            queued.Perm otherwise := by
  have tested :
      (Script.readRules feudRules).map (fun rules =>
        decide (
          (∀ rule ∈ rules,
            let result := rule.test Rule.courteous { world := feud, source := .ofSeed 7 }
            succeeded result = true ∧ (endState result).source.taken = 0) ∧
          (testRules Rule.courteous rules).run' { world := feud, source := .ofSeed 7 } =
            some 3)) =
      .ok true := by
    decide +kernel
  rcases map_eq_ok.mp tested with ⟨rules, read, result⟩
  rcases of_decide_eq_true result with ⟨each, three⟩
  have quiet : ∀ rule ∈ rules, ∃ firings after,
      rule.test Rule.courteous { world := feud, source := .ofSeed 7 } = .ok firings after ∧
        after.source.taken = 0 := by
    intro rule member
    rcases each rule member with ⟨ended, undrawn⟩
    rcases exists_of_succeeded ended with ⟨firings, after, tested⟩
    rw [tested] at undrawn
    exact ⟨firings, after, tested, undrawn⟩
  rcases rule_order_only_orders_queue rules.reverse_perm.symm quiet with
    ⟨firings, queued, otherwise, written, backwards, permuted, _⟩
  rw [run'_eq_toOption (show _ = ending (.ok firings) _ from written)] at three
  cases three
  exact ⟨rules, read, rules.reverse_perm.symm, quiet, queued, otherwise, written, backwards,
    permuted⟩

end Simulation

end Fabula
