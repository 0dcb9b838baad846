import Fabula.Proofs.Tick
import Fabula.Script.Definition

/-!
# What a test does not depend on

A test asks for the facts of the relations in the subrules of its rule, and of
these facts only since when they hold.  Facts of other relations, the numbers
of facts and the readings of their stamps, the effects that wait and the
chronicle make no difference: neither to the outcome of the test, nor to the
draws that it takes, nor to the effects that it lets wait.
-/

namespace Fabula

open Outcome

/-! ## Worlds that a test cannot tell apart -/

/-- Two worlds with one clock and the same classes have the facts of some relations for as long. -/
structure World.Resembles (relations : List String) (world other : World) : Prop where
  classes : ∀ className : String, world.classes[className]? = other.classes[className]?
  clock : world.clock = other.clock
  facts : ∀ key : Fact.Key, key.relation ∈ relations →
    (world.get? key).map (·.assertedElapsed) = (other.get? key).map (·.assertedElapsed)

namespace World

variable {world other : World} {relations : List String}

theorem Resembles.qualifies (resembles : world.Resembles relations other)
    {statement : Statement String} (known : statement.relation.name ∈ relations) :
    world.qualifies statement = other.qualifies statement := by
  have since := resembles.facts statement.key known
  rw [World.qualifies, World.qualifies, resembles.clock]
  cases here : world.get? statement.key with
  | none =>
      cases there : other.get? statement.key with
      | none => rfl
      | some fact =>
          rw [here, there] at since
          cases since
  | some fact =>
      cases there : other.get? statement.key with
      | none =>
          rw [here, there] at since
          cases since
      | some otherFact =>
          rw [here, there] at since
          have stamps : fact.assertedElapsed = otherFact.assertedElapsed :=
            Option.some.inj since
          simp only [Fact.age, stamps]

theorem Resembles.alike (resembles : world.Resembles relations other) :
    world.Alike relations other where
  members className := by
    rw [World.members, World.members, resembles.classes]
  time := by
    rw [resembles.clock]
  satisfies statement known := by
    rw [World.satisfies, World.satisfies, resembles.qualifies known]

end World

/-! ## Tests -/

namespace Rule

/-- Firing lets effects wait and fails, if at all, without regard to the world. -/
theorem fireAll_ends (rule : Rule) (bindings : List Binding) :
    ∃ outcome effects, ∀ world : World,
      rule.fireAll bindings world = ending outcome (world.enqueue effects) := by
  induction bindings with
  | nil =>
      refine ⟨.ok (), [], ?_⟩
      intro world
      rw [World.enqueue_nil]
      rfl
  | cons binding rest ih =>
      have step (world : World) :
          rule.fireAll (binding :: rest) world =
            EStateM.bind (rule.fire binding) (fun _ => rule.fireAll rest) world := by
        rfl
      cases grounded : rule.effects binding with
      | error cause =>
          refine ⟨.error cause, [], ?_⟩
          intro world
          rw [step, EStateM.bind, fire, grounded, World.enqueue_nil]
          rfl
      | ok effects =>
          rcases ih with ⟨outcome, others, restFired⟩
          refine ⟨outcome, effects ++ others, ?_⟩
          intro world
          rw [step, EStateM.bind, fire, grounded]
          show rule.fireAll rest (world.enqueue effects) = _
          rw [restFired, World.enqueue_enqueue]

/--
A test has one outcome in worlds that resemble each other in what the subrules
of the rule mention: it ends with the same number or the same error, it leaves
the same source, and it lets the same effects wait.
-/
theorem test_sees_only_its_relations {rule : Rule} {world other : World}
    (resembles : world.Resembles rule.relations other) (settings : Settings) (source : Source) :
    ∃ outcome effects after,
      rule.test settings { world, source } =
          ending outcome { world := world.enqueue effects, source := after } ∧
        rule.test settings { world := other, source } =
          ending outcome { world := other.enqueue effects, source := after } := by
  have same := firedBindings_congr settings resembles.alike
  cases found : rule.firedBindings settings world source with
  | error cause after =>
      have foundThere := found
      rw [same] at foundThere
      refine ⟨.error cause, [], after, ?_, ?_⟩
      · rw [test, found, World.enqueue_nil]
        rfl
      · rw [test, foundThere, World.enqueue_nil]
        rfl
  | ok bindings after =>
      have foundThere := found
      rw [same] at foundThere
      rcases rule.fireAll_ends bindings with ⟨outcome, effects, fired⟩
      cases outcome with
      | error cause =>
          refine ⟨.error cause, effects, after, ?_, ?_⟩
          · simp only [test, found, fired, ending]
          · simp only [test, foundThere, fired, ending]
      | ok done =>
          refine ⟨.ok bindings.length, effects, after, ?_, ?_⟩
          · simp only [test, found, fired, ending]
          · simp only [test, foundThere, fired, ending]

/-- A rule that asks for one relation, and for how long a fact of it has held. -/
def courtshipRule : List Char :=
  "X.PEOPLE ADMIRES Y.PEOPLE; 0,-10: (X LIKES>15 Y); 10,0: [T > 1700]".toList

/-- A world with two people, ten minutes after it began. -/
def household (time number : Nat) : World :=
  { clock := { time, elapsed := 10 }
    network := .empty
    classes := NameTable.extend ∅ "PEOPLE" ["GEORGE", "MARTHA"]
    pending := #[]
    nextId := number
    chronicle := ∅ }

/-- Someone likes someone, and twenty minutes pass. -/
def parlour : World :=
  { (household 1700 0).assertFact ⟨"GEORGE", "LIKES", some "MARTHA"⟩ with
    clock := { time := 1730, elapsed := 30 } }

/-- The same under another reading and another number, and with much else. -/
def cellar : World :=
  { (((household 900 7).assertFact ⟨"MARTHA", "HATES", some "GEORGE"⟩).assertFact
        ⟨"GEORGE", "LIKES", some "MARTHA"⟩).snapshot with
    clock := { time := 1730, elapsed := 30 }
    pending := #[{ subject := "MARTHA", relation := .plain "LIKES", object := some "GEORGE" }] }

theorem parlour_resembles_cellar : parlour.Resembles ["LIKES"] cellar where
  classes _ := rfl
  clock := rfl
  facts key known := by
    have liked : key ≠ ⟨"MARTHA", "HATES", some "GEORGE"⟩ := by
      rintro rfl
      exact absurd known (by decide)
    have here : parlour.get? key =
        ((household 1700 0).assertFact ⟨"GEORGE", "LIKES", some "MARTHA"⟩).get? key := by
      rfl
    have there : cellar.get? key =
        (((household 900 7).assertFact ⟨"MARTHA", "HATES", some "GEORGE"⟩).assertFact
          ⟨"GEORGE", "LIKES", some "MARTHA"⟩).get? key := by
      rfl
    have nothing (time number : Nat) : (household time number).get? key = none :=
      Network.get?_empty key
    rw [here, there, World.get?_assertFact, World.get?_assertFact, World.get?_assertFact,
      if_neg liked, nothing, nothing]
    split <;> rfl

theorem test_sees_only_its_relations_in_cellar :
    ∃ rule,
      Script.readRule courtshipRule = .ok rule ∧
        parlour.Resembles rule.relations cellar ∧
        (rule.test { threshold := 10, allowDuplicates := true }).run'
            { world := parlour, source := .ofSeed 7 } = some 1 ∧
        (rule.test { threshold := 10, allowDuplicates := true }).run'
            { world := cellar, source := .ofSeed 7 } = some 1 := by
  have tested :
      (Script.readRule courtshipRule).map (fun rule =>
          (rule.relations,
            (rule.test { threshold := 10, allowDuplicates := true }).run'
              { world := parlour, source := .ofSeed 7 })) =
        .ok (["LIKES"], some 1) := by
    decide +kernel
  rcases map_eq_ok.mp tested with ⟨rule, read, result⟩
  rw [Prod.mk.injEq] at result
  have resembles : parlour.Resembles rule.relations cellar := by
    rw [result.1]
    exact parlour_resembles_cellar
  rcases test_sees_only_its_relations resembles { threshold := 10, allowDuplicates := true }
    (.ofSeed 7) with ⟨outcome, effects, after, here, there⟩
  refine ⟨rule, read, resembles, result.2, ?_⟩
  rw [run'_eq_toOption there, ← run'_eq_toOption here]
  exact result.2

end Rule

end Fabula
