import Fabula.World
import Mathlib.Logic.Function.Basic

/-!
# The contents of a world

Rules and effects see the network of a world as a function from keys to facts,
together with the number of the next fact.  These are the contents of the
world.  On contents one says directly what an effect does: it changes the
function at one key.  Applying effects to a world does this to its contents
and nothing to the rest of it.
-/

namespace Fabula

/-- The facts under their keys, and the number of the next fact. -/
structure Contents where
  fact : Fact.Key → Option Fact
  nextId : Nat

namespace Contents

/--
What an effect makes of contents at a time.  A negated effect leaves no fact
under its key; any other leaves a new one, stamped with the time.
-/
def revise (clock : Clock) (contents : Contents) (effect : Effect) : Contents :=
  if effect.relation.negated then
    { contents with fact := Function.update contents.fact effect.key none }
  else
    { fact :=
        Function.update contents.fact effect.key
          (some
            { id := contents.nextId
              key := effect.key
              assertedAt := clock.time
              assertedElapsed := clock.elapsed })
      nextId := contents.nextId + 1 }

/--
What rounds of effects make of contents.  A clock advances by some minutes
before every round, and stamps the facts of the round.
-/
def replay (minutes : Nat) : Clock → Contents → List (List Effect) → Contents
  | _, contents, [] => contents
  | clock, contents, round :: rest =>
      replay minutes (clock.advance minutes)
        (round.foldl (revise (clock.advance minutes)) contents) rest

/-! ## Facts of revised contents -/

variable {clock : Clock} {contents : Contents}

theorem fact_revise_self (effect : Effect) :
    (contents.revise clock effect).fact effect.key =
      if effect.relation.negated then none
      else some
        { id := contents.nextId
          key := effect.key
          assertedAt := clock.time
          assertedElapsed := clock.elapsed } := by
  rw [revise]
  split
  · exact Function.update_self _ _ _
  · exact Function.update_self _ _ _

theorem fact_revise_of_ne {effect : Effect} {key : Fact.Key} (different : effect.key ≠ key) :
    (contents.revise clock effect).fact key = contents.fact key := by
  rw [revise]
  split
  · exact Function.update_of_ne different.symm _ _
  · exact Function.update_of_ne different.symm _ _

/-- A fact after a revision is one from before, or the new one of the effect. -/
theorem fact_revise {effect : Effect} {key : Fact.Key} {fact : Fact}
    (found : (contents.revise clock effect).fact key = some fact) :
    contents.fact key = some fact ∨
      effect.relation.negated = false ∧ fact.id = contents.nextId ∧
        fact.key = effect.key ∧ fact.assertedElapsed = clock.elapsed := by
  by_cases same : effect.key = key
  · rw [← same, fact_revise_self] at found
    split at found
    · cases found
    · rename_i positive
      cases found
      exact .inr ⟨by simpa using positive, rfl, rfl, rfl⟩
  · rw [fact_revise_of_ne same] at found
    exact .inl found

theorem nextId_revise (effect : Effect) :
    (contents.revise clock effect).nextId =
      contents.nextId + if effect.relation.negated then 0 else 1 := by
  rw [revise]
  split <;> rfl

/-- The counter goes up by one for every effect that is not negated. -/
theorem nextId_foldl_revise (effects : List Effect) :
    (effects.foldl (revise clock) contents).nextId =
      contents.nextId + effects.countP fun effect => !effect.relation.negated := by
  induction effects generalizing contents with
  | nil => rfl
  | cons effect rest ih =>
      rw [List.foldl_cons, ih, nextId_revise, List.countP_cons]
      cases effect.relation.negated with
      | false =>
          simp only [Bool.not_false, Bool.false_eq_true, if_false, if_true]
          omega
      | true => simp

theorem nextId_le_revise (clock : Clock) (contents : Contents) (effect : Effect) :
    contents.nextId ≤ (contents.revise clock effect).nextId := by
  rw [nextId_revise]
  exact Nat.le_add_right _ _

theorem nextId_le_foldl_revise (clock : Clock) (contents : Contents) (effects : List Effect) :
    contents.nextId ≤ (effects.foldl (revise clock) contents).nextId := by
  rw [nextId_foldl_revise]
  exact Nat.le_add_right _ _

/-- A fact after some effects is one from before, or one of the effects has asserted it. -/
theorem fact_foldl_revise {effects : List Effect} {key : Fact.Key} {fact : Fact}
    (found : (effects.foldl (revise clock) contents).fact key = some fact) :
    contents.fact key = some fact ∨
      contents.nextId ≤ fact.id ∧ fact.assertedElapsed = clock.elapsed ∧
        ∃ effect ∈ effects, effect.relation.negated = false ∧ fact.key = effect.key := by
  induction effects generalizing contents with
  | nil => exact .inl found
  | cons effect rest ih =>
      rcases ih found with earlier | ⟨above, stamped, other, inRest, positive, sameKey⟩
      · rcases fact_revise earlier with old | ⟨positive, number, sameKey, stamped⟩
        · exact .inl old
        · exact .inr ⟨Nat.le_of_eq number.symm, stamped, effect, List.mem_cons_self, positive,
            sameKey⟩
      · have higher := Nat.le_trans (contents.nextId_le_revise clock effect) above
        exact .inr ⟨higher, stamped, other, List.mem_cons_of_mem _ inRest, positive, sameKey⟩

/-- A fact that one of some effects has asserted is new, if it is still there after all of them. -/
theorem stamped_of_foldl_revise {effects : List Effect} {effect : Effect}
    (member : effect ∈ effects) (positive : effect.relation.negated = false) {fact : Fact}
    (found : (effects.foldl (revise clock) contents).fact effect.key = some fact) :
    fact.assertedElapsed = clock.elapsed := by
  induction effects generalizing contents with
  | nil => cases member
  | cons first rest ih =>
      rcases List.mem_cons.mp member with rfl | later
      · rw [List.foldl_cons] at found
        rcases fact_foldl_revise found with asserted | ⟨_, stamped, _⟩
        · rw [fact_revise_self, if_neg (by simp [positive])] at asserted
          cases asserted
          rfl
        · exact stamped
      · exact ih later found

end Contents

namespace World

/-- The contents of a world. -/
def contents (world : World) : Contents :=
  { fact := world.get?, nextId := world.nextId }

/-- An effect revises the contents. -/
theorem contents_applyEffect (world : World) (effect : Effect) :
    (world.applyEffect effect).contents = world.contents.revise world.clock effect := by
  unfold applyEffect Contents.revise
  split
  · have removed :
        (world.retractFact effect.key).get? =
          Function.update world.get? effect.key none := by
      funext key
      rw [get?_retractFact, Function.update_apply]
    rw [contents, removed]
    rfl
  · have asserted :
        ((world.retractFact effect.key).assertFact effect.key).get? =
          Function.update world.get? effect.key (some (world.newFact effect.key)) := by
      funext key
      rw [get?_assertFact, get?_retractFact, Function.update_apply]
      by_cases same : key = effect.key
      · rw [if_pos same, if_pos same]
        rfl
      · rw [if_neg same, if_neg same, if_neg same]
    rw [contents, asserted]
    rfl

/-- What an effect has to do with the world outside of its contents: nothing. -/
theorem applyEffect_frame (world : World) (effect : Effect) :
    world.applyEffect effect =
      { world with
        network := (world.applyEffect effect).network
        nextId := (world.applyEffect effect).nextId } := by
  rw [applyEffect]
  split <;> rfl

theorem applyEffects_frame (world : World) (summary : Summary) (effects : List Effect) :
    (world.applyEffects summary effects).1 =
      { world with
        network := (world.applyEffects summary effects).1.network
        nextId := (world.applyEffects summary effects).1.nextId } := by
  induction effects generalizing world summary with
  | nil => rfl
  | cons effect rest ih =>
      rw [applyEffects, ih, applyEffect_frame]

/-- Effects revise the contents one after another, at one time. -/
theorem contents_applyEffects (world : World) (summary : Summary)
    (effects : List Effect) :
    (world.applyEffects summary effects).1.contents =
      effects.foldl (Contents.revise world.clock) world.contents := by
  induction effects generalizing world summary with
  | nil => rfl
  | cons effect rest ih =>
      have sameClock : (world.applyEffect effect).clock = world.clock := by
        rw [applyEffect_frame]
      rw [applyEffects, ih, sameClock, contents_applyEffect]
      rfl

/-- A summary counts as asserted the effects that are not negated. -/
theorem asserted_applyEffects (world : World) (summary : Summary)
    (effects : List Effect) :
    (world.applyEffects summary effects).2.asserted =
      summary.asserted + effects.countP fun effect => !effect.relation.negated := by
  induction effects generalizing world summary with
  | nil => rfl
  | cons effect rest ih =>
      rw [applyEffects, ih, List.countP_cons, effectSummary]
      cases effect.relation.negated with
      | false =>
          simp only [Bool.false_eq_true, if_false, Bool.not_false, if_true]
          omega
      | true =>
          simp only [if_true, Bool.not_true, Bool.false_eq_true, if_false]
          split <;> rfl

/-- In a world where nothing waits, effects are applied if they wait, with counts from zero. -/
theorem applyPending_enqueue {world : World} (idle : world.pending = #[])
    (effects : List Effect) :
    (world.enqueue effects).applyPending = world.applyEffects ⟨0, 0⟩ effects := by
  have waiting : (world.enqueue effects).pending.toList = effects := by
    simp [enqueue, idle]
  have cleared : { world.enqueue effects with pending := #[] } = world := by
    rw [← idle]
    rfl
  rw [applyPending, waiting, cleared]

end World

end Fabula
