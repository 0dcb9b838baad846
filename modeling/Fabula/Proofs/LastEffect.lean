import Fabula.Proofs.Consistency
import Fabula.Proofs.Contents
import Mathlib.Data.List.Infix

/-!
# The last effect on a key decides

A round of effects may assert and remove the fact under one key many times.
What is left of this is the doing of the last effect on the key: no fact if it
is negated, and otherwise a fact with the number that the counter has reached
when all effects before it are applied.  Of the others only the summary of the
round and the counter tell.
-/

namespace Fabula

/-! ## What effects leave under a key -/

namespace Contents

variable {clock : Clock} {contents : Contents}

/-- Effects on other keys leave what is under a key. -/
theorem fact_foldl_revise_of_ne {effects : List Effect} {key : Fact.Key}
    (different : ∀ effect ∈ effects, effect.key ≠ key) :
    (effects.foldl (revise clock) contents).fact key = contents.fact key := by
  induction effects generalizing contents with
  | nil => rfl
  | cons effect rest ih =>
      rw [List.forall_mem_cons] at different
      rw [List.foldl_cons, ih different.2, fact_revise_of_ne different.1]

/-- The last effect on a key decides what is under it; those before it have set the counter. -/
theorem fact_foldl_revise_of_last {earlier later : List Effect} {effect : Effect}
    (last : ∀ other ∈ later, other.key ≠ effect.key) :
    ((earlier ++ effect :: later).foldl (revise clock) contents).fact effect.key =
      if effect.relation.negated then none
      else some
        { id := contents.nextId + earlier.countP fun other => !other.relation.negated
          key := effect.key
          assertedAt := clock.time
          assertedElapsed := clock.elapsed } := by
  rw [List.foldl_append, List.foldl_cons, fact_foldl_revise_of_ne last, fact_revise_self,
    nextId_foldl_revise]

end Contents

namespace Network

/-- To erase a fact leaves one fact less. -/
theorem size_erase (network : Network) (key : Fact.Key) :
    ((network.erase key).size + if (network.get? key).isSome then 1 else 0) = network.size := by
  have erased : (network.erase key).size =
      if network.byKey.contains key then network.size - 1 else network.size :=
    Std.TreeMap.size_erase
  rw [get?, ← Std.TreeMap.contains_eq_isSome_getElem?, erased]
  split
  · rename_i present
    have nonempty := Std.TreeMap.isEmpty_eq_false_of_contains present
    rw [Std.TreeMap.isEmpty_eq_size_eq_zero, beq_eq_false_iff_ne] at nonempty
    exact Nat.sub_add_cancel (Nat.pos_of_ne_zero nonempty)
  · rfl

/-- A fact in the place of one that has been erased is one fact more. -/
theorem size_insert_erase (network : Network) (fact : Fact) :
    ((network.erase fact.key).insert fact).size = (network.erase fact.key).size + 1 := by
  have absent : ¬(network.byKey.erase fact.key).contains fact.key := by
    simp
  have inserted : ((network.erase fact.key).insert fact).size =
      if (network.byKey.erase fact.key).contains fact.key then (network.erase fact.key).size
      else (network.erase fact.key).size + 1 :=
    Std.TreeMap.size_insert
  rw [inserted, if_neg absent]

end Network

/-! ## Facts and counts along a round -/

/-- Every value of a list, after those before it. -/
def withEarlier {α : Type} (values : List α) : List (List α × α) :=
  values.inits.zip values

theorem withEarlier_cons {α : Type} (value : α) (rest : List α) :
    withEarlier (value :: rest) =
      ([], value) :: (withEarlier rest).map fun (earlier, later) => (value :: earlier, later) := by
  rw [withEarlier, List.inits_cons, List.zip_cons_cons, List.zip_map_left]
  rfl

namespace World

/--
Whether a key has a fact when some effects have been applied: if there are
effects on the key, the last of them says so, and otherwise nothing has changed.
-/
def hasAfter (world : World) (effects : List Effect) (key : Fact.Key) : Bool :=
  match effects.reverse.find? fun effect => effect.key = key with
  | some last => !last.relation.negated
  | none => (world.get? key).isSome

theorem get?_applyEffect (world : World) (effect : Effect) (key : Fact.Key) :
    (world.applyEffect effect).get? key =
      (world.contents.revise world.clock effect).fact key := by
  rw [← contents_applyEffect]
  rfl

/-- The first effect counts only if no later one is on the key. -/
theorem hasAfter_cons (world : World) (effect : Effect) (rest : List Effect) (key : Fact.Key) :
    world.hasAfter (effect :: rest) key = (world.applyEffect effect).hasAfter rest key := by
  rw [hasAfter, hasAfter, List.reverse_cons, List.find?_append]
  cases rest.reverse.find? fun effect => effect.key = key with
  | some last => rfl
  | none =>
      rw [Option.none_or, get?_applyEffect]
      by_cases same : effect.key = key
      · rw [List.find?_cons_of_pos (by simpa using same), ← same, Contents.fact_revise_self]
        cases negated : effect.relation.negated with
        | false => simp [negated]
        | true => simp [negated]
      · rw [List.find?_cons_of_neg (by simpa using same), Contents.fact_revise_of_ne same]
        rfl

/-- The facts that effects leave are those that `hasAfter` tells of. -/
theorem isSome_get?_applyEffects (world : World) (summary : Summary) (effects : List Effect)
    (key : Fact.Key) :
    ((world.applyEffects summary effects).1.get? key).isSome = world.hasAfter effects key := by
  induction effects generalizing world summary with
  | nil => rfl
  | cons effect rest ih => rw [applyEffects, ih, hasAfter_cons]

/-- How many of some effects, when they are reached, are as demanded, with or without a fact. -/
def countReached (world : World) (effects : List Effect) (demand : Effect → Bool → Bool) : Nat :=
  (withEarlier effects).countP fun (earlier, effect) =>
    demand effect (world.hasAfter earlier effect.key)

theorem countReached_cons (world : World) (effect : Effect) (rest : List Effect)
    (demand : Effect → Bool → Bool) :
    world.countReached (effect :: rest) demand =
      (world.applyEffect effect).countReached rest demand +
        if demand effect (world.get? effect.key).isSome then 1 else 0 := by
  simp only [countReached, withEarlier_cons, List.countP_cons, List.countP_map, hasAfter_cons,
    Function.comp_def]
  rfl

theorem retracted_effectSummary (world : World) (effect : Effect) (summary : Summary) :
    (world.effectSummary effect summary).retracted =
      summary.retracted +
        if effect.relation.negated && (world.get? effect.key).isSome then 1 else 0 := by
  rw [effectSummary]
  cases effect.relation.negated with
  | false => rfl
  | true => cases (world.get? effect.key).isSome <;> rfl

/-- A summary counts as retracted the negated effects that find a fact. -/
theorem retracted_applyEffects (world : World) (summary : Summary) (effects : List Effect) :
    (world.applyEffects summary effects).2.retracted =
      summary.retracted +
        world.countReached effects fun effect present => effect.relation.negated && present := by
  induction effects generalizing world summary with
  | nil => rfl
  | cons effect rest ih =>
      rw [applyEffects, ih, retracted_effectSummary, countReached_cons]
      omega

/-- The number of facts changes if an effect removes one, or asserts one where there was none. -/
theorem size_applyEffect (world : World) (effect : Effect) :
    ((world.applyEffect effect).network.size +
        if effect.relation.negated && (world.get? effect.key).isSome then 1 else 0) =
      world.network.size +
        if !effect.relation.negated && !(world.get? effect.key).isSome then 1 else 0 := by
  have erased :
      ((world.retractFact effect.key).network.size +
          if (world.get? effect.key).isSome then 1 else 0) =
        world.network.size :=
    world.network.size_erase effect.key
  rw [applyEffect]
  cases negated : effect.relation.negated with
  | true =>
      rw [if_pos rfl]
      simpa using erased
  | false =>
      have inserted :
          ((world.retractFact effect.key).assertFact effect.key).network.size =
            (world.retractFact effect.key).network.size + 1 :=
        world.network.size_insert_erase ((world.retractFact effect.key).newFact effect.key)
      rw [if_neg (by simp), inserted, ← erased]
      cases (world.get? effect.key).isSome with
      | true => simp
      | false => simp

/-- A round has one fact more for each assertion that finds none, and one fact less for each
removal that finds one. -/
theorem size_applyEffects (world : World) (summary : Summary) (effects : List Effect) :
    ((world.applyEffects summary effects).1.network.size +
        world.countReached effects fun effect present => effect.relation.negated && present) =
      world.network.size +
        world.countReached effects fun effect present => !effect.relation.negated && !present := by
  induction effects generalizing world summary with
  | nil => rfl
  | cons effect rest ih =>
      have here := world.size_applyEffect effect
      have later := ih (world.applyEffect effect) (world.effectSummary effect summary)
      rw [applyEffects, countReached_cons, countReached_cons]
      omega

/-! ## Rounds -/

/-- What a world finds under a key is all that its network lists under it. -/
theorem Consistent.filter_facts {world : World} (consistent : world.Consistent)
    (key : Fact.Key) :
    (world.network.facts.filter fun fact => fact.key = key) = (world.get? key).toList := by
  cases found : world.get? key with
  | none =>
      rw [Option.toList_none, List.filter_eq_nil_iff]
      intro fact member same
      rcases Network.mem_facts.mp member with ⟨other, foundThere⟩
      have equal : other = key := by
        rw [← consistent.filed other fact foundThere]
        simpa using same
      rw [equal] at foundThere
      cases found.symm.trans foundThere
  | some fact =>
      have member : fact ∈ world.network.facts := Network.mem_facts.mpr ⟨key, found⟩
      have distinct := Network.nodup_keys_facts consistent.filed
      rcases List.append_of_mem member with ⟨earlier, later, listed⟩
      have named : fact.key = key := consistent.filed key fact found
      rw [listed, List.map_append, List.map_cons, List.nodup_middle, List.nodup_cons,
        ← List.map_append, named] at distinct
      have others : ∀ other ∈ earlier ++ later, ¬other.key = key := by
        intro other inOthers same
        exact distinct.1 (List.mem_map.mpr ⟨other, inOthers, same⟩)
      rw [List.forall_mem_append] at others
      rw [listed, List.filter_append, List.filter_cons_of_pos (by simpa using named),
        List.filter_eq_nil_iff.mpr (by simpa using others.1),
        List.filter_eq_nil_iff.mpr (by simpa using others.2)]
      rfl

/-- Where a round leads does not depend on what was counted before, and its counts add to that. -/
theorem applyEffects_from (world : World) (summary : Summary) (effects : List Effect) :
    (world.applyEffects summary effects).1 = (world.applyEffects ⟨0, 0⟩ effects).1 ∧
      summary.asserted + (world.applyEffects ⟨0, 0⟩ effects).2.asserted =
        (world.applyEffects summary effects).2.asserted ∧
      summary.retracted + (world.applyEffects ⟨0, 0⟩ effects).2.retracted =
        (world.applyEffects summary effects).2.retracted := by
  refine ⟨?_, ?_, ?_⟩
  · rw [applyEffects_eq_change, applyEffects_eq_change]
  · simp only [asserted_applyEffects, Nat.zero_add]
  · simp only [retracted_applyEffects, Nat.zero_add]

theorem get?_applyPending (world : World) (key : Fact.Key) :
    world.applyPending.1.get? key =
      (world.pending.toList.foldl (Contents.revise world.clock) world.contents).fact key := by
  have contents := contents_applyEffects { world with pending := #[] } ⟨0, 0⟩ world.pending.toList
  exact congrFun (congrArg Contents.fact contents) key

theorem retracted_applyPending (world : World) :
    world.applyPending.2.retracted =
      world.countReached world.pending.toList fun effect present =>
        effect.relation.negated && present :=
  (retracted_applyEffects _ _ _).trans (Nat.zero_add _)

/-- What a round of effects makes of a world, and what its summary says. -/
structure Applies (before : World) (effects : List Effect) (after : World) (summary : Summary) :
    Prop where
  waiting : after.pending = #[]
  /-- The network lists one fact under a key, or none. -/
  single : ∀ key,
    (after.network.facts.filter fun fact => fact.key = key) = (after.get? key).toList
  /-- A key that no effect names keeps its fact. -/
  untouched : ∀ key, (∀ effect ∈ effects, effect.key ≠ key) → after.get? key = before.get? key
  /-- The last effect on a key removes the fact, or has asserted it. -/
  last : ∀ earlier effect later,
    effects = earlier ++ effect :: later → (∀ other ∈ later, other.key ≠ effect.key) →
      after.get? effect.key =
        if effect.relation.negated then none
        else some
          { id := before.nextId + earlier.countP fun other => !other.relation.negated
            key := effect.key
            assertedAt := before.clock.time
            assertedElapsed := before.clock.elapsed }
  asserted : summary.asserted = effects.countP fun effect => !effect.relation.negated
  /-- What an effect finds when it is reached is what the effects before it leave. -/
  reached : ∀ earlier later key, effects = earlier ++ later →
    ((before.applyEffects ⟨0, 0⟩ earlier).1.get? key).isSome = before.hasAfter earlier key
  retracted :
    summary.retracted =
      before.countReached effects fun effect present => effect.relation.negated && present
  size :
    after.network.size + summary.retracted =
      before.network.size +
        before.countReached effects fun effect present => !effect.relation.negated && !present

theorem Consistent.applies {world : World} (consistent : world.Consistent) :
    world.Applies world.pending.toList world.applyPending.1 world.applyPending.2 where
  waiting := by rw [applyPending, applyEffects_frame]
  single := by
    have consistentAfter : world.applyPending.1.Consistent := by
      rw [applyPending_eq_change]
      exact consistent.change _
    exact consistentAfter.filter_facts
  untouched key different :=
    (world.get?_applyPending key).trans (Contents.fact_foldl_revise_of_ne different)
  last earlier effect later split last := by
    rw [get?_applyPending, split, Contents.fact_foldl_revise_of_last last]
    rfl
  asserted := (asserted_applyEffects _ _ _).trans (Nat.zero_add _)
  reached _ _ _ _ := isSome_get?_applyEffects _ _ _ _
  retracted := world.retracted_applyPending
  size := by
    rw [retracted_applyPending]
    exact size_applyEffects _ _ _

/-- It makes no difference if some of the effects wait and are applied before the others do. -/
theorem applyPending_in_parts {world : World} {first others : List Effect}
    (split : world.pending.toList = first ++ others) :
    let half := ({ world with pending := #[] }.enqueue first).applyPending
    let whole := (half.1.enqueue others).applyPending
    whole.1 = world.applyPending.1 ∧
      half.2.asserted + whole.2.asserted = world.applyPending.2.asserted ∧
      half.2.retracted + whole.2.retracted = world.applyPending.2.retracted := by
  have cleared : ({ world with pending := #[] } : World).pending = #[] := rfl
  have idle : (applyEffects { world with pending := #[] } ⟨0, 0⟩ first).1.pending = #[] := by
    rw [applyEffects_frame]
  dsimp only
  rw [applyPending_enqueue cleared, applyPending_enqueue idle, applyPending, split,
    applyEffects_append]
  rcases applyEffects_from (applyEffects { world with pending := #[] } ⟨0, 0⟩ first).1
      (applyEffects { world with pending := #[] } ⟨0, 0⟩ first).2 others with
    ⟨same, asserted, retracted⟩
  exact ⟨same.symm, asserted, retracted⟩

/--
Of the effects that wait, the last on a key decides what is under the key when
they are applied; a key that none of them names keeps its fact.  The summary
counts assertions and removals.  It makes no difference if first some of the
effects wait and are applied, and then the others.
-/
theorem last_effect_decides {world : World} (reachable : world.Reachable) :
    world.Applies world.pending.toList world.applyPending.1 world.applyPending.2 ∧
      ∀ first others, world.pending.toList = first ++ others →
        let half := ({ world with pending := #[] }.enqueue first).applyPending
        let whole := (half.1.enqueue others).applyPending
        whole.1 = world.applyPending.1 ∧
          half.2.asserted + whole.2.asserted = world.applyPending.2.asserted ∧
          half.2.retracted + whole.2.retracted = world.applyPending.2.retracted :=
  ⟨reachable.consistent.applies, fun _ _ split => applyPending_in_parts split⟩

/-- George stops liking Martha and starts again, Nick falls asleep, Martha leaves and returns. -/
def quarrel : List Effect :=
  [⟨"GEORGE", ⟨"LIKES", true, none⟩, some "MARTHA"⟩,
    ⟨"NICK", ⟨"ASLEEP", true, none⟩, none⟩,
    ⟨"MARTHA", .plain "AWAY", none⟩,
    ⟨"GEORGE", .plain "LIKES", some "MARTHA"⟩,
    ⟨"MARTHA", ⟨"AWAY", true, none⟩, none⟩,
    ⟨"NICK", .plain "ASLEEP", none⟩]

/-- What leads to a world in which a quarrel waits, ten minutes after the beginning. -/
def quarrelOperations : List Operation :=
  [.load "GEORGE\tLIKES MARTHA, AWAKE", .advance 10, .enqueue quarrel]

theorem last_effect_decides_in_quarrel :
    ∃ first, World.start 1700 = .ok first ∧
      let world := first.performAll quarrelOperations
      world.Reachable ∧ world.pending.toList = quarrel ∧
        world.applyPending.1.get? ⟨"GEORGE", "LIKES", some "MARTHA"⟩ =
          some ⟨3, ⟨"GEORGE", "LIKES", some "MARTHA"⟩, 1710, 10⟩ ∧
        world.applyPending.1.get? ⟨"GEORGE", "AWAKE", none⟩ =
          some ⟨1, ⟨"GEORGE", "AWAKE", none⟩, 1700, 0⟩ ∧
        world.applyPending.1.get? ⟨"MARTHA", "AWAY", none⟩ = none ∧
        world.applyPending.2.asserted = 3 ∧ world.applyPending.2.retracted = 2 ∧
        world.applyPending.1.network.size = 3 := by
  have evaluated :
      (World.start 1700).map (fun first =>
        let world := first.performAll quarrelOperations
        decide (
          world.pending.toList = quarrel ∧
          world.nextId = 2 ∧ world.clock = ⟨1710, 10⟩ ∧ world.network.size = 2 ∧
          world.get? ⟨"GEORGE", "AWAKE", none⟩ =
            some ⟨1, ⟨"GEORGE", "AWAKE", none⟩, 1700, 0⟩ ∧
          world.countReached quarrel (fun effect present =>
            effect.relation.negated && present) = 2 ∧
          world.countReached quarrel (fun effect present =>
            !effect.relation.negated && !present) = 3)) =
      .ok true := by
    decide +kernel
  rcases Outcome.map_eq_ok.mp evaluated with ⟨first, started, result⟩
  rcases of_decide_eq_true result with
    ⟨waiting, number, clock, facts, awake, removals, additions⟩
  have reachable : (first.performAll quarrelOperations).Reachable :=
    ⟨1700, first, quarrelOperations, started, rfl⟩
  have applies := (last_effect_decides reachable).1
  rw [waiting] at applies
  have size := applies.size
  rw [applies.retracted, removals, additions, facts] at size
  have liked := applies.last (quarrel.take 3) _ (quarrel.drop 4) rfl (by decide)
  have away := applies.last (quarrel.take 4) _ (quarrel.drop 5) rfl (by decide)
  rw [number, clock] at liked
  refine ⟨first, started, reachable, waiting, liked, ?_, away, ?_,
    applies.retracted.trans removals, Nat.add_right_cancel size⟩
  · rw [applies.untouched _ (by decide), awake]
  · exact applies.asserted.trans (by decide)

end World

end Fabula
