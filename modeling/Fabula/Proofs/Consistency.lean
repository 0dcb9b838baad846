import Fabula.Proofs.Change
import Mathlib.Data.List.Nodup

/-!
# The store of facts is consistent

Facts are numbered in the order in which they are asserted, and no number is
given out twice.  The main statement is about all that can be done to a world
from its start.  It follows from two invariants of the elementary changes, which
speak of all facts that the network or some snapshot records.  The second one,
about the times at which facts were asserted, needs a clock that does not start
over.
-/

namespace Fabula

/-! ## The facts of a network -/

namespace Network

theorem inKeyOrder_eq_map (network : Network) :
    network.inKeyOrder = network.byKey.toList.map Prod.snd := by
  have folded :
      network.inKeyOrder = network.byKey.foldr (fun _ fact facts => fact :: facts) [] := by
    rfl
  rw [folded, Std.TreeMap.foldr_eq_foldr_toList, List.foldr_cons_eq_append,
    List.append_nil]

theorem mem_inKeyOrder {network : Network} {fact : Fact} :
    fact ∈ network.inKeyOrder ↔ ∃ key, network.get? key = some fact := by
  rw [inKeyOrder_eq_map, List.mem_map]
  constructor
  · rintro ⟨⟨key, _⟩, member, rfl⟩
    exact ⟨key, Std.TreeMap.mem_toList_iff_getElem?_eq_some.mp member⟩
  · rintro ⟨key, found⟩
    exact ⟨(key, fact), Std.TreeMap.mem_toList_iff_getElem?_eq_some.mpr found, rfl⟩

theorem mem_facts {network : Network} {fact : Fact} :
    fact ∈ network.facts ↔ ∃ key, network.get? key = some fact := by
  rw [facts, List.mem_mergeSort, mem_inKeyOrder]

/-- Facts under their own keys are listed with pairwise distinct keys. -/
theorem nodup_keys_facts {network : Network}
    (filed : ∀ key fact, network.get? key = some fact → fact.key = key) :
    (network.facts.map (·.key)).Nodup := by
  have sameKeys :
      network.inKeyOrder.map (·.key) = network.byKey.toList.map Prod.fst := by
    rw [inKeyOrder_eq_map, List.map_map]
    apply List.map_congr_left
    rintro ⟨key, fact⟩ member
    exact filed key fact (Std.TreeMap.mem_toList_iff_getElem?_eq_some.mp member)
  have permuted :
      (network.facts.map (·.key)).Perm (network.inKeyOrder.map (·.key)) :=
    (List.mergeSort_perm _ _).map _
  rw [permuted.nodup_iff, sameKeys, Std.TreeMap.map_fst_toList_eq_keys]
  exact Std.TreeMap.nodup_keys

/-- Facts with distinct numbers are listed in ascending order of these. -/
theorem pairwise_facts {network : Network}
    (filed : ∀ key fact, network.get? key = some fact → fact.key = key)
    (identified : ∀ fact ∈ network.facts, ∀ other ∈ network.facts,
      fact.id = other.id → fact = other) :
    network.facts.Pairwise fun left right => left.id < right.id := by
  have sorted : network.facts.Pairwise fun left right => left.id ≤ right.id := by
    have compared :
        network.facts.Pairwise fun left right => decide (left.id ≤ right.id) = true := by
      apply List.pairwise_mergeSort
      · intro first second third
        simp only [decide_eq_true_eq]
        exact Nat.le_trans
      · intro first second
        simp only [Bool.or_eq_true, decide_eq_true_eq]
        exact Nat.le_total _ _
    simpa only [decide_eq_true_eq] using compared
  have distinct : network.facts.Pairwise fun left right => left ≠ right := by
    have nodup := nodup_keys_facts filed
    exact List.Nodup.of_map _ nodup
  have both := sorted.and distinct
  apply both.imp_of_mem
  intro left right inLeft inRight related
  have different : left.id ≠ right.id := by
    intro same
    exact related.2 (identified left inLeft right inRight same)
  have ordered := related.1
  omega

end Network

/-! ## What a world records -/

namespace World

/-- A fact is recorded by the network or by a snapshot. -/
def Records (world : World) (fact : Fact) : Prop :=
  (∃ key, world.get? key = some fact) ∨
    ∃ (time : Nat) (snapshot : List Fact),
      world.chronicle[time]? = some snapshot ∧ fact ∈ snapshot

theorem records_of_mem_facts {world : World} {fact : Fact}
    (member : fact ∈ world.network.facts) : world.Records fact :=
  .inl (Network.mem_facts.mp member)

/--
The facts that a world records are filed under their keys and numbered below
the counter, each by a number of its own; and snapshots list facts in the order
of their numbers.
-/
structure Consistent (world : World) : Prop where
  filed : ∀ key fact, world.get? key = some fact → fact.key = key
  allocated : ∀ fact, world.Records fact → fact.id < world.nextId
  identified :
    ∀ fact other, world.Records fact → world.Records other →
      fact.id = other.id → fact = other
  ascending :
    ∀ (time : Nat) (snapshot : List Fact), world.chronicle[time]? = some snapshot →
      (snapshot.Pairwise fun left right => left.id < right.id) ∧
        (snapshot.map (·.key)).Nodup

/-- Facts are numbered in the order of their assertion, and none is later than the clock. -/
structure Dated (world : World) : Prop where
  ordered :
    ∀ fact other, world.Records fact → world.Records other →
      fact.id < other.id → fact.assertedElapsed ≤ other.assertedElapsed
  past : ∀ fact, world.Records fact → fact.assertedElapsed ≤ world.clock.elapsed

/-- What happens between two worlds does not give out the numbers of the earlier one again. -/
structure Precedes (early later : World) : Prop where
  counter : early.nextId ≤ later.nextId
  known : ∀ fact, later.Records fact → fact.id < early.nextId → early.Records fact

theorem Precedes.refl (world : World) : world.Precedes world :=
  ⟨Nat.le_refl _, fun _ recorded _ => recorded⟩

theorem Precedes.trans {first second third : World} (left : first.Precedes second)
    (right : second.Precedes third) : first.Precedes third where
  counter := Nat.le_trans left.counter right.counter
  known := by
    intro fact recorded below
    apply left.known fact _ below
    exact right.known fact recorded (Nat.lt_of_lt_of_le below left.counter)

/-! ## Changes -/

/-- A change that records nothing new is harmless. -/
theorem Consistent.of_records {before after : World} (consistent : before.Consistent)
    (records : ∀ fact, after.Records fact → before.Records fact)
    (filed : ∀ key fact, after.get? key = some fact → fact.key = key)
    (counter : before.nextId ≤ after.nextId)
    (ascending : ∀ (time : Nat) (snapshot : List Fact),
      after.chronicle[time]? = some snapshot →
        (snapshot.Pairwise fun left right => left.id < right.id) ∧
          (snapshot.map (·.key)).Nodup) :
    after.Consistent where
  filed := filed
  allocated := fun fact recorded =>
    Nat.lt_of_lt_of_le (consistent.allocated fact (records fact recorded)) counter
  identified := fun fact other recorded otherRecorded =>
    consistent.identified fact other (records fact recorded) (records other otherRecorded)
  ascending := ascending

/-- Neither is a change that, besides, does not turn the clock back. -/
theorem Dated.of_records {before after : World} (dated : before.Dated)
    (records : ∀ fact, after.Records fact → before.Records fact)
    (elapsed : before.clock.elapsed ≤ after.clock.elapsed) : after.Dated where
  ordered := fun fact other recorded otherRecorded =>
    dated.ordered fact other (records fact recorded) (records other otherRecorded)
  past := fun fact recorded =>
    Nat.le_trans (dated.past fact (records fact recorded)) elapsed

theorem records_assertFact {world : World} {key : Fact.Key} {fact : Fact}
    (recorded : (world.assertFact key).Records fact) :
    fact = world.newFact key ∨ world.Records fact := by
  rcases recorded with ⟨other, found⟩ | inSnapshot
  · rw [get?_assertFact] at found
    by_cases same : other = key
    · rw [if_pos same] at found
      cases found
      exact .inl rfl
    · rw [if_neg same] at found
      exact .inr (.inl ⟨other, found⟩)
  · exact .inr (.inr inSnapshot)

theorem records_retractFact {world : World} {key : Fact.Key} {fact : Fact}
    (recorded : (world.retractFact key).Records fact) : world.Records fact := by
  rcases recorded with ⟨other, found⟩ | inSnapshot
  · rw [get?_retractFact] at found
    by_cases same : other = key
    · rw [if_pos same] at found
      cases found
    · rw [if_neg same] at found
      exact .inl ⟨other, found⟩
  · exact .inr inSnapshot

theorem getElem?_chronicle_snapshot (world : World) (time : Nat) :
    world.snapshot.chronicle[time]? =
      if time = world.clock.time then some world.network.facts
      else world.chronicle[time]? := by
  simp [snapshot, Std.TreeMap.getElem?_insert, eq_comm (a := time) (b := world.clock.time)]

theorem records_snapshot {world : World} {fact : Fact}
    (recorded : world.snapshot.Records fact) : world.Records fact := by
  rcases recorded with inNetwork | ⟨time, facts, filed, member⟩
  · exact .inl inNetwork
  · rw [getElem?_chronicle_snapshot] at filed
    by_cases now : time = world.clock.time
    · rw [if_pos now] at filed
      cases filed
      exact records_of_mem_facts member
    · rw [if_neg now] at filed
      exact .inr ⟨time, facts, filed, member⟩

/-- A new fact gets the number of the counter, which no recorded fact has reached. -/
theorem Consistent.assertFact {world : World} (consistent : world.Consistent)
    (key : Fact.Key) : (world.assertFact key).Consistent where
  filed := by
    intro other fact found
    rw [get?_assertFact] at found
    by_cases same : other = key
    · rw [if_pos same] at found
      cases found
      exact same.symm
    · rw [if_neg same] at found
      exact consistent.filed other fact found
  allocated := by
    intro fact recorded
    show fact.id < world.nextId + 1
    rcases records_assertFact recorded with rfl | old
    · exact Nat.lt_succ_self _
    · exact Nat.lt_succ_of_lt (consistent.allocated fact old)
  identified := by
    intro fact other recorded otherRecorded same
    rcases records_assertFact recorded with rfl | old
    · rcases records_assertFact otherRecorded with rfl | otherOld
      · rfl
      · have below := consistent.allocated other otherOld
        have new : other.id = world.nextId := same.symm
        omega
    · have below := consistent.allocated fact old
      rcases records_assertFact otherRecorded with rfl | otherOld
      · have new : fact.id = world.nextId := same
        omega
      · exact consistent.identified fact other old otherOld same
  ascending := consistent.ascending

/-- A new fact gets the present time. -/
theorem Dated.assertFact {world : World} (dated : world.Dated) (consistent : world.Consistent)
    (key : Fact.Key) : (world.assertFact key).Dated where
  ordered := by
    intro fact other recorded otherRecorded earlier
    rcases records_assertFact otherRecorded with rfl | otherOld
    · rcases records_assertFact recorded with rfl | old
      · exact Nat.le_refl _
      · exact dated.past fact old
    · have below := consistent.allocated other otherOld
      rcases records_assertFact recorded with rfl | old
      · have new : world.nextId < other.id := earlier
        omega
      · exact dated.ordered fact other old otherOld earlier
  past := by
    intro fact recorded
    rcases records_assertFact recorded with rfl | old
    · exact Nat.le_refl _
    · exact dated.past fact old

theorem Consistent.retractFact {world : World} (consistent : world.Consistent)
    (key : Fact.Key) : (world.retractFact key).Consistent := by
  apply consistent.of_records
  · exact fun _ => records_retractFact
  · intro other fact found
    rw [get?_retractFact] at found
    by_cases same : other = key
    · rw [if_pos same] at found
      cases found
    · rw [if_neg same] at found
      exact consistent.filed other fact found
  · exact Nat.le_refl _
  · exact consistent.ascending

theorem Consistent.pairwise_facts {world : World} (consistent : world.Consistent) :
    world.network.facts.Pairwise fun left right => left.id < right.id := by
  apply Network.pairwise_facts consistent.filed
  intro fact member other otherMember
  exact consistent.identified fact other (records_of_mem_facts member)
    (records_of_mem_facts otherMember)

theorem Consistent.snapshot {world : World} (consistent : world.Consistent) :
    world.snapshot.Consistent := by
  apply consistent.of_records
  · exact fun _ => records_snapshot
  · exact consistent.filed
  · exact Nat.le_refl _
  · intro time snapshot found
    rw [getElem?_chronicle_snapshot] at found
    by_cases now : time = world.clock.time
    · rw [if_pos now] at found
      cases found
      exact ⟨consistent.pairwise_facts, Network.nodup_keys_facts consistent.filed⟩
    · rw [if_neg now] at found
      exact consistent.ascending time snapshot found

theorem Consistent.apply {world : World} (consistent : world.Consistent)
    (change : Change) : (change.apply world).Consistent := by
  cases change with
  | assert key => exact consistent.assertFact key
  | retract key => exact consistent.retractFact key
  | snapshot => exact consistent.snapshot
  | advance minutes =>
      exact consistent.of_records (fun _ recorded => recorded) consistent.filed
        (Nat.le_refl _) consistent.ascending
  | define name members =>
      exact consistent.of_records (fun _ recorded => recorded) consistent.filed
        (Nat.le_refl _) consistent.ascending
  | queue effects =>
      exact consistent.of_records (fun _ recorded => recorded) consistent.filed
        (Nat.le_refl _) consistent.ascending
  | clear =>
      exact consistent.of_records (fun _ recorded => recorded) consistent.filed
        (Nat.le_refl _) consistent.ascending

theorem elapsed_apply {world : World} {change : Change}
    (fits : world.clock.elapsed + change.minutes < Text.wordBound) :
    (change.apply world).clock.elapsed = world.clock.elapsed + change.minutes := by
  cases change with
  | advance minutes => exact Clock.elapsed_advance fits
  | define name members => rfl
  | assert key => rfl
  | retract key => rfl
  | queue effects => rfl
  | clear => rfl
  | snapshot => rfl

theorem Dated.apply {world : World} (dated : world.Dated) (consistent : world.Consistent)
    {change : Change} (fits : world.clock.elapsed + change.minutes < Text.wordBound) :
    (change.apply world).Dated := by
  have later : world.clock.elapsed ≤ (change.apply world).clock.elapsed := by
    rw [elapsed_apply fits]
    exact Nat.le_add_right _ _
  cases change with
  | assert key => exact dated.assertFact consistent key
  | retract key => exact dated.of_records (fun _ => records_retractFact) later
  | snapshot => exact dated.of_records (fun _ => records_snapshot) later
  | advance minutes => exact dated.of_records (fun _ recorded => recorded) later
  | define name members => exact dated.of_records (fun _ recorded => recorded) later
  | queue effects => exact dated.of_records (fun _ recorded => recorded) later
  | clear => exact dated.of_records (fun _ recorded => recorded) later

theorem precedes_apply (world : World) (change : Change) :
    world.Precedes (change.apply world) := by
  cases change with
  | assert key =>
      refine ⟨Nat.le_succ _, ?_⟩
      intro fact recorded below
      rcases records_assertFact recorded with rfl | old
      · exact absurd below (Nat.lt_irrefl _)
      · exact old
  | retract key => exact ⟨Nat.le_refl _, fun _ recorded _ => records_retractFact recorded⟩
  | snapshot => exact ⟨Nat.le_refl _, fun _ recorded _ => records_snapshot recorded⟩
  | advance minutes => exact ⟨Nat.le_refl _, fun _ recorded _ => recorded⟩
  | define name members => exact ⟨Nat.le_refl _, fun _ recorded _ => recorded⟩
  | queue effects => exact ⟨Nat.le_refl _, fun _ recorded _ => recorded⟩
  | clear => exact ⟨Nat.le_refl _, fun _ recorded _ => recorded⟩

/-! ## Operations -/

theorem Consistent.change {world : World} (consistent : world.Consistent)
    (changes : List Change) : (world.change changes).Consistent :=
  change_preserves (fun change _ _ earlier => earlier.apply change) consistent

/-- As long as the minutes fit 32 bits, the clock counts them, and facts keep their order. -/
theorem Dated.change {world : World} (dated : world.Dated) (consistent : world.Consistent)
    {changes : List Change}
    (fits : world.clock.elapsed + (changes.map Change.minutes).sum < Text.wordBound) :
    (world.change changes).Dated ∧
      (world.change changes).clock.elapsed =
        world.clock.elapsed + (changes.map Change.minutes).sum := by
  induction changes generalizing world with
  | nil => exact ⟨dated, rfl⟩
  | cons change rest ih =>
      rw [List.map_cons, List.sum_cons, ← Nat.add_assoc] at fits ⊢
      have first : world.clock.elapsed + change.minutes < Text.wordBound := by
        omega
      have counted := elapsed_apply first
      rw [← counted] at fits ⊢
      exact ih (dated.apply consistent first) (consistent.apply change) fits

theorem Takes.dated {before after : World} {minutes : Nat} (takes : before.Takes minutes after)
    (dated : before.Dated) (consistent : before.Consistent)
    (fits : before.clock.elapsed + minutes < Text.wordBound) :
    after.Dated ∧ after.clock.elapsed = before.clock.elapsed + minutes := by
  rcases takes with ⟨changes, rfl, rfl⟩
  exact dated.change consistent fits

theorem precedes_change (world : World) (changes : List Change) :
    world.Precedes (world.change changes) :=
  change_preserves (fun change _ middle precedes => precedes.trans (middle.precedes_apply change))
    (Precedes.refl world)

theorem Leads.consistent {before after : World} (leads : before.Leads after)
    (consistent : before.Consistent) : after.Consistent := by
  rcases leads with ⟨changes, rfl⟩
  exact consistent.change changes

theorem Leads.precedes {before after : World} (leads : before.Leads after) :
    before.Precedes after := by
  rcases leads with ⟨changes, rfl⟩
  exact before.precedes_change changes

theorem records_nothing {time : Nat} {first : World}
    (started : World.start time = .ok first) (fact : Fact) : ¬first.Records fact := by
  rcases Outcome.map_eq_ok.mp started with ⟨clock, _, rfl⟩
  rintro (⟨key, found⟩ | ⟨time, snapshot, found, _⟩)
  · simp [get?] at found
  · simp at found

theorem consistent_start {time : Nat} {first : World}
    (started : World.start time = .ok first) : first.Consistent where
  filed := fun key fact found => absurd (.inl ⟨key, found⟩) (records_nothing started fact)
  allocated := fun fact recorded => absurd recorded (records_nothing started fact)
  identified := fun fact _ recorded => absurd recorded (records_nothing started fact)
  ascending := by
    rcases Outcome.map_eq_ok.mp started with ⟨clock, _, rfl⟩
    intro time snapshot found
    simp at found

theorem dated_start {time : Nat} {first : World}
    (started : World.start time = .ok first) : first.Dated where
  ordered := fun fact _ recorded => absurd recorded (records_nothing started fact)
  past := fun fact recorded => absurd recorded (records_nothing started fact)

theorem Reachable.consistent {world : World} (reachable : world.Reachable) :
    world.Consistent := by
  rcases reachable with ⟨time, first, operations, started, rfl⟩
  exact (first.leads_performAll operations).consistent (consistent_start started)

theorem ReachableInTime.dated {world : World} (inTime : world.ReachableInTime) :
    world.Dated := by
  rcases inTime with ⟨time, first, operations, started, fits, rfl⟩
  refine ((first.takes_performAll operations).dated (dated_start started)
    (consistent_start started) ?_).1
  rwa [elapsed_start started, Nat.zero_add]

/--
Whatever is done to a world from its start, the store of facts is consistent,
and as long as the minutes that have passed fit 32 bits its facts are dated in
the order of their numbers; and a number below the counter at one time is at all
later times the number of the fact that had it then, if of any.
-/
theorem store_is_consistent {time : Nat} {first : World}
    (started : World.start time = .ok first) (operations : List Operation) :
    (first.performAll operations).Consistent ∧
      ((operations.map Operation.minutes).sum < Text.wordBound →
        (first.performAll operations).Dated) ∧
      ∀ earlier later, operations = earlier ++ later →
        (first.performAll earlier).Precedes (first.performAll operations) ∧
        ∀ fact other, (first.performAll earlier).Records fact →
          (first.performAll operations).Records other →
          fact.id = other.id → fact = other := by
  have consistentAfter : ∀ operations, (first.performAll operations).Consistent := by
    intro operations
    exact Reachable.consistent ⟨time, first, operations, started, rfl⟩
  have datedAfter (fits : (operations.map Operation.minutes).sum < Text.wordBound) :
      (first.performAll operations).Dated :=
    ReachableInTime.dated ⟨time, first, operations, started, fits, rfl⟩
  refine ⟨consistentAfter operations, datedAfter, ?_⟩
  rintro earlier later rfl
  have precedes :
      (first.performAll earlier).Precedes (first.performAll (earlier ++ later)) := by
    rw [performAll_append]
    exact (leads_performAll _ later).precedes
  refine ⟨precedes, ?_⟩
  intro fact other recorded otherRecorded same
  have below : other.id < (first.performAll earlier).nextId := by
    rw [← same]
    exact (consistentAfter earlier).allocated fact recorded
  have known := precedes.known other otherRecorded below
  exact (consistentAfter earlier).identified fact other recorded known same

/-- A load that fails in its second line, a flush, and a snapshot in between. -/
def eveningOperations : List Operation :=
  [.load "CLASS.PEOPLE\tGEORGE, MARTHA\nGEORGE\tDRINKS, LIKES MARTHA AGAIN",
    .snapshot,
    .enqueue [⟨"GEORGE", ⟨"DRINKS", true, none⟩, none⟩, ⟨"MARTHA", .plain "DRINKS", none⟩],
    .advance 10,
    .applyPending]

theorem store_is_consistent_in_evening :
    ∃ first, World.start 1700 = .ok first ∧
      (first.performAll eveningOperations).nextId = 2 ∧
      (first.performAll eveningOperations).Consistent ∧
      (eveningOperations.map Operation.minutes).sum < Text.wordBound ∧
      (first.performAll eveningOperations).Dated ∧
      (first.performAll (eveningOperations.take 2)).Precedes
        (first.performAll eveningOperations) := by
  obtain ⟨first, started⟩ : ∃ first, World.start 1700 = .ok first :=
    Outcome.exists_of_isOk (by decide)
  have promised := store_is_consistent started eveningOperations
  have preceded := promised.2.2 (eveningOperations.take 2) (eveningOperations.drop 2)
    (List.take_append_drop 2 _).symm
  have fits : (eveningOperations.map Operation.minutes).sum < Text.wordBound := by
    decide
  refine ⟨first, started, ?_, promised.1, fits, promised.2.1 fits, preceded.1⟩
  cases started
  decide +kernel

end World

end Fabula
