import Fabula.Proofs.Clock
import Fabula.Proofs.Consistency
import Fabula.Proofs.Trace
import Mathlib.Data.List.Sort

/-!
# What the chronicle holds after some steps

Every step files a snapshot under the reading at which it begins.  A snapshot
that is filed later under the same reading takes the place of the earlier one;
so the chronicle lists all snapshots, in the order of the steps, if and only
if the readings ascend.
-/

namespace Fabula

/-! ## Filing snapshots -/

namespace Chronicle

/-- File snapshots one after another. -/
def file (chronicle : Chronicle) (entries : List (Nat × List Fact)) : Chronicle :=
  entries.foldl (fun chronicle entry => chronicle.insert entry.1 entry.2) chronicle

/-- Under a reading stands what was filed last. -/
theorem getElem?_file (chronicle : Chronicle) (entries : List (Nat × List Fact))
    (time : Nat) :
    (chronicle.file entries)[time]? =
      ((entries.reverse.find? fun entry => entry.1 == time).map Prod.snd).or
        chronicle[time]? := by
  induction entries generalizing chronicle with
  | nil => simp [file]
  | cons entry rest ih =>
      have step :
          chronicle.file (entry :: rest) =
            file (chronicle.insert entry.1 entry.2) rest := by
        rfl
      rw [step, ih, List.reverse_cons, List.find?_append]
      cases rest.reverse.find? fun entry => entry.1 == time with
      | some later => rfl
      | none =>
          by_cases same : entry.1 = time
          · simp [same]
          · simp [same, Std.TreeMap.getElem?_insert]

theorem ascending_toList (chronicle : Chronicle) :
    chronicle.toList.Pairwise fun left right => left.1 < right.1 := by
  apply chronicle.ordered_keys_toList.imp
  intro left right compared
  exact Nat.compare_eq_lt.mp compared

theorem toList_insert_last {chronicle : Chronicle} {entry : Nat × List Fact}
    (last : ∀ other ∈ chronicle.toList, other.1 < entry.1) :
    (chronicle.insert entry.1 entry.2).toList = chronicle.toList ++ [entry] := by
  have absent : chronicle[entry.1]? = none := by
    apply Option.eq_none_iff_forall_ne_some.mpr
    intro facts found
    have below := last _ (Std.TreeMap.mem_toList_iff_getElem?_eq_some.mpr found)
    exact Nat.lt_irrefl _ below
  have ascending :
      (chronicle.toList ++ [entry]).Pairwise fun left right => left.1 < right.1 := by
    rw [List.pairwise_append]
    refine ⟨chronicle.ascending_toList, List.pairwise_singleton _ _, ?_⟩
    intro other member same only
    rw [List.mem_singleton.mp only]
    exact last other member
  have irreflexive : Std.Irrefl fun left right : Nat × List Fact => left.1 < right.1 :=
    ⟨fun _ => Nat.lt_irrefl _⟩
  have antisymmetric :
      Std.Antisymm fun left right : Nat × List Fact => left.1 < right.1 :=
    ⟨fun _ _ less greater => absurd greater (Nat.lt_asymm less)⟩
  apply (ascending_toList _).eq_of_mem_iff ascending
  rintro ⟨time, facts⟩
  rw [Std.TreeMap.mem_toList_iff_getElem?_eq_some, Std.TreeMap.getElem?_insert,
    List.mem_append, Std.TreeMap.mem_toList_iff_getElem?_eq_some, List.mem_singleton]
  by_cases same : entry.1 = time
  · rw [← same, absent]
    simp [Prod.ext_iff, eq_comm]
  · have other : (time, facts) ≠ entry := by
      rintro rfl
      exact same rfl
    simp [same, other]

/-- Snapshots that are filed under ascending readings are listed in the order of filing. -/
theorem toList_file {chronicle : Chronicle} {entries : List (Nat × List Fact)}
    (ascending :
      (chronicle.toList ++ entries).Pairwise fun left right => left.1 < right.1) :
    (chronicle.file entries).toList = chronicle.toList ++ entries := by
  induction entries generalizing chronicle with
  | nil => simp [file]
  | cons entry rest ih =>
      have last : ∀ other ∈ chronicle.toList, other.1 < entry.1 := by
        intro other member
        have apart := (List.pairwise_append.mp ascending).2.2
        exact apart other member entry List.mem_cons_self
      have inserted := toList_insert_last last
      have regrouped :
          chronicle.toList ++ entry :: rest =
            (chronicle.insert entry.1 entry.2).toList ++ rest := by
        rw [inserted, List.append_assoc, List.singleton_append]
      rw [regrouped] at ascending ⊢
      exact ih ascending

/-- A new chronicle lists what was filed, in this order, if and only if the readings ascend. -/
theorem toList_file_eq_iff (entries : List (Nat × List Fact)) :
    (file ∅ entries).toList = entries ↔ (entries.map Prod.fst).IsChain (· < ·) := by
  rw [List.isChain_iff_pairwise, List.pairwise_map]
  constructor
  · intro listed
    rw [← listed]
    exact ascending_toList _
  · intro ascending
    have nothing : (∅ : Chronicle).toList = [] := by
      rfl
    have started :
        ((∅ : Chronicle).toList ++ entries).Pairwise
          fun left right => left.1 < right.1 := by
      rw [nothing, List.nil_append]
      exact ascending
    rw [toList_file started, nothing, List.nil_append]

end Chronicle

/-! ## Clocks of reachable worlds -/

namespace World

theorem Leads.regular {before after : World} (leads : before.Leads after)
    (regular : before.clock.Regular) : after.clock.Regular := by
  rcases leads with ⟨changes, rfl⟩
  have preserved : ∀ change ∈ changes, ∀ world : World,
      world.clock.Regular → (change.apply world).clock.Regular := by
    intro change _ world earlier
    cases change with
    | advance minutes => exact Clock.advance_regular _ minutes
    | define name members => exact earlier
    | assert key => exact earlier
    | retract key => exact earlier
    | queue effects => exact earlier
    | clear => exact earlier
    | snapshot => exact earlier
  exact World.change_preserves preserved regular

theorem Reachable.regular {world : World} (reachable : world.Reachable) :
    world.clock.Regular := by
  rcases reachable with ⟨time, first, operations, started, rfl⟩
  apply (first.leads_performAll operations).regular
  rcases Outcome.map_eq_ok.mp started with ⟨clock, set, rfl⟩
  exact Clock.set_regular set

end World

/-! ## The chronicle after some steps -/

namespace Simulation

/-- What a step files: its facts under its clock reading. -/
def entry (simulation : Simulation) : Nat × List Fact :=
  (simulation.world.clock.time, simulation.world.network.facts)

namespace Trace

variable {before after : Simulation} {steps : List Step} {replies : List Reply}
  {passed : List Simulation}

theorem chronicle (trace : Trace before steps replies passed after) :
    after.world.chronicle = before.world.chronicle.file (passed.map entry) := by
  induction trace with
  | nil => rfl
  | cons performed _ ih =>
      rcases perform_flushes performed with ⟨flushed, pending, source, flush, rfl⟩
      rw [ih]
      show flushed.chronicle.file _ = _
      rw [flush.chronicle]
      rfl

theorem clocks (trace : Trace before steps replies passed after) :
    passed.map (·.world.clock) =
      Clock.clocks before.timestep before.world.clock steps.length := by
  induction trace with
  | nil => rfl
  | cons performed _ ih =>
      rcases perform_flushes performed with ⟨flushed, pending, source, flush, rfl⟩
      rw [List.length_cons, Clock.clocks_succ, ← flush.clock, List.map_cons, ih]

theorem readings (trace : Trace before steps replies passed after) :
    (passed.map entry).map Prod.fst =
      Clock.readings before.timestep before.world.clock steps.length := by
  rw [Clock.readings, ← trace.clocks, List.map_map, List.map_map]
  rfl

end Trace

theorem timestep_pos_of_create {rules : List Rule} {world : World} {lexicon : Lexicon}
    {configuration : Configuration} {source : Source} {simulation : Simulation}
    (created : create rules world lexicon configuration source = .ok simulation) :
    0 < configuration.timestep := by
  rcases create_eq_ok.mp created with ⟨valid, _, _, _⟩
  rw [Configuration.validate] at valid
  split at valid
  · cases valid
  · rename_i some
    apply Nat.pos_of_ne_zero
    simpa using some

/--
After some steps the chronicle has, for every reading at which a step began,
the facts before the last of these steps, in the order of their numbers.  If no
step overflows the minutes of the reading, the chronicle has one snapshot for
each step, in the order of the steps, if and only if the clock has not fallen
back to 24 hours before the last step, except perhaps from below it to begin the
last step.
-/
theorem chronicle_after_steps {rules : List Rule} {world : World} {lexicon : Lexicon}
    {configuration : Configuration} {source : Source} {simulation : Simulation}
    (reachable : world.Reachable) (unwritten : world.chronicle = ∅)
    (created : create rules world lexicon configuration source = .ok simulation)
    {steps : List Step} {replies : List Reply} {passed : List Simulation}
    {after : Simulation} (trace : Trace simulation steps replies passed after) :
    passed.length = steps.length ∧
      (∀ state ∈ passed,
        state.world.network.facts.Pairwise fun left right => left.id < right.id) ∧
      (∀ time : Nat,
        after.world.chronicle[time]? =
          ((passed.map entry).reverse.find? fun entry => entry.1 == time).map Prod.snd) ∧
      ((∀ state ∈ passed,
          state.world.clock.minute + configuration.timestep < Text.wordBound) →
        (after.world.chronicle.toList = passed.map entry ↔
          world.clock.minutes + (steps.length - 1) * configuration.timestep < 1500 ∨
            world.clock.minutes + (steps.length - 2) * configuration.timestep < 1440)) := by
  have positive := timestep_pos_of_create created
  rcases create_eq_ok.mp created with ⟨_, _, _, rfl⟩
  have filed : after.world.chronicle = Chronicle.file ∅ (passed.map entry) := by
    rw [trace.chronicle, unwritten]
  refine ⟨trace.length_passed, ?_, ?_, ?_⟩
  · intro state member
    exact ((trace.leads state member).consistent reachable.consistent).pairwise_facts
  · intro time
    rw [filed, Chronicle.getElem?_file]
    simp
  · intro fits
    rw [filed, Chronicle.toList_file_eq_iff, trace.readings]
    apply Clock.readings_ascend_iff reachable.regular positive
    rw [← trace.clocks, List.forall_mem_map]
    exact fits

/-- A world late in the evening, in which a fact holds. -/
def lateEvening (time : Nat) : World :=
  ({ clock := { time, elapsed := 0 }
     network := .empty
     classes := ∅
     pending := #[]
     nextId := 0
     chronicle := ∅ } : World).assertFact ⟨"GEORGE", "SLEEPS", none⟩

theorem lateEvening_reachable {time : Nat} (valid : isClockTime time) :
    (lateEvening time).Reachable := by
  refine ⟨time, _, [.assertFact ⟨"GEORGE", "SLEEPS", none⟩], ?_, rfl⟩
  rw [World.start, Clock.set, if_pos valid]
  rfl

theorem chronicle_after_steps_of_lateEvening :
    ∃ simulation replies passed after,
      create [] (lateEvening 2330) ∅ { Configuration.default with timestep := 20 }
          (.ofSeed 7) =
        .ok simulation ∧
      Trace simulation [.tick, .terminate, .tick] replies passed after ∧
      passed.length = 3 ∧
      (∀ state ∈ passed, state.world.clock.minute + 20 < Text.wordBound) ∧
      after.world.chronicle.toList = passed.map entry := by
  have reachable : (lateEvening 2330).Reachable := lateEvening_reachable (by decide)
  obtain ⟨simulation, created⟩ :
      ∃ simulation,
        create [] (lateEvening 2330) ∅ { Configuration.default with timestep := 20 }
            (.ofSeed 7) =
          .ok simulation :=
    Outcome.exists_of_isOk (by decide +kernel)
  obtain ⟨replies, after, performed⟩ :
      ∃ replies after,
        [Step.tick, .terminate, .tick].mapM Step.perform simulation = .ok replies after := by
    cases created
    exact Outcome.exists_of_succeeded (by decide +kernel)
  rcases trace_of_mapM performed with ⟨passed, trace⟩
  have promised := chronicle_after_steps reachable rfl created trace
  have fits : ∀ state ∈ passed, state.world.clock.minute + 20 < Text.wordBound := by
    intro state member
    have regular : simulation.world.clock.Regular := by
      rcases create_eq_ok.mp created with ⟨_, _, _, rfl⟩
      exact reachable.regular
    have minute := ((trace.leads state member).regular regular).minute
    rw [Text.wordBound]
    omega
  refine ⟨simulation, replies, passed, after, created, trace, promised.1, fits, ?_⟩
  exact (promised.2.2.2 fits).mpr (.inl (by decide +kernel))

/--
From 24 hours on, a second step an hour later files its snapshot in the place
of the first one.
-/
theorem chronicle_loses_snapshot :
    (lateEvening 2400).Reachable ∧ (lateEvening 2400).chronicle = ∅ ∧
    ∃ simulation replies passed after,
      create [] (lateEvening 2400) ∅ { Configuration.default with timestep := 60 }
          (.ofSeed 7) =
        .ok simulation ∧
      Trace simulation [.terminate, .terminate] replies passed after ∧
      after.world.chronicle.size = 1 := by
  refine ⟨lateEvening_reachable (by decide), rfl, ?_⟩
  obtain ⟨simulation, created⟩ :
      ∃ simulation,
        create [] (lateEvening 2400) ∅ { Configuration.default with timestep := 60 }
            (.ofSeed 7) =
          .ok simulation :=
    Outcome.exists_of_isOk (by decide +kernel)
  refine ⟨simulation, [.flushed simulation.advance.2, .flushed simulation.advance.1.advance.2],
    [simulation, simulation.advance.1], simulation.advance.1.advance.1, created,
    .cons rfl (.cons rfl .nil), ?_⟩
  cases created
  decide +kernel

end Simulation

end Fabula
