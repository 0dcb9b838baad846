import Fabula.Project
import Fabula.Proofs.Rendering

/-!
# What frames leave out

The frames of a world list what its chronicle records, no more and no less.  A
run ends with a flush, and a flush files its snapshot before it applies the
effects that wait.  So the facts that the last flush asserts hold when the run
is over, but no snapshot has them, and no frame lists them.
-/

namespace Fabula

open Outcome

/-! ## Frames and snapshots -/

/--
A fact of a snapshot is listed by a frame, unless its number is known before.
The induction is on the snapshots, each of which is known to the next.
-/
theorem Chronicle.listed_or_known {previous : List Fact} {snapshots : List (Nat × List Fact)}
    (identified : ∀ entry ∈ snapshots, ∀ other ∈ snapshots,
      ∀ fact ∈ entry.2, ∀ same ∈ other.2, same.id = fact.id → same = fact)
    {entry : Nat × List Fact} (filed : entry ∈ snapshots) {fact : Fact}
    (member : fact ∈ entry.2) :
    (∃ frame ∈ framesAfter previous snapshots, fact ∈ frame.asserted) ∨
      ∃ earlier ∈ previous, earlier.id = fact.id := by
  induction snapshots generalizing previous with
  | nil => cases filed
  | cons first rest ih =>
      have here (inFirst : fact ∈ first.2) :
          (∃ frame ∈ framesAfter previous (first :: rest), fact ∈ frame.asserted) ∨
            ∃ earlier ∈ previous, earlier.id = fact.id := by
        by_cases known : ∃ earlier ∈ previous, earlier.id = fact.id
        · exact .inr known
        · refine .inl ⟨_, List.mem_cons_self, mem_added.mpr ⟨inFirst, ?_⟩⟩
          intro earlier inPrevious same
          exact known ⟨earlier, inPrevious, same⟩
      rcases List.mem_cons.mp filed with rfl | later
      · exact here member
      · have restIdentified : ∀ entry ∈ rest, ∀ other ∈ rest,
            ∀ fact ∈ entry.2, ∀ same ∈ other.2, same.id = fact.id → same = fact :=
          fun entry inRest other otherInRest =>
            identified entry (List.mem_cons_of_mem _ inRest) other
              (List.mem_cons_of_mem _ otherInRest)
        rcases ih restIdentified later with ⟨frame, inFrames, listed⟩ | ⟨earlier, inFirst, same⟩
        · exact .inl ⟨frame, List.mem_cons_of_mem _ inFrames, listed⟩
        · have equal :=
            identified entry filed first List.mem_cons_self fact member earlier inFirst same
          exact here (equal ▸ inFirst)

namespace World

/-- A frame lists a fact. -/
def Lists (world : World) (fact : Fact) : Prop :=
  ∃ frame ∈ world.frames, fact ∈ frame.asserted

/-- A snapshot has a fact. -/
def Remembers (world : World) (fact : Fact) : Prop :=
  ∃ (time : Nat) (snapshot : List Fact), world.chronicle[time]? = some snapshot ∧ fact ∈ snapshot

theorem Lists.remembered {world : World} {fact : Fact} (lists : world.Lists fact) :
    world.Remembers fact := by
  rcases lists with ⟨frame, inFrames, listed⟩
  rcases List.mem_iff_getElem?.mp inFrames with ⟨place, shown⟩
  rw [frames, Chronicle.frames, Chronicle.getElem?_framesAfter, Option.map_eq_some_iff] at shown
  rcases shown with ⟨⟨time, snapshot⟩, filed, rfl⟩
  exact ⟨time, snapshot,
    Std.TreeMap.mem_toList_iff_getElem?_eq_some.mp (List.mem_of_getElem? filed),
    (Chronicle.mem_added.mp listed).1⟩

theorem Consistent.lists_iff {world : World} (consistent : world.Consistent) {fact : Fact} :
    world.Lists fact ↔ world.Remembers fact := by
  constructor
  · exact Lists.remembered
  · rintro ⟨time, snapshot, filed, member⟩
    have identified : ∀ entry ∈ world.chronicle.toList, ∀ other ∈ world.chronicle.toList,
        ∀ fact ∈ entry.2, ∀ same ∈ other.2, same.id = fact.id → same = fact := by
      rintro ⟨time, snapshot⟩ inList ⟨otherTime, other⟩ otherInList fact member same otherMember
      exact consistent.identified same fact
        (.inr ⟨otherTime, other, Std.TreeMap.mem_toList_iff_getElem?_eq_some.mp otherInList,
          otherMember⟩)
        (.inr ⟨time, snapshot, Std.TreeMap.mem_toList_iff_getElem?_eq_some.mp inList, member⟩)
    have inList : (time, snapshot) ∈ world.chronicle.toList :=
      Std.TreeMap.mem_toList_iff_getElem?_eq_some.mpr filed
    rcases Chronicle.listed_or_known identified inList member with listed | ⟨_, none, _⟩
    · exact listed
    · cases none

end World

namespace Simulation

/-! ## The last flush -/

/-- What a flush remembers, the world before it had recorded. -/
theorem Flush.remembers_iff {before : Simulation} {flushed : World}
    (flush : Flush before flushed) {fact : Fact} :
    flushed.Remembers fact ↔
      fact ∈ before.world.network.facts ∨
        ∃ (time : Nat) (snapshot : List Fact), time ≠ before.world.clock.time ∧
          before.world.chronicle[time]? = some snapshot ∧ fact ∈ snapshot := by
  rw [World.Remembers, flush.chronicle]
  constructor
  · rintro ⟨time, snapshot, filed, member⟩
    rw [Std.TreeMap.getElem?_insert] at filed
    by_cases same : before.world.clock.time = time
    · rw [if_pos (by simp [same])] at filed
      cases filed
      exact .inl member
    · rw [if_neg (by simp [same])] at filed
      exact .inr ⟨time, snapshot, Ne.symm same, filed, member⟩
  · rintro (member | ⟨time, snapshot, other, filed, member⟩)
    · exact ⟨_, _, Std.TreeMap.getElem?_insert_self, member⟩
    · refine ⟨time, snapshot, ?_, member⟩
      rw [Std.TreeMap.getElem?_insert, if_neg (by simp [Ne.symm other])]
      exact filed

/-- What a flush asserts of the facts that hold after it. -/
structure Split (before : Simulation) (flushed : World) (fact : Fact) : Prop where
  remembered : flushed.Remembers fact ↔ fact ∈ before.world.network.facts
  older : fact ∈ before.world.network.facts ↔ fact.assertedElapsed < flushed.clock.elapsed
  spared :
    fact ∈ before.world.network.facts ↔
      ∀ effect ∈ before.world.pending.toList, effect.relation.negated = false →
        effect.key ≠ fact.key

/--
A fact that holds after a flush held before it, and is then in the snapshot that
the flush files, or an effect has asserted it since, and it is as young as the
clock.  The two can be told apart because time passes in a flush.
-/
theorem Flush.split {before : Simulation} {flushed : World} (flush : Flush before flushed)
    (dated : before.world.Dated) (positive : 0 < before.timestep)
    (fits : before.world.clock.elapsed + before.timestep < Text.wordBound) {key : Fact.Key}
    {fact : Fact} (found : flushed.get? key = some fact) (filed : fact.key = key) :
    Split before flushed fact := by
  have past (recorded : before.world.Records fact) :
      fact.assertedElapsed < flushed.clock.elapsed := by
    have earlier := dated.past fact recorded
    rw [flush.elapsed fits]
    omega
  have kept (older : fact.assertedElapsed < flushed.clock.elapsed) :
      fact ∈ before.world.network.facts := by
    rcases flush.origin found with old | ⟨_, stamped, _⟩
    · exact Network.mem_facts.mpr ⟨key, old⟩
    · exact absurd stamped (Nat.ne_of_lt older)
  have older : fact ∈ before.world.network.facts ↔
      fact.assertedElapsed < flushed.clock.elapsed :=
    ⟨fun member => past (World.records_of_mem_facts member), kept⟩
  refine ⟨?_, older, ?_⟩
  · rw [flush.remembers_iff]
    constructor
    · rintro (member | ⟨time, snapshot, _, inChronicle, member⟩)
      · exact member
      · exact kept (past (.inr ⟨time, snapshot, inChronicle, member⟩))
    · exact .inl
  · constructor
    · intro member effect waits affirms same
      have revised : flushed.contents.fact key = some fact := found
      rw [flush.contents, ← filed, ← same] at revised
      have stamped := Contents.stamped_of_foldl_revise waits affirms revised
      exact Nat.ne_of_lt (older.mp member) stamped
    · intro spared
      rcases flush.origin found with old | ⟨_, _, effect, waits, affirms, same⟩
      · exact Network.mem_facts.mpr ⟨key, old⟩
      · exact absurd same.symm (spared effect waits affirms)

/--
After a run in minutes that fit 32 bits, the frames list a fact that holds exactly
if it held before the flush that ends the run, and so do the snapshots.  The facts
that this flush has asserted, those that are as young as the clock, are in no
snapshot and no frame.
-/
theorem frames_list_all_but_last_flush {rules : List Rule} {world : World} {lexicon : Lexicon}
    {configuration : Configuration} {source : Source} {simulation : Simulation}
    (reachable : world.ReachableInTime)
    (created : create rules world lexicon configuration source = .ok simulation)
    {count : Nat}
    (fits : world.clock.elapsed + (count + 1) * configuration.timestep < Text.wordBound)
    {reports : List Tick} {after : Simulation} (ran : run count simulation = .ok reports after) :
    ∃ last summary,
      ticks count simulation = .ok reports last ∧ terminate last = .ok summary after ∧
        ∀ fact ∈ after.world.network.facts,
          (after.world.Lists fact ↔ fact.assertedElapsed < after.world.clock.elapsed) ∧
            (after.world.Remembers fact ↔
              fact.assertedElapsed < after.world.clock.elapsed) ∧
            (fact.assertedElapsed < after.world.clock.elapsed ↔
              fact ∈ last.world.network.facts) ∧
            (fact ∈ last.world.network.facts ↔
              ∀ effect ∈ last.world.pending.toList, effect.relation.negated = false →
                effect.key ≠ fact.key) := by
  have positive := timestep_pos_of_create created
  rcases create_eq_ok.mp created with ⟨_, _, _, rfl⟩
  rcases run_bind_eq_ok.mp ran with ⟨reported, last, ticked, ended⟩
  rcases run_bind_eq_ok.mp ended with ⟨summary, _, terminated, returned⟩
  cases returned
  refine ⟨last, summary, ticked, terminated, ?_⟩
  rcases ticks_trace ticked with ⟨passed, trace⟩
  rcases terminate_eq_ok.mp terminated with ⟨_, rfl⟩
  have takes := trace.takes
  rw [List.length_replicate] at takes
  rw [Nat.succ_mul, ← Nat.add_assoc] at fits
  rcases takes.dated reachable.dated reachable.reachable.consistent
    (Nat.lt_of_le_of_lt (Nat.le_add_right _ _) fits) with ⟨dated, elapsed⟩
  have consistent := (takes.trans (advance_takes last)).leads.consistent
    reachable.reachable.consistent
  have stillFits : last.world.clock.elapsed + last.timestep < Text.wordBound := by
    rwa [elapsed, trace.timestep]
  intro fact holds
  rcases Network.mem_facts.mp holds with ⟨key, found⟩
  have split :=
    (advance_flushes last).split dated (trace.timestep.symm ▸ positive) stillFits found
      (consistent.filed key fact found)
  refine ⟨?_, split.remembered.trans split.older, split.older.symm, split.spared⟩
  rw [consistent.lists_iff]
  exact split.remembered.trans split.older

/-- Martha is tired, and falls asleep in each of two ticks; no frame lists the second sleep. -/
theorem frames_list_all_but_last_flush_at_bedtime :
    ∃ rules world lexicon simulation reports after,
      Script.readRules ("$RULE " ++ bedtimeRule) = .ok rules ∧
      Project.openWorld 1700 "MARTHA\tTIRED" = .ok world ∧
      Lexicon.read "MARTHA: Martha\nASLEEP: is asleep" = .ok lexicon ∧
      create rules world lexicon Configuration.default (.ofStep 0 0) = .ok simulation ∧
      run 2 simulation = .ok reports after ∧
      after.world.network.inKeyOrder.map (fun fact => (fact.key.relation, fact.assertedElapsed)) =
        [("ASLEEP", 30), ("TIRED", 0)] ∧
      ∀ fact ∈ after.world.network.facts,
        (after.world.Lists fact ↔ fact.assertedElapsed < 30) := by
  have accepted :
      ([bedtimeRule.toList].mapM Script.readRule >>= fun rules =>
        Project.openWorld 1700 "MARTHA\tTIRED" >>= fun world =>
        Lexicon.read "MARTHA: Martha\nASLEEP: is asleep" >>= fun lexicon =>
        (create rules world lexicon Configuration.default (.ofStep 0 0)).map fun simulation =>
        let after := endState (run 2 simulation)
        (succeeded (run 2 simulation),
          after.world.network.inKeyOrder.map fun fact =>
            (fact.key.relation, fact.assertedElapsed),
          after.world.clock.elapsed)) =
      .ok (true, [("ASLEEP", 30), ("TIRED", 0)], 30) := by
    decide +kernel
  rw [← definitions_bedtimeRule] at accepted
  rcases bind_eq_ok.mp accepted with ⟨rules, read, accepted⟩
  rcases bind_eq_ok.mp accepted with ⟨world, opened, accepted⟩
  rcases bind_eq_ok.mp accepted with ⟨lexicon, lexiconRead, accepted⟩
  rcases map_eq_ok.mp accepted with ⟨simulation, created, accepted⟩
  simp only [Prod.mk.injEq] at accepted
  rcases accepted with ⟨ended, facts, elapsed⟩
  rcases exists_of_succeeded ended with ⟨reports, after, ran⟩
  rw [ran] at facts elapsed
  have fits :
      world.clock.elapsed + (2 + 1) * Configuration.default.timestep < Text.wordBound := by
    rw [(World.fresh_of_openWorld opened).1]
    decide
  rcases frames_list_all_but_last_flush (World.reachableInTime_of_openWorld opened) created fits
    ran with ⟨_, _, _, _, known⟩
  refine ⟨rules, world, lexicon, simulation, reports, after, read, opened, lexiconRead, created,
    ran, facts, ?_⟩
  intro fact holds
  have listed := (known fact holds).1
  rwa [show after.world.clock.elapsed = 30 from elapsed] at listed

/--
The effects of the last tick hold after a run that ends in the evening, although
no snapshot has them and no frame lists them.
-/
theorem last_effects_are_in_no_frame :
    ∃ rules lexicon simulation reports after fact,
      Script.readRules ("$RULE " ++ bedtimeRule) = .ok rules ∧
      Lexicon.read "MARTHA: Martha\nASLEEP: is asleep" = .ok lexicon ∧
      bedroom.chronicle = ∅ ∧
      create rules bedroom lexicon Configuration.default (.ofStep 0 0) = .ok simulation ∧
      run 1 simulation = .ok reports after ∧
      after.world.chronicle.toList = [(1700, []), (1710, [])] ∧ after.world.clock.time = 1720 ∧
      after.world.get? ⟨"MARTHA", "ASLEEP", none⟩ = some fact ∧
      ¬after.world.Lists fact ∧ ¬after.world.Remembers fact := by
  have accepted :
      ([bedtimeRule.toList].mapM Script.readRule >>= fun rules =>
        Lexicon.read "MARTHA: Martha\nASLEEP: is asleep" >>= fun lexicon =>
        (create rules bedroom lexicon Configuration.default (.ofStep 0 0)).map fun simulation =>
        let after := endState (run 1 simulation)
        (succeeded (run 1 simulation) && (after.world.get? ⟨"MARTHA", "ASLEEP", none⟩).isSome,
          after.world.chronicle.toList, after.world.clock.time)) =
      .ok (true, [(1700, []), (1710, [])], 1720) := by
    decide +kernel
  rw [← definitions_bedtimeRule] at accepted
  rcases bind_eq_ok.mp accepted with ⟨rules, read, accepted⟩
  rcases bind_eq_ok.mp accepted with ⟨lexicon, lexiconRead, accepted⟩
  rcases map_eq_ok.mp accepted with ⟨simulation, created, accepted⟩
  simp only [Prod.mk.injEq, Bool.and_eq_true] at accepted
  rcases accepted with ⟨⟨ended, asleep⟩, chronicle, time⟩
  rcases exists_of_succeeded ended with ⟨reports, after, ran⟩
  rw [ran] at asleep chronicle time
  rcases Option.isSome_iff_exists.mp asleep with ⟨fact, found⟩
  have forgotten : ¬after.world.Remembers fact := by
    rintro ⟨time, snapshot, filed, member⟩
    have inList := Std.TreeMap.mem_toList_iff_getElem?_eq_some.mpr filed
    rw [show after.world.chronicle.toList = [(1700, []), (1710, [])] from chronicle] at inList
    rcases List.mem_pair.mp inList with entry | entry <;> cases entry <;> cases member
  exact ⟨rules, lexicon, simulation, reports, after, fact, read, lexiconRead, rfl, created, ran,
    chronicle, time, found, fun lists => forgotten lists.remembered, forgotten⟩

end Simulation

end Fabula
