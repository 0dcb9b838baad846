import Fabula.Proofs.Consistency
import Mathlib.Algebra.GroupWithZero.Nat

/-!
# How long facts have held

A fact is stamped with the minutes that have passed when it is asserted, and
its age is what the clock has passed since.  So the truth of a statement, which
is a test of stamps, says something about all that was done to the world: which
change was the last to touch the fact, and which minutes have passed since.  The
main statement puts this in terms of the log of operations.
-/

namespace Fabula

open Outcome

/-! ## Changes that touch a fact -/

namespace Change

/-- Whether a change asserts or removes the fact with a key. -/
def Touches (key : Fact.Key) : Change → Prop
  | assert other => other = key
  | retract other => other = key
  | _ => False

instance (key : Fact.Key) : DecidablePred (Touches key) := fun change => by
  cases change <;> unfold Touches <;> infer_instance

end Change

/--
After some changes a statement is upheld, its negation aside: the last of them
that touches its fact asserts it, and the minutes that have passed since are as
the relation demands.
-/
def Statement.Upheld (statement : Statement String) (changes : List Change) : Prop :=
  ∃ before after,
    changes = before ++ .assert statement.key :: after ∧
    (∀ change ∈ after, ¬change.Touches statement.key) ∧
    ∀ duration, statement.relation.duration = some duration →
      duration.admits (after.map Change.minutes).sum

namespace World

/-! ## Ages -/

/-- The age of the fact with a key. -/
def age? (world : World) (key : Fact.Key) : Option Nat :=
  (world.get? key).map (·.age world.clock.elapsed)

theorem qualifies_iff {world : World} {statement : Statement String} :
    world.qualifies statement ↔
      ∃ age, world.age? statement.key = some age ∧
        ∀ duration, statement.relation.duration = some duration → duration.admits age := by
  rw [qualifies, age?]
  cases world.get? statement.key with
  | none => simp
  | some fact =>
      cases statement.relation.duration with
      | none => simp
      | some duration => simp

theorem age?_assertFact (world : World) (key : Fact.Key) :
    (world.assertFact key).age? key = some 0 := by
  rw [age?, get?_assertFact, if_pos rfl]
  exact congrArg some (Nat.sub_self _)

theorem age?_retractFact (world : World) (key : Fact.Key) :
    (world.retractFact key).age? key = none := by
  rw [age?, get?_retractFact, if_pos rfl]
  rfl

theorem age?_apply {world : World} (dated : world.Dated) {change : Change} {key : Fact.Key}
    (untouched : ¬change.Touches key)
    (fits : world.clock.elapsed + change.minutes < Text.wordBound) :
    (change.apply world).age? key = (world.age? key).map (· + change.minutes) := by
  have unchanged : (change.apply world).get? key = world.get? key := by
    cases change with
    | assert other =>
        have apart : key ≠ other := fun same => untouched same.symm
        exact (get?_assertFact world other key).trans (if_neg apart)
    | retract other =>
        have apart : key ≠ other := fun same => untouched same.symm
        exact (get?_retractFact world other key).trans (if_neg apart)
    | define name members => rfl
    | queue effects => rfl
    | clear => rfl
    | advance minutes => rfl
    | snapshot => rfl
  rw [age?, age?, unchanged, elapsed_apply fits, Option.map_map]
  apply Option.map_congr
  intro fact found
  have past : fact.assertedElapsed ≤ world.clock.elapsed :=
    dated.past fact (.inl ⟨key, found⟩)
  show world.clock.elapsed + change.minutes - fact.assertedElapsed =
    world.clock.elapsed - fact.assertedElapsed + change.minutes
  omega

theorem age?_change {world : World} (dated : world.Dated) (consistent : world.Consistent)
    {changes : List Change} {key : Fact.Key}
    (untouched : ∀ change ∈ changes, ¬change.Touches key)
    (fits : world.clock.elapsed + (changes.map Change.minutes).sum < Text.wordBound) :
    (world.change changes).age? key =
      (world.age? key).map (· + (changes.map Change.minutes).sum) := by
  induction changes generalizing world with
  | nil => simp [change]
  | cons first rest ih =>
      rw [List.forall_mem_cons] at untouched
      rw [List.map_cons, List.sum_cons, ← Nat.add_assoc] at fits
      have firstFits : world.clock.elapsed + first.minutes < Text.wordBound :=
        Nat.lt_of_le_of_lt (Nat.le_add_right _ _) fits
      have step : world.change (first :: rest) = (first.apply world).change rest := by
        rfl
      rw [← elapsed_apply firstFits] at fits
      rw [step, ih (dated.apply consistent firstFits) (consistent.apply first) untouched.2 fits,
        age?_apply dated untouched.1 firstFits, Option.map_map, List.map_cons, List.sum_cons]
      apply Option.map_congr
      intro age _
      exact Nat.add_assoc _ _ _

theorem last_touch (key : Fact.Key) (changes : List Change) :
    (∀ change ∈ changes, ¬change.Touches key) ∨
      ∃ before last after,
        changes = before ++ last :: after ∧ last.Touches key ∧
          ∀ change ∈ after, ¬change.Touches key := by
  cases found : changes.reverse.find? fun change => change.Touches key with
  | none =>
      left
      simpa using found
  | some last =>
      right
      rcases List.find?_eq_some_iff_append.mp found with ⟨touches, after, before, split, untouched⟩
      refine ⟨before.reverse, last, after.reverse, ?_, by simpa using touches, ?_⟩
      · rw [← List.reverse_reverse changes, split]
        simp
      · simpa using untouched

theorem age?_after_last {world : World} (dated : world.Dated) (consistent : world.Consistent)
    {key : Fact.Key} {before after : List Change} {last : Change}
    (untouched : ∀ change ∈ after, ¬change.Touches key)
    (fits :
      world.clock.elapsed + ((before ++ last :: after).map Change.minutes).sum < Text.wordBound) :
    (world.change (before ++ last :: after)).age? key =
      ((last.apply (world.change before)).age? key).map
        (· + (after.map Change.minutes).sum) := by
  have upToLast : last.apply (world.change before) = world.change (before ++ [last]) :=
    (change_append world before [last]).symm
  rw [List.append_cons, List.map_append, List.sum_append, ← Nat.add_assoc] at fits
  have firstFits := Nat.lt_of_le_of_lt (Nat.le_add_right _ _) fits
  rcases dated.change consistent firstFits with ⟨stillDated, elapsed⟩
  rw [upToLast, List.append_cons, change_append]
  rw [← elapsed] at fits
  exact age?_change stillDated (consistent.change _) untouched fits

/--
The fact has an age if and only if the last change that touches it asserts it,
and then its age is the minutes that have passed since.
-/
theorem age?_change_eq_some_iff {world : World} (dated : world.Dated)
    (consistent : world.Consistent) {key : Fact.Key} (absent : world.get? key = none)
    {changes : List Change}
    (fits : world.clock.elapsed + (changes.map Change.minutes).sum < Text.wordBound) (age : Nat) :
    (world.change changes).age? key = some age ↔
      ∃ before after,
        changes = before ++ .assert key :: after ∧
        (∀ change ∈ after, ¬change.Touches key) ∧
        (after.map Change.minutes).sum = age := by
  constructor
  · intro aged
    rcases last_touch key changes with untouched | ⟨before, last, after, rfl, touches, untouched⟩
    · rw [age?_change dated consistent untouched fits, age?, absent] at aged
      cases aged
    · rw [age?_after_last dated consistent untouched fits] at aged
      cases last with
      | assert other =>
          cases touches
          rw [Change.apply, age?_assertFact, Option.map_some, Nat.zero_add] at aged
          exact ⟨before, after, rfl, untouched, Option.some.inj aged⟩
      | retract other =>
          cases touches
          rw [Change.apply, age?_retractFact] at aged
          cases aged
      | define name members => cases touches
      | queue effects => cases touches
      | clear => cases touches
      | advance minutes => cases touches
      | snapshot => cases touches
  · rintro ⟨before, after, rfl, untouched, rfl⟩
    rw [age?_after_last dated consistent untouched fits, Change.apply, age?_assertFact,
      Option.map_some, Nat.zero_add]

theorem qualifies_change_iff {world : World} (dated : world.Dated)
    (consistent : world.Consistent) {statement : Statement String}
    (absent : world.get? statement.key = none) {changes : List Change}
    (fits : world.clock.elapsed + (changes.map Change.minutes).sum < Text.wordBound) :
    (world.change changes).qualifies statement ↔ statement.Upheld changes := by
  rw [qualifies_iff]
  constructor
  · rintro ⟨age, aged, admitted⟩
    rcases (age?_change_eq_some_iff dated consistent absent fits age).mp aged with
      ⟨before, after, split, untouched, rfl⟩
    exact ⟨before, after, split, untouched, admitted⟩
  · rintro ⟨before, after, split, untouched, admitted⟩
    exact ⟨_, (age?_change_eq_some_iff dated consistent absent fits _).mpr
      ⟨before, after, split, untouched, rfl⟩, admitted⟩

/-! ## The log and the clock -/

/-- Two worlds in which the same classes are defined and the same effects wait. -/
structure Akin (world other : World) : Prop where
  classes : world.classes = other.classes
  pending : world.pending = other.pending

theorem Akin.apply {world other : World} (akin : world.Akin other) (change : Change) :
    (change.apply world).Akin (change.apply other) := by
  rcases akin with ⟨classes, pending⟩
  cases change with
  | define name members => exact ⟨congrArg (·.extend name members) classes, pending⟩
  | queue effects =>
      exact ⟨classes, congrArg (fun waiting : Array Effect => waiting ++ effects) pending⟩
  | clear => exact ⟨classes, rfl⟩
  | assert key => exact ⟨classes, pending⟩
  | retract key => exact ⟨classes, pending⟩
  | advance minutes => exact ⟨classes, pending⟩
  | snapshot => exact ⟨classes, pending⟩

theorem Akin.change {world other : World} (akin : world.Akin other) (changes : List Change) :
    (world.change changes).Akin (other.change changes) := by
  induction changes generalizing world other with
  | nil => exact akin
  | cons change rest ih => exact ih (akin.apply change)

theorem Akin.through {α : Type} {step : World → α → Progress}
    (same : ∀ value (world other : World), world.Akin other → step world value = step other value)
    {world other : World} (akin : world.Akin other) (values : List α) :
    Progress.through step world values = Progress.through step other values := by
  induction values generalizing world other with
  | nil => rfl
  | cons value rest ih =>
      rw [Progress.through, Progress.through, same value world other akin]
      exact congrArg _ (ih (akin.change _))

theorem Akin.lineProgress {world other : World} (akin : world.Akin other) (raw : List Char) :
    world.lineProgress raw = other.lineProgress raw := by
  have sameMembers : world.resolveMember = other.resolveMember := by
    funext member
    simp only [resolveMember, members, akin.classes]
  have sameClass : world.classProgress = other.classProgress := by
    funext name body
    simp only [classProgress, resolveMembers, sameMembers]
  have sameFacts (subject : List Char) (clauses : List (List Char)) :
      Progress.through (fun _ clause => clauseProgress subject clause) world clauses =
        Progress.through (fun _ clause => clauseProgress subject clause) other clauses :=
    akin.through (fun _ _ _ _ => rfl) clauses
  simp only [World.lineProgress, sameClass, sameFacts]

/-- Which changes operations make depends on the classes and the effects that wait, on no clock. -/
theorem Akin.log {world other : World} (akin : world.Akin other) (operations : List Operation) :
    world.log operations = other.log operations := by
  induction operations generalizing world other with
  | nil => rfl
  | cons operation rest ih =>
      have sameChanges : operation.changes world = operation.changes other := by
        cases operation with
        | applyPending => simp only [Operation.changes, akin.pending]
        | load text =>
            have sameProgress : world.loadProgress text = other.loadProgress text :=
              akin.through (fun numbered _ _ akin => akin.lineProgress numbered.1) _
            simp only [Operation.changes, sameProgress]
        | defineClass name members => rfl
        | assertFact key => rfl
        | retractFact key => rfl
        | enqueue effects => rfl
        | advance minutes => rfl
        | snapshot => rfl
      have stillAkin : (operation.perform world).Akin (operation.perform other) := by
        rw [operation.perform_eq_change, operation.perform_eq_change, sameChanges]
        exact akin.change _
      rw [World.log, World.log, sameChanges, ih stillAkin]

theorem akin_start {time otherTime : Nat} {world other : World}
    (started : World.start time = .ok world) (otherStarted : World.start otherTime = .ok other) :
    world.Akin other := by
  rcases map_eq_ok.mp started with ⟨clock, _, rfl⟩
  rcases map_eq_ok.mp otherStarted with ⟨otherClock, _, rfl⟩
  exact ⟨rfl, rfl⟩

/-! ## Truth -/

/--
Whatever is done to a world from its start, in minutes whose sum fits 32 bits, a
statement is true if and only if the changes made uphold it, or, if it is
negated, do not.  Minutes are counted as they pass; at which reading the clock
was set does not matter.
-/
theorem satisfies_iff_upheld {time : Nat} {first : World}
    (started : World.start time = .ok first) {operations : List Operation}
    (fits : (operations.map Operation.minutes).sum < Text.wordBound)
    (statement : Statement String) :
    ((first.performAll operations).satisfies statement ↔
      if statement.relation.negated then ¬statement.Upheld (first.log operations)
      else statement.Upheld (first.log operations)) ∧
    ∀ otherTime other, World.start otherTime = .ok other →
      (other.performAll operations).satisfies statement =
        (first.performAll operations).satisfies statement := by
  have upheld {time : Nat} {world : World} (started : World.start time = .ok world) :
      (world.performAll operations).qualifies statement ↔
        statement.Upheld (world.log operations) := by
    have absent : world.get? statement.key = none := by
      apply Option.eq_none_iff_forall_ne_some.mpr
      intro fact found
      exact records_nothing started fact (.inl ⟨_, found⟩)
    have logFits :
        world.clock.elapsed + ((world.log operations).map Change.minutes).sum <
          Text.wordBound := by
      rwa [elapsed_start started, Nat.zero_add, minutes_log]
    rw [performAll_eq_change]
    exact qualifies_change_iff (dated_start started) (consistent_start started) absent logFits
  constructor
  · rw [satisfies, ← upheld started]
    cases statement.relation.negated <;> simp
  · intro otherTime other otherStarted
    have sameLog := (akin_start otherStarted started).log operations
    have sameTruth :
        (other.performAll operations).qualifies statement =
          (first.performAll operations).qualifies statement := by
      rw [Bool.eq_iff_iff, upheld otherStarted, upheld started, sameLog]
    rw [satisfies, satisfies, sameTruth]

/-- A night in which a fact is asserted again, and an hour and a half passes after that. -/
def nightOperations : List Operation :=
  [.load "GEORGE\tSLEEPS, LIKES MARTHA",
    .advance 20,
    .enqueue [⟨"GEORGE", ⟨"SLEEPS", true, none⟩, none⟩, ⟨"GEORGE", .plain "SLEEPS", none⟩],
    .applyPending,
    .advance 90]

/-- The clock falls back to 24 hours, and yet the fact has held for exactly 90 minutes. -/
theorem satisfies_iff_upheld_at_night :
    ∃ first, World.start 2350 = .ok first ∧
      (nightOperations.map Operation.minutes).sum < Text.wordBound ∧
      (first.performAll nightOperations).clock.time = 2400 ∧
      (first.performAll nightOperations).satisfies
        ⟨"GEORGE", ⟨"SLEEPS", false, some ⟨.equal, 90⟩⟩, none⟩ ∧
      ∀ other, World.start 1700 = .ok other →
        (other.performAll nightOperations).satisfies
          ⟨"GEORGE", ⟨"SLEEPS", false, some ⟨.equal, 90⟩⟩, none⟩ := by
  obtain ⟨first, started⟩ : ∃ first, World.start 2350 = .ok first :=
    exists_of_isOk (by decide)
  have fits : (nightOperations.map Operation.minutes).sum < Text.wordBound := by
    decide
  have promised :=
    satisfies_iff_upheld started fits
      ⟨"GEORGE", ⟨"SLEEPS", false, some ⟨.equal, 90⟩⟩, none⟩
  have asleep :
      (first.performAll nightOperations).satisfies
        ⟨"GEORGE", ⟨"SLEEPS", false, some ⟨.equal, 90⟩⟩, none⟩ := by
    apply promised.1.mpr
    refine ⟨(first.log nightOperations).dropLast.dropLast, [.advance 90], ?_, ?_, ?_⟩
    · cases started
      decide +kernel
    · decide
    · rintro duration ⟨rfl⟩
      decide
  refine ⟨first, started, fits, ?_, asleep, ?_⟩
  · cases started
    decide +kernel
  · intro other otherStarted
    rw [promised.2 1700 other otherStarted]
    exact asleep

end World

end Fabula
