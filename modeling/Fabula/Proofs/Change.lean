import Fabula.Project
import Fabula.Proofs.Outcome
import Fabula.World.Opening
import Mathlib.Algebra.GroupWithZero.Nat

/-!
# Operations and changes

All that can be done to a world: the operations, one after another.  Each of
them, also a load that fails midway, is a succession of elementary changes, and
the log of some operations lists the changes of all of them.  What every change
preserves, the operations therefore preserve.

Each change lets some minutes pass, most of them none.  The clock counts these
minutes as long as their sum fits 32 bits.
-/

namespace Fabula

open Outcome Text

/-! ## Changes -/

/-- An elementary change of a world. -/
inductive Change where
  | define (name : String) (members : List String)
  | assert (key : Fact.Key)
  | retract (key : Fact.Key)
  | queue (effects : List Effect)
  | clear
  | advance (minutes : Nat)
  | snapshot
deriving DecidableEq, Repr

namespace Change

/-- Make a change. -/
def apply (world : World) : Change → World
  | define name members => world.defineClass name members
  | assert key => world.assertFact key
  | retract key => world.retractFact key
  | queue effects => world.enqueue effects
  | clear => { world with pending := #[] }
  | advance minutes => world.advance minutes
  | snapshot => world.snapshot

/-- The changes in which an effect consists. -/
def ofEffect (effect : Effect) : List Change :=
  if effect.relation.negated then
    [retract effect.key]
  else
    [retract effect.key, assert effect.key]

/-- The minutes that a change lets pass. -/
def minutes : Change → Nat
  | advance minutes => minutes
  | _ => 0

theorem minutes_of_mem_ofEffect {effect : Effect} {change : Change}
    (member : change ∈ ofEffect effect) : change.minutes = 0 := by
  rw [ofEffect] at member
  split at member
  · rw [List.mem_singleton.mp member]
    rfl
  · rcases List.mem_pair.mp member with rfl | rfl
    · rfl
    · rfl

/-- Changes that let no time pass let none pass together. -/
theorem sum_minutes_eq_zero {changes : List Change}
    (still : ∀ change ∈ changes, change.minutes = 0) : (changes.map minutes).sum = 0 := by
  induction changes with
  | nil => rfl
  | cons change rest ih =>
      rw [List.forall_mem_cons] at still
      rw [List.map_cons, List.sum_cons, still.1, ih still.2]

theorem sum_minutes_flush (effects : List Effect) :
    ((clear :: effects.flatMap ofEffect).map minutes).sum = 0 := by
  apply sum_minutes_eq_zero
  rw [List.forall_mem_cons]
  refine ⟨rfl, ?_⟩
  intro change member
  rcases List.mem_flatMap.mp member with ⟨effect, _, inEffect⟩
  exact minutes_of_mem_ofEffect inEffect

end Change

namespace World

/-- Make changes one after another. -/
def change (world : World) (changes : List Change) : World :=
  changes.foldl Change.apply world

theorem change_append (world : World) (first others : List Change) :
    world.change (first ++ others) = (world.change first).change others :=
  List.foldl_append

/-- What every one of some changes preserves, all of them together preserve. -/
theorem change_preserves {property : World → Prop} {changes : List Change}
    (preserved : ∀ change ∈ changes, ∀ world, property world → property (change.apply world))
    {world : World} (holds : property world) : property (world.change changes) := by
  induction changes generalizing world with
  | nil => exact holds
  | cons change rest ih =>
      rw [List.forall_mem_cons] at preserved
      exact ih preserved.2 (preserved.1 world holds)

/-- Whether changes lead from a world to another. -/
def Leads (before after : World) : Prop :=
  ∃ changes, after = before.change changes

theorem Leads.refl (world : World) : world.Leads world :=
  ⟨[], rfl⟩

theorem Leads.trans (first second third : World) (left : first.Leads second)
    (right : second.Leads third) : first.Leads third := by
  rcases left with ⟨changes, rfl⟩
  rcases right with ⟨others, rfl⟩
  exact ⟨changes ++ others, (change_append first changes others).symm⟩

/-- Whether changes lead from a world to another, and let so many minutes pass together. -/
def Takes (before : World) (minutes : Nat) (after : World) : Prop :=
  ∃ changes, after = before.change changes ∧ (changes.map Change.minutes).sum = minutes

theorem Takes.leads {before after : World} {minutes : Nat} (takes : before.Takes minutes after) :
    before.Leads after := by
  rcases takes with ⟨changes, changed, _⟩
  exact ⟨changes, changed⟩

theorem Takes.refl (world : World) : world.Takes 0 world :=
  ⟨[], rfl, rfl⟩

theorem takes_apply (world : World) (change : Change) :
    world.Takes change.minutes (change.apply world) :=
  ⟨[change], rfl, Nat.add_zero _⟩

theorem Takes.trans {first second third : World} {minutes others : Nat}
    (left : first.Takes minutes second) (right : second.Takes others third) :
    first.Takes (minutes + others) third := by
  rcases left with ⟨changes, rfl, rfl⟩
  rcases right with ⟨otherChanges, rfl, rfl⟩
  refine ⟨changes ++ otherChanges, (change_append first changes otherChanges).symm, ?_⟩
  rw [List.map_append, List.sum_append]

/-! ## Loading and flushing by changes -/

theorem change_ofEffect (world : World) (effect : Effect) :
    world.change (Change.ofEffect effect) = world.applyEffect effect := by
  unfold applyEffect Change.ofEffect
  split <;> rfl

theorem applyEffects_eq_change (world : World) (summary : Summary)
    (effects : List Effect) :
    (world.applyEffects summary effects).1 =
      world.change (effects.flatMap Change.ofEffect) := by
  induction effects generalizing world summary with
  | nil => rfl
  | cons effect rest ih =>
      rw [applyEffects, ih, List.flatMap_cons, change_append, change_ofEffect]

theorem applyPending_eq_change (world : World) :
    world.applyPending.1 =
      world.change (.clear :: world.pending.toList.flatMap Change.ofEffect) :=
  applyEffects_eq_change _ _ _

end World

/-! ## Loading by changes -/

/-- What a computation does to a world: the changes it makes, and whether it comes to its end. -/
structure Progress where
  changes : List Change
  completed : Bool
deriving DecidableEq, Repr

namespace Progress

/-- A computation that changes nothing. -/
def idle : Progress :=
  { changes := [], completed := true }

/-- A computation that makes one change. -/
def making (change : Change) : Progress :=
  { changes := [change], completed := true }

/-- A computation that fails before it changes anything. -/
def stopped : Progress :=
  { changes := [], completed := false }

/-- A computation after which another goes on, if the first has come to its end. -/
def andThen (first others : Progress) : Progress :=
  if first.completed then
    { changes := first.changes ++ others.changes, completed := others.completed }
  else
    first

/-- Computations for one value after another, up to the first that fails. -/
def through {α : Type} (step : World → α → Progress) (world : World) : List α → Progress
  | [] => idle
  | value :: rest =>
      let first := step world value
      first.andThen (through step (world.change first.changes) rest)

theorem mem_changes_andThen {first others : Progress} {change : Change}
    (member : change ∈ (first.andThen others).changes) :
    change ∈ first.changes ∨ change ∈ others.changes := by
  rw [andThen] at member
  split at member
  · exact List.mem_append.mp member
  · exact .inl member

/-- What all changes of the parts are, all changes of the whole are. -/
theorem forall_mem_through {α : Type} {step : World → α → Progress} {property : Change → Prop}
    {values : List α}
    (each : ∀ value ∈ values, ∀ world, ∀ change ∈ (step world value).changes, property change)
    (world : World) : ∀ change ∈ (through step world values).changes, property change := by
  induction values generalizing world with
  | nil => simp [through, idle]
  | cons value rest ih =>
      rw [List.forall_mem_cons] at each
      intro change member
      rcases mem_changes_andThen member with first | later
      · exact each.1 world change first
      · exact ih each.2 _ change later

end Progress

namespace World

/-- A computation makes the changes of a progress, and fails unless this is completed. -/
structure Follows (computation : EStateM Error World Unit) (world : World)
    (progress : Progress) : Prop where
  changed : endState (computation world) = world.change progress.changes
  completed : succeeded (computation world) = progress.completed

theorem Follows.bind {first others : EStateM Error World Unit} {world : World}
    {progress otherProgress : Progress} (follows : Follows first world progress)
    (continues : Follows others (world.change progress.changes) otherProgress) :
    Follows (first >>= fun _ => others) world (progress.andThen otherProgress) := by
  rcases follows with ⟨changed, completed⟩
  have split :
      (first >>= fun _ => others) world = EStateM.bind first (fun _ => others) world := by
    rfl
  rw [EStateM.bind] at split
  rw [Progress.andThen]
  cases ended : first world with
  | ok done middle =>
      rw [ended] at changed completed split
      change middle = _ at changed
      change true = _ at completed
      rw [changed] at split
      rw [if_pos completed.symm]
      constructor
      · rw [split, change_append]
        exact continues.changed
      · rw [split]
        exact continues.completed
  | error cause middle =>
      rw [ended] at changed completed split
      change false = _ at completed
      rw [if_neg (by simp [← completed])]
      constructor
      · rw [split]
        exact changed
      · rw [split]
        exact completed

theorem Follows.forM {α : Type} {visit : α → EStateM Error World Unit}
    {step : World → α → Progress} {values : List α}
    (follows : ∀ value ∈ values, ∀ world, Follows (visit value) world (step world value))
    (world : World) : Follows (values.forM visit) world (Progress.through step world values) := by
  induction values generalizing world with
  | nil => exact ⟨rfl, rfl⟩
  | cons value rest ih =>
      rw [List.forall_mem_cons] at follows
      exact (follows.1 world).bind (ih follows.2 _)

/-- What a clause of a line of facts does, whatever world it is loaded into. -/
def clauseProgress (subject clause : List Char) : Progress :=
  let asserting (relation : List Char) (object : Option (List Char)) : Progress :=
    .making (.assert
      { subject := String.ofList subject
        relation := String.ofList relation
        object := object.map String.ofList })
  match words clause with
  | [relation] => asserting relation none
  | [relation, object] => asserting relation (some object)
  | _ => .stopped

/-- What the line of a class does: all its members are added, or none. -/
def classProgress (world : World) (name body : List Char) : Progress :=
  if name.isEmpty then
    .stopped
  else
    match world.resolveMembers (parts ',' body) with
    | .ok members => .making (.define (String.ofList name) members)
    | .error _ => .stopped

/-- What a line does. -/
def lineProgress (world : World) (raw : List Char) : Progress :=
  if isSilent raw then
    .idle
  else
    match cut? ['\t'] (upper raw) with
    | none => .stopped
    | some (head, body) =>
        match classMark.isPrefixOf? (trim head) with
        | some className => world.classProgress (trim className) body
        | none =>
            if (trim head).isEmpty then
              .stopped
            else
              .through (fun _ clause => clauseProgress (trim head) clause) world
                (body.splitOn ',')

/-- What a text of opening conditions does, up to the line or clause that is at fault. -/
def loadProgress (world : World) (text : String) : Progress :=
  .through (fun world numbered => world.lineProgress numbered.1) world
    ((lines text.toList).zipIdx 1)

theorem loadClause_follows (line : Nat) (subject body clause : List Char) (world : World) :
    Follows (loadClause line subject body clause) world (clauseProgress subject clause) := by
  rw [loadClause, clauseProgress]
  match words clause with
  | [] => exact ⟨rfl, rfl⟩
  | [relation] => exact ⟨rfl, rfl⟩
  | [relation, object] => exact ⟨rfl, rfl⟩
  | _ :: _ :: _ :: _ => exact ⟨rfl, rfl⟩

theorem loadClass_follows (line : Nat) (name body : List Char) (world : World) :
    Follows (loadClass line name body) world (world.classProgress name body) := by
  rw [classProgress]
  split
  · rename_i unnamed
    constructor <;> rw [loadClass, if_pos unnamed] <;> rfl
  · rename_i named
    cases resolved : world.resolveMembers (parts ',' body) with
    | ok members => constructor <;> simp only [loadClass, if_neg named, resolved] <;> rfl
    | error cause => constructor <;> simp only [loadClass, if_neg named, resolved] <;> rfl

theorem loadLine_follows (line : Nat) (raw : List Char) (world : World) :
    Follows (loadLine line raw) world (world.lineProgress raw) := by
  rw [loadLine, lineProgress]
  by_cases silent : isSilent raw
  · rw [if_pos silent, if_pos silent]
    exact ⟨rfl, rfl⟩
  · rw [if_neg silent, if_neg silent]
    match cut? ['\t'] (upper raw) with
    | none => exact ⟨rfl, rfl⟩
    | some (head, body) =>
        dsimp only
        match classMark.isPrefixOf? (trim head) with
        | some className => exact loadClass_follows _ _ _ _
        | none =>
            dsimp only
            rw [loadFacts]
            by_cases unnamed : (trim head).isEmpty
            · rw [if_pos unnamed, if_pos unnamed]
              exact ⟨rfl, rfl⟩
            · rw [if_neg unnamed, if_neg unnamed]
              apply Follows.forM
              intro clause _ world
              exact loadClause_follows _ _ _ clause world

/-- A load makes its changes, and fails if and only if something is at fault. -/
theorem load_follows (text : String) (world : World) :
    Follows (load text) world (world.loadProgress text) := by
  apply Follows.forM
  intro numbered _ world
  exact loadLine_follows _ _ world

theorem eq_change_of_load {text : String} {first world : World}
    (loaded : load text first = .ok () world) :
    world = first.change (first.loadProgress text).changes := by
  have changed := (load_follows text first).changed
  rw [loaded] at changed
  exact changed

/-- A line makes a single change that adds nouns to a class, or it asserts facts, if anything. -/
theorem lineProgress_cases (world : World) (raw : List Char) :
    (∃ head body name nouns,
      cut? ['\t'] (upper raw) = some (head, body) ∧
        classMark.isPrefixOf? (trim head) = some name ∧
        world.resolveMembers (parts ',' body) = .ok nouns ∧
        world.lineProgress raw = .making (.define (String.ofList (trim name)) nouns)) ∨
      ∀ change ∈ (world.lineProgress raw).changes, ∃ key, change = .assert key := by
  rw [lineProgress]
  split
  · exact .inr (by simp [Progress.idle])
  · split
    · exact .inr (by simp [Progress.stopped])
    · rename_i head body cut
      split
      · rename_i name marked
        rw [classProgress]
        split
        · exact .inr (by simp [Progress.stopped])
        · split
          · rename_i nouns resolved
            exact .inl ⟨head, body, name, nouns, cut, marked, resolved, rfl⟩
          · exact .inr (by simp [Progress.stopped])
      · right
        split
        · simp [Progress.stopped]
        · apply Progress.forall_mem_through
          intro clause _ _
          rw [clauseProgress]
          split <;> simp [Progress.making, Progress.stopped]

/-- Loading defines classes and asserts facts, and changes nothing else. -/
theorem mem_loadProgress {world : World} {text : String} {change : Change}
    (member : change ∈ (world.loadProgress text).changes) :
    (∃ name members, change = .define name members) ∨ ∃ key, change = .assert key := by
  revert change
  apply Progress.forall_mem_through
  intro numbered _ world change member
  rcases lineProgress_cases world numbered.1 with ⟨_, _, name, nouns, _, _, _, made⟩ | asserts
  · rw [made] at member
    exact .inl ⟨_, nouns, List.mem_singleton.mp member⟩
  · exact .inr (asserts change member)

end World

/-! ## Operations -/

/-- What can be done to a world. -/
inductive Operation where
  | defineClass (name : String) (members : List String)
  | assertFact (key : Fact.Key)
  | retractFact (key : Fact.Key)
  | enqueue (effects : List Effect)
  | applyPending
  | advance (minutes : Nat)
  | snapshot
  | load (text : String)
deriving DecidableEq, Repr

/-- Do something to a world.  A load that fails leaves what it has loaded. -/
def Operation.perform (world : World) : Operation → World
  | defineClass name members => world.defineClass name members
  | assertFact key => world.assertFact key
  | retractFact key => world.retractFact key
  | enqueue effects => world.enqueue effects
  | applyPending => world.applyPending.1
  | advance minutes => world.advance minutes
  | snapshot => world.snapshot
  | load text => endState (World.load text world)

/-- The changes in which an operation consists. -/
def Operation.changes (world : World) : Operation → List Change
  | defineClass name members => [.define name members]
  | assertFact key => [.assert key]
  | retractFact key => [.retract key]
  | enqueue effects => [.queue effects]
  | applyPending => .clear :: world.pending.toList.flatMap Change.ofEffect
  | advance minutes => [.advance minutes]
  | snapshot => [.snapshot]
  | load text => (world.loadProgress text).changes

theorem Operation.perform_eq_change (world : World) (operation : Operation) :
    operation.perform world = world.change (operation.changes world) := by
  cases operation with
  | applyPending => exact world.applyPending_eq_change
  | load text => exact (World.load_follows text world).changed
  | defineClass name members => rfl
  | assertFact key => rfl
  | retractFact key => rfl
  | enqueue effects => rfl
  | advance minutes => rfl
  | snapshot => rfl

theorem World.leads_perform (world : World) (operation : Operation) :
    world.Leads (operation.perform world) :=
  ⟨_, operation.perform_eq_change world⟩

/-- Do things to a world one after another. -/
def World.performAll (world : World) (operations : List Operation) : World :=
  operations.foldl Operation.perform world

theorem World.performAll_append (world : World) (first others : List Operation) :
    world.performAll (first ++ others) = (world.performAll first).performAll others :=
  List.foldl_append

/-- The changes that operations make one after another. -/
def World.log (world : World) : List Operation → List Change
  | [] => []
  | operation :: rest => operation.changes world ++ (operation.perform world).log rest

theorem World.performAll_eq_change (world : World) (operations : List Operation) :
    world.performAll operations = world.change (world.log operations) := by
  induction operations generalizing world with
  | nil => rfl
  | cons operation rest ih =>
      rw [log, change_append, ← operation.perform_eq_change]
      exact ih (operation.perform world)

theorem World.leads_performAll (world : World) (operations : List Operation) :
    world.Leads (world.performAll operations) :=
  ⟨_, world.performAll_eq_change operations⟩

/-- The minutes that an operation lets pass. -/
def Operation.minutes : Operation → Nat
  | advance minutes => minutes
  | _ => 0

theorem Operation.minutes_changes (world : World) (operation : Operation) :
    ((operation.changes world).map Change.minutes).sum = operation.minutes := by
  cases operation with
  | applyPending => exact Change.sum_minutes_flush _
  | load text =>
      refine Change.sum_minutes_eq_zero ?_
      intro change member
      rcases World.mem_loadProgress member with ⟨name, nouns, rfl⟩ | ⟨key, rfl⟩
      · rfl
      · rfl
  | advance minutes => exact Nat.add_zero minutes
  | defineClass name members => rfl
  | assertFact key => rfl
  | retractFact key => rfl
  | enqueue effects => rfl
  | snapshot => rfl

theorem World.minutes_log (world : World) (operations : List Operation) :
    ((world.log operations).map Change.minutes).sum = (operations.map Operation.minutes).sum := by
  induction operations generalizing world with
  | nil => rfl
  | cons operation rest ih =>
      rw [log, List.map_append, List.sum_append, operation.minutes_changes, ih, List.map_cons,
        List.sum_cons]

theorem World.takes_performAll (world : World) (operations : List Operation) :
    world.Takes (operations.map Operation.minutes).sum (world.performAll operations) :=
  ⟨_, world.performAll_eq_change operations, world.minutes_log operations⟩

/-- A world that operations have made of a world at its start. -/
def World.Reachable (world : World) : Prop :=
  ∃ time first operations,
    World.start time = .ok first ∧ world = first.performAll operations

/-- A world that operations have made of a world at its start, in minutes whose sum fits 32 bits. -/
def World.ReachableInTime (world : World) : Prop :=
  ∃ time first operations,
    World.start time = .ok first ∧ (operations.map Operation.minutes).sum < Text.wordBound ∧
      world = first.performAll operations

theorem World.ReachableInTime.reachable {world : World} (inTime : world.ReachableInTime) :
    world.Reachable := by
  rcases inTime with ⟨time, first, operations, started, _, made⟩
  exact ⟨time, first, operations, started, made⟩

theorem World.elapsed_start {time : Nat} {first : World}
    (started : World.start time = .ok first) : first.clock.elapsed = 0 := by
  rcases map_eq_ok.mp started with ⟨clock, set, rfl⟩
  rw [Clock.set] at set
  split at set
  · cases set
    rfl
  · cases set

/-! ## Worlds that begin with a text -/

namespace World

variable {time : Nat} {text : String} {world : World}

theorem openWorld_eq_ok :
    Project.openWorld time text = .ok world ↔
      ∃ first, World.start time = .ok first ∧ load text first = .ok () world := by
  rw [Project.openWorld, bind_eq_ok]
  apply exists_congr
  intro first
  apply and_congr_right
  intro _
  cases load text first with
  | ok _ after => simp [pure, Except.pure]
  | error cause after => simp [throw, throwThe, MonadExceptOf.throw]

theorem reachableInTime_of_openWorld (opened : Project.openWorld time text = .ok world) :
    world.ReachableInTime := by
  rcases openWorld_eq_ok.mp opened with ⟨first, started, loaded⟩
  have still : 0 < wordBound := by decide
  refine ⟨time, first, [.load text], started, still, ?_⟩
  show world = endState (load text first)
  rw [loaded]
  rfl

/-- In a world that has been opened no time has passed, and nothing waits. -/
theorem fresh_of_openWorld (opened : Project.openWorld time text = .ok world) :
    world.clock.elapsed = 0 ∧ world.pending = #[] := by
  rcases openWorld_eq_ok.mp opened with ⟨first, started, loaded⟩
  rw [eq_change_of_load loaded]
  refine @change_preserves (fun world => world.clock.elapsed = 0 ∧ world.pending = #[])
    _ ?_ _ ?_
  · intro change member world fresh
    rcases mem_loadProgress member with ⟨name, nouns, rfl⟩ | ⟨key, rfl⟩
    · exact fresh
    · exact fresh
  · refine ⟨elapsed_start started, ?_⟩
    rcases map_eq_ok.mp started with ⟨clock, _, rfl⟩
    rfl

end World

end Fabula
