import Fabula.Proofs.History

/-!
# Frames list every fact once

A frame compares a snapshot with the one before it and with no other.  Still,
over all frames each fact is listed once, where it is first seen: a number that
is gone never comes back, and whatever is new has a number above all that were
seen before.
-/

namespace Fabula

/-! ## The frames of some snapshots -/

/-- The numbers of the facts that a frame lists. -/
def Frame.ids (frame : Frame) : List Nat :=
  frame.asserted.map (·.id)

namespace Chronicle

theorem mem_ids_added {previous snapshot : List Fact} {id : Nat} :
    id ∈ (added previous snapshot).map (·.id) ↔
      id ∈ snapshot.map (·.id) ∧ id ∉ previous.map (·.id) := by
  simp only [List.mem_map, mem_added, not_exists, not_and]
  constructor
  · rintro ⟨fact, ⟨inSnapshot, new⟩, rfl⟩
    exact ⟨⟨fact, inSnapshot, rfl⟩, new⟩
  · rintro ⟨⟨fact, inSnapshot, rfl⟩, new⟩
    exact ⟨fact, ⟨inSnapshot, new⟩, rfl⟩

/-- The frame at a place compares the snapshot there with the one at the place before. -/
theorem getElem?_framesAfter (previous : List Fact) (snapshots : List (Nat × List Fact))
    (place : Nat) :
    (framesAfter previous snapshots)[place]? =
      snapshots[place]?.map fun entry =>
        { time := entry.1
          asserted := added ((previous :: snapshots.map Prod.snd)[place]?.getD []) entry.2 } := by
  induction snapshots generalizing previous place with
  | nil => simp [framesAfter]
  | cons entry rest ih =>
      rcases entry with ⟨time, facts⟩
      cases place with
      | zero => simp [framesAfter]
      | succ place =>
          rw [framesAfter, List.getElem?_cons_succ, ih]
          rfl

end Chronicle

namespace World

/-! ## Worlds that go on from others -/

/-- A fact of the later world is new, or it is a fact of the earlier world. -/
structure Continues (earlier later : World) : Prop where
  counter : earlier.nextId ≤ later.nextId
  kept : ∀ key fact, later.get? key = some fact → fact.id < earlier.nextId →
    earlier.get? key = some fact

theorem Continues.refl (world : World) : world.Continues world :=
  ⟨Nat.le_refl _, fun _ _ found _ => found⟩

theorem Continues.trans {first second third : World} (left : first.Continues second)
    (right : second.Continues third) : first.Continues third where
  counter := Nat.le_trans left.counter right.counter
  kept := by
    intro key fact found below
    apply left.kept key fact _ below
    exact right.kept key fact found (Nat.lt_of_lt_of_le below left.counter)

theorem continues_apply (world : World) (change : Change) :
    world.Continues (change.apply world) := by
  cases change with
  | assert key =>
      refine ⟨Nat.le_succ _, ?_⟩
      intro other fact found below
      have looked := (get?_assertFact world key other).symm.trans found
      by_cases same : other = key
      · rw [if_pos same] at looked
        cases looked
        exact absurd below (Nat.lt_irrefl _)
      · rw [if_neg same] at looked
        exact looked
  | retract key =>
      refine ⟨Nat.le_refl _, ?_⟩
      intro other fact found _
      have looked := (get?_retractFact world key other).symm.trans found
      by_cases same : other = key
      · rw [if_pos same] at looked
        cases looked
      · rw [if_neg same] at looked
        exact looked
  | define name members => exact ⟨Nat.le_refl _, fun _ _ found _ => found⟩
  | queue effects => exact ⟨Nat.le_refl _, fun _ _ found _ => found⟩
  | clear => exact ⟨Nat.le_refl _, fun _ _ found _ => found⟩
  | advance minutes => exact ⟨Nat.le_refl _, fun _ _ found _ => found⟩
  | snapshot => exact ⟨Nat.le_refl _, fun _ _ found _ => found⟩

theorem Leads.continues {before after : World} (leads : before.Leads after) :
    before.Continues after := by
  rcases leads with ⟨changes, rfl⟩
  refine change_preserves ?_ (Continues.refl before)
  intro change _ middle continues
  exact continues.trans (middle.continues_apply change)

/-- The numbers of the facts that hold. -/
def ids (world : World) : List Nat :=
  world.network.facts.map (·.id)

theorem Consistent.lt_of_mem_ids {world : World} (consistent : world.Consistent) {id : Nat}
    (member : id ∈ world.ids) : id < world.nextId := by
  rcases List.mem_map.mp member with ⟨fact, inNetwork, rfl⟩
  exact consistent.allocated fact (records_of_mem_facts inNetwork)

theorem mem_ids_of_get? {world : World} {key : Fact.Key} {fact : Fact}
    (found : world.get? key = some fact) : fact.id ∈ world.ids :=
  List.mem_map_of_mem (Network.mem_facts.mpr ⟨key, found⟩)

theorem Continues.mem_ids {earlier later : World} (continues : earlier.Continues later)
    {id : Nat} (member : id ∈ later.ids) (below : id < earlier.nextId) : id ∈ earlier.ids := by
  rcases List.mem_map.mp member with ⟨fact, inNetwork, rfl⟩
  rcases Network.mem_facts.mp inNetwork with ⟨key, found⟩
  exact mem_ids_of_get? (continues.kept key fact found below)

/-! ## Snapshots -/

/-- The worlds of which operations take snapshots, in order. -/
def pictured (world : World) : List Operation → List World
  | [] => []
  | operation :: rest =>
      (if operation = .snapshot then [world] else []) ++ (operation.perform world).pictured rest

/-- What a snapshot files, and the clock reading under which it does. -/
def picture (world : World) : Nat × List Fact :=
  (world.clock.time, world.network.facts)

theorem leads_pictured {world state : World} {operations : List Operation}
    (member : state ∈ world.pictured operations) : world.Leads state := by
  induction operations generalizing world with
  | nil => cases member
  | cons operation rest ih =>
      rcases List.mem_append.mp member with here | later
      · split at here
        · rw [List.mem_singleton.mp here]
          exact Leads.refl world
        · cases here
      · exact Leads.trans _ _ _ (world.leads_perform operation) (ih later)

theorem pairwise_pictured (world : World) (operations : List Operation) :
    (world.pictured operations).Pairwise Continues := by
  induction operations generalizing world with
  | nil => exact List.Pairwise.nil
  | cons operation rest ih =>
      rw [pictured, List.pairwise_append]
      refine ⟨?_, ih _, ?_⟩
      · split
        · exact List.pairwise_singleton _ _
        · exact List.Pairwise.nil
      · intro state here later member
        split at here
        · rw [List.mem_singleton.mp here]
          have leads := Leads.trans _ _ _ (world.leads_perform operation) (leads_pictured member)
          exact leads.continues
        · cases here

theorem chronicle_change {world : World} {changes : List Change}
    (unfiled : .snapshot ∉ changes) :
    (world.change changes).chronicle = world.chronicle := by
  have preserved : ∀ change ∈ changes, ∀ later : World,
      later.chronicle = world.chronicle → (change.apply later).chronicle = world.chronicle := by
    intro change member later kept
    cases change with
    | snapshot => exact absurd member unfiled
    | _ => exact kept
  exact change_preserves preserved rfl

theorem snapshot_notMem_changes {world : World} {operation : Operation}
    (other : operation ≠ .snapshot) : .snapshot ∉ operation.changes world := by
  intro member
  cases operation with
  | snapshot => exact other rfl
  | load text =>
      rcases mem_loadProgress member with ⟨name, members, equal⟩ | ⟨key, equal⟩
      · cases equal
      · cases equal
  | applyPending =>
      rcases List.mem_cons.mp member with equal | member
      · cases equal
      · rcases List.mem_flatMap.mp member with ⟨effect, _, inEffect⟩
        rw [Change.ofEffect] at inEffect
        split at inEffect <;> simp at inEffect
  | _ => simp [Operation.changes] at member

theorem chronicle_performAll (world : World) (operations : List Operation) :
    (world.performAll operations).chronicle =
      world.chronicle.file ((world.pictured operations).map picture) := by
  induction operations generalizing world with
  | nil => rfl
  | cons operation rest ih =>
      have step :
          world.performAll (operation :: rest) = (operation.perform world).performAll rest := by
        rfl
      rw [step, ih, pictured]
      by_cases files : operation = .snapshot
      · rw [if_pos files, files]
        rfl
      · rw [if_neg files, operation.perform_eq_change,
          chronicle_change (snapshot_notMem_changes files), List.nil_append]

/-! ## What frames list -/

/--
If some snapshot has a fact, some frame lists one: nothing is known when the first
such snapshot comes, because those before it are empty.
-/
theorem exists_asserted {world : World} {time : Nat} {snapshot : List Fact}
    (filed : world.chronicle[time]? = some snapshot) (some : snapshot ≠ []) :
    ∃ frame ∈ world.frames, frame.asserted ≠ [] := by
  have member : (time, snapshot) ∈ world.chronicle.toList :=
    Std.TreeMap.mem_toList_iff_getElem?_eq_some.mpr filed
  rw [frames, Chronicle.frames]
  generalize world.chronicle.toList = snapshots at member
  induction snapshots with
  | nil => cases member
  | cons first rest ih =>
      rcases first with ⟨firstTime, facts⟩
      by_cases none : facts = []
      · subst none
        rcases List.mem_cons.mp member with equal | later
        · cases equal
          exact absurd rfl some
        · rcases ih later with ⟨frame, inFrames, nonempty⟩
          exact ⟨frame, List.mem_cons_of_mem _ inFrames, nonempty⟩
      · refine ⟨_, List.mem_cons_self, ?_⟩
        simpa [Chronicle.added] using none

theorem records_of_mem_frames {world : World} {frame : Frame} {fact : Fact}
    (inFrames : frame ∈ world.frames) (inFrame : fact ∈ frame.asserted) :
    world.Records fact := by
  rcases List.mem_iff_getElem?.mp inFrames with ⟨place, shown⟩
  rw [frames, Chronicle.frames, Chronicle.getElem?_framesAfter, Option.map_eq_some_iff] at shown
  rcases shown with ⟨⟨time, snapshot⟩, filed, rfl⟩
  have member := List.mem_of_getElem? filed
  exact .inr ⟨time, snapshot, Std.TreeMap.mem_toList_iff_getElem?_eq_some.mp member,
    (Chronicle.mem_added.mp inFrame).1⟩

/-! ## Where a number is listed -/

/-- A number occurs in the world at a place, and in none before it. -/
def FirstAt (worlds : List World) (id place : Nat) : Prop :=
  ∃ world, worlds[place]? = some world ∧ id ∈ world.ids ∧
    ∀ earlier < place, ∀ other, worlds[earlier]? = some other → id ∉ other.ids

/-- A number is listed by the frame at a place. -/
def ListedAt (frames : List Frame) (id place : Nat) : Prop :=
  ∃ frame, frames[place]? = some frame ∧ id ∈ frame.ids

theorem pairwise_getElem? {α : Type} {relation : α → α → Prop} {values : List α}
    (pairwise : values.Pairwise relation) {place other : Nat} {value otherValue : α}
    (before : place < other) (found : values[place]? = some value)
    (otherFound : values[other]? = some otherValue) : relation value otherValue := by
  rcases List.getElem?_eq_some_iff.mp found with ⟨inside, rfl⟩
  rcases List.getElem?_eq_some_iff.mp otherFound with ⟨otherInside, rfl⟩
  exact List.pairwise_iff_getElem.mp pairwise place other inside otherInside before

section Sequence

variable {worlds : List World} (consistent : ∀ world ∈ worlds, world.Consistent)
  (continues : worlds.Pairwise Continues)

include consistent continues

/-- A number that a world has and the one before it has not, no earlier world has. -/
theorem notMem_ids_of_notMem_next {id place earlier : Nat} {world next other : World}
    (before : earlier ≤ place) (found : worlds[earlier]? = some other)
    (foundNext : worlds[place]? = some next) (foundLater : worlds[place + 1]? = some world)
    (member : id ∈ world.ids) (gone : id ∉ next.ids) : id ∉ other.ids := by
  intro inOther
  have below : id < other.nextId :=
    (consistent other (List.mem_of_getElem? found)).lt_of_mem_ids inOther
  have counted : other.nextId ≤ next.nextId := by
    rcases Nat.lt_or_eq_of_le before with strictly | rfl
    · exact (pairwise_getElem? continues strictly found foundNext).counter
    · rw [found] at foundNext
      cases foundNext
      exact Nat.le_refl _
  have goesOn := pairwise_getElem? continues (Nat.lt_succ_self place) foundNext foundLater
  exact gone (goesOn.mem_ids member (Nat.lt_of_lt_of_le below counted))

theorem listedAt_iff_firstAt (id place : Nat) :
    ListedAt (Chronicle.framesAfter [] (worlds.map picture)) id place ↔
      FirstAt worlds id place := by
  rw [ListedAt, FirstAt, Chronicle.getElem?_framesAfter, List.getElem?_map]
  cases found : worlds[place]? with
  | none => simp
  | some world =>
      simp only [Option.map_some, Option.some.injEq, exists_eq_left']
      rw [Frame.ids, Chronicle.mem_ids_added]
      apply and_congr_right
      intro member
      cases place with
      | zero => simp
      | succ place =>
          have inside : place < worlds.length :=
            Nat.lt_of_succ_lt (List.getElem?_eq_some_iff.mp found).1
          have foundNext : worlds[place]? = some worlds[place] :=
            List.getElem?_eq_getElem inside
          rw [List.getElem?_cons_succ, List.getElem?_map, List.getElem?_map, foundNext]
          constructor
          · intro gone earlier before other foundOther
            exact notMem_ids_of_notMem_next consistent continues (Nat.le_of_lt_succ before)
              foundOther foundNext found member gone
          · intro first
            exact first place (Nat.lt_succ_self place) _ foundNext

theorem pairwise_ids_frames :
    ((Chronicle.framesAfter [] (worlds.map picture)).flatMap Frame.ids).Pairwise (· < ·) := by
  have firstAt (place : Nat) {frame : Frame} {id : Nat}
      (found : (Chronicle.framesAfter [] (worlds.map picture))[place]? = some frame)
      (member : id ∈ frame.ids) : FirstAt worlds id place :=
    (listedAt_iff_firstAt consistent continues id place).mp ⟨frame, found, member⟩
  rw [List.pairwise_flatMap]
  constructor
  · intro frame member
    rcases List.mem_iff_getElem?.mp member with ⟨place, found⟩
    rw [Chronicle.getElem?_framesAfter, Option.map_eq_some_iff] at found
    rcases found with ⟨entry, found, rfl⟩
    rw [List.getElem?_map, Option.map_eq_some_iff] at found
    rcases found with ⟨world, found, rfl⟩
    have ordered := (consistent world (List.mem_of_getElem? found)).pairwise_facts
    exact (ordered.filter _).map _ fun _ _ less => less
  · rw [List.pairwise_iff_getElem]
    intro place other inside otherInside before id member otherId otherMember
    rcases firstAt place (List.getElem?_eq_getElem inside) member with
      ⟨world, found, inWorld, _⟩
    rcases firstAt other (List.getElem?_eq_getElem otherInside) otherMember with
      ⟨later, foundLater, inLater, first⟩
    have below := (consistent world (List.mem_of_getElem? found)).lt_of_mem_ids inWorld
    have goesOn := pairwise_getElem? continues before found foundLater
    by_contra notLess
    have known : otherId ∈ world.ids := by
      apply goesOn.mem_ids inLater
      omega
    exact first place before world found known

end Sequence

theorem existsUnique_firstAt {worlds : List World} {id : Nat}
    (occurs : ∃ world ∈ worlds, id ∈ world.ids) : ∃! place, FirstAt worlds id place := by
  classical
  have somewhere :
      ∃ (place : Nat) (world : World), worlds[place]? = some world ∧ id ∈ world.ids := by
    rcases occurs with ⟨world, member, inWorld⟩
    rcases List.mem_iff_getElem?.mp member with ⟨place, found⟩
    exact ⟨place, world, found, inWorld⟩
  refine ⟨Nat.find somewhere, ?_, ?_⟩
  · rcases Nat.find_spec somewhere with ⟨world, found, inWorld⟩
    refine ⟨world, found, inWorld, ?_⟩
    intro earlier before other foundOther inOther
    exact Nat.find_min somewhere before ⟨other, foundOther, inOther⟩
  · rintro place ⟨world, found, inWorld, first⟩
    apply Nat.le_antisymm
    · by_contra later
      rcases Nat.find_spec somewhere with ⟨other, foundOther, inOther⟩
      exact first _ (Nat.lt_of_not_le later) other foundOther inOther
    · exact Nat.find_min' somewhere ⟨world, found, inWorld⟩

/--
If snapshots are taken at ascending clock readings there is one frame for each,
in the same order.  A frame lists the numbers that its snapshot is the first to
have, so that each is listed once, and altogether they ascend.
-/
theorem frames_list_facts_once {time : Nat} {first : World}
    (started : World.start time = .ok first) (operations : List Operation)
    (ascending : ((first.pictured operations).map (·.clock.time)).IsChain (· < ·)) :
    let worlds := first.pictured operations
    let frames := (first.performAll operations).frames
    frames.map Frame.time = worlds.map (·.clock.time) ∧
      (∀ id place, ListedAt frames id place ↔ FirstAt worlds id place) ∧
      (∀ id, (∃ world ∈ worlds, id ∈ world.ids) → ∃! place, ListedAt frames id place) ∧
      (frames.flatMap Frame.ids).Pairwise (· < ·) := by
  intro worlds frames
  have consistent : ∀ world ∈ worlds, world.Consistent := fun _ member =>
    (leads_pictured member).consistent (consistent_start started)
  have continues : worlds.Pairwise Continues := first.pairwise_pictured operations
  have listed : (Chronicle.file ∅ (worlds.map picture)).toList = worlds.map picture := by
    apply (Chronicle.toList_file_eq_iff _).mpr
    rw [List.map_map]
    exact ascending
  have unwritten : first.chronicle = ∅ := by
    rcases Outcome.map_eq_ok.mp started with ⟨clock, _, rfl⟩
    rfl
  have shown : frames = Chronicle.framesAfter [] (worlds.map picture) := by
    show Chronicle.framesAfter [] (first.performAll operations).chronicle.toList = _
    rw [chronicle_performAll, unwritten, listed]
  have places (id place : Nat) : ListedAt frames id place ↔ FirstAt worlds id place := by
    rw [shown]
    exact listedAt_iff_firstAt consistent continues id place
  refine ⟨?_, places, ?_, ?_⟩
  · rw [shown]
    apply List.ext_getElem?
    intro place
    rw [List.getElem?_map, List.getElem?_map, Chronicle.getElem?_framesAfter, List.getElem?_map]
    cases worlds[place]? <;> rfl
  · intro id occurs
    simp only [places]
    exact existsUnique_firstAt occurs
  · rw [shown]
    exact pairwise_ids_frames consistent continues

/-- A fact that vanishes between two snapshots, one that is asserted again, and one that stays. -/
def dayOperations : List Operation :=
  [.load "GEORGE\tSLEEPS, LIKES MARTHA\nMARTHA\tWORKS",
    .snapshot,
    .advance 10,
    .retractFact ⟨"GEORGE", "SLEEPS", none⟩,
    .assertFact ⟨"GEORGE", "EATS", none⟩,
    .assertFact ⟨"GEORGE", "LIKES", some "MARTHA"⟩,
    .snapshot,
    .retractFact ⟨"GEORGE", "EATS", none⟩,
    .advance 10,
    .assertFact ⟨"GEORGE", "SLEEPS", none⟩,
    .snapshot]

theorem frames_list_facts_once_of_day :
    ∃ first, World.start 700 = .ok first ∧
      ((first.pictured dayOperations).map (·.clock.time)).IsChain (· < ·) ∧
      (first.performAll dayOperations).frames.map Frame.time = [700, 710, 720] ∧
      (∃! place, ListedAt (first.performAll dayOperations).frames 4 place) ∧
      ((first.performAll dayOperations).frames.flatMap Frame.ids).Pairwise (· < ·) := by
  obtain ⟨first, started⟩ : ∃ first, World.start 700 = .ok first :=
    Outcome.exists_of_isOk (by decide)
  have times : (first.pictured dayOperations).map (·.clock.time) = [700, 710, 720] := by
    cases started
    decide +kernel
  have ascending : ((first.pictured dayOperations).map (·.clock.time)).IsChain (· < ·) := by
    rw [times]
    decide
  have seen :
      ∃ world ∈ first.pictured dayOperations,
        (world.get? ⟨"GEORGE", "LIKES", some "MARTHA"⟩).map (·.id) = some 4 := by
    cases started
    decide +kernel
  have promised := frames_list_facts_once started dayOperations ascending
  refine ⟨first, started, ascending, promised.1.trans times, ?_, promised.2.2.2⟩
  apply promised.2.2.1
  rcases seen with ⟨world, member, identified⟩
  rcases Option.map_eq_some_iff.mp identified with ⟨fact, found, same⟩
  refine ⟨world, member, ?_⟩
  rw [← same]
  exact mem_ids_of_get? found

end World

end Fabula
