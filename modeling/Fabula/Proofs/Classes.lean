import Fabula.Proofs.Assignment
import Fabula.Proofs.Change

/-!
# What classes repeat

The lines of a text add nouns to classes, always behind those that are there.
A class is therefore the union of what its lines name, but not a list without
repetitions: it has a noun as often as its lines have named it, also where a
line names it by way of another class.  Tests go through the assignments of a
rule with the same repetitions.
-/

namespace Fabula

open Outcome Text

/-! ## Classes after some changes -/

/-- The nouns that a change adds to a class. -/
def Change.added (className : String) : Change → List String
  | define name nouns => if name = className then nouns else []
  | _ => []

namespace World

/-- The nouns of a class, none if it is not defined. -/
def nounsOf (world : World) (className : String) : List String :=
  world.classes.getD className []

theorem nounsOf_of_members {world : World} {className : String} {nouns : List String}
    (found : world.members className = .ok nouns) : world.nounsOf className = nouns := by
  rw [members] at found
  split at found
  · rename_i filed
    cases found
    simp [nounsOf, Std.TreeMap.getD_eq_getD_getElem?, filed]
  · cases found

theorem nounsOf_start {time : Nat} {first : World} (started : World.start time = .ok first)
    (className : String) : first.nounsOf className = [] := by
  rcases map_eq_ok.mp started with ⟨clock, _, rfl⟩
  rfl

/-- A change puts the nouns that it adds to a class behind those that are there. -/
theorem nounsOf_apply (world : World) (change : Change) (className : String) :
    (change.apply world).nounsOf className =
      world.nounsOf className ++ change.added className := by
  cases change with
  | define name nouns =>
      by_cases same : name = className
      · simp [Change.apply, Change.added, nounsOf, defineClass, same,
          Std.TreeMap.getD_eq_getD_getElem?]
      · have other : className ≠ name := Ne.symm same
        simp [Change.apply, Change.added, nounsOf, defineClass, same, other,
          Std.TreeMap.getD_eq_getD_getElem?]
  | assert key => exact (List.append_nil _).symm
  | retract key => exact (List.append_nil _).symm
  | queue effects => exact (List.append_nil _).symm
  | clear => exact (List.append_nil _).symm
  | advance minutes => exact (List.append_nil _).symm
  | snapshot => exact (List.append_nil _).symm

theorem nounsOf_change (world : World) (changes : List Change) (className : String) :
    (world.change changes).nounsOf className =
      world.nounsOf className ++ changes.flatMap (Change.added className) := by
  induction changes generalizing world with
  | nil => exact (List.append_nil _).symm
  | cons change rest ih =>
      rw [List.flatMap_cons, ← List.append_assoc, ← nounsOf_apply]
      exact ih (change.apply world)

/-- Nouns repeat nothing, neither one of themselves nor one that a class has. -/
def New (world : World) (className : String) (nouns : List String) : Prop :=
  nouns.Nodup ∧ ∀ noun ∈ nouns, noun ∉ world.nounsOf className

theorem nodup_nounsOf_apply {world : World} {change : Change} {className : String} :
    ((change.apply world).nounsOf className).Nodup ↔
      (world.nounsOf className).Nodup ∧
        ∀ nouns, change = .define className nouns → world.New className nouns := by
  rw [nounsOf_apply, List.nodup_append']
  apply and_congr_right
  intro _
  constructor
  · rintro ⟨nodup, disjoint⟩ nouns rfl
    rw [Change.added, if_pos rfl] at nodup disjoint
    exact ⟨nodup, fun noun member known => disjoint known member⟩
  · intro new
    cases change with
    | define name nouns =>
        rw [Change.added]
        split
        · rename_i same
          cases same
          rcases new nouns rfl with ⟨nodup, unknown⟩
          exact ⟨nodup, fun noun known member => unknown noun member known⟩
        · exact ⟨List.nodup_nil, List.disjoint_nil_right _⟩
    | _ => exact ⟨List.nodup_nil, List.disjoint_nil_right _⟩

/-- A class repeats no noun exactly if every change that adds nouns to it adds new ones. -/
theorem nodup_nounsOf_change {world : World} {changes : List Change} {className : String} :
    ((world.change changes).nounsOf className).Nodup ↔
      (world.nounsOf className).Nodup ∧
        ∀ earlier nouns later, changes = earlier ++ .define className nouns :: later →
          (world.change earlier).New className nouns := by
  induction changes generalizing world with
  | nil => simp [change]
  | cons change rest ih =>
      have step : world.change (change :: rest) = (change.apply world).change rest := by
        rfl
      rw [step, ih, nodup_nounsOf_apply, and_assoc]
      apply and_congr_right
      intro _
      constructor
      · rintro ⟨now, afterwards⟩ earlier nouns later split
        rcases List.cons_eq_append_iff.mp split with ⟨rfl, same⟩ | ⟨passed, rfl, same⟩
        · cases same
          exact now nouns rfl
        · exact afterwards passed nouns later same
      · intro new
        constructor
        · rintro nouns rfl
          exact new [] nouns rest rfl
        · rintro earlier nouns later rfl
          exact new (change :: earlier) nouns later rfl

end World

/-! ## Lines that add nouns to classes -/

/-- Where a list of two parts is split, one of the parts is. -/
theorem split_append {α : Type} {first others earlier later : List α} {value : α}
    (split : first ++ others = earlier ++ value :: later) :
    (∃ rest, first = earlier ++ value :: rest) ∨
      ∃ passed, earlier = first ++ passed ∧ others = passed ++ value :: later := by
  rcases List.append_eq_append_iff.mp split with ⟨passed, rfl, same⟩ | ⟨rest, rfl, same⟩
  · exact .inr ⟨passed, rfl, same⟩
  · rcases List.cons_eq_append_iff.mp same with ⟨rfl, rfl⟩ | ⟨rest, rfl, _⟩
    · exact .inr ⟨[], by simp, rfl⟩
    · exact .inl ⟨rest, rfl⟩

/-- A change in the course of some computations is one that a single one of them makes. -/
theorem Progress.exists_of_changes_through {α : Type} {step : World → α → Progress}
    {values : List α} {world : World} {earlier later : List Change} {change : Change}
    (made : (through step world values).changes = earlier ++ change :: later) :
    ∃ value ∈ values, ∃ before own others,
      earlier = before ++ own ∧
        (step (world.change before) value).changes = own ++ change :: others := by
  induction values generalizing world earlier with
  | nil => simp [through, idle] at made
  | cons value rest ih =>
      have parted :
          (∃ others, (step world value).changes = earlier ++ change :: others) ∨
            ∃ passed, earlier = (step world value).changes ++ passed ∧
              (through step (world.change (step world value).changes) rest).changes =
                passed ++ change :: later := by
        rw [through, andThen] at made
        split at made
        · exact split_append made
        · exact .inl ⟨later, made⟩
      rcases parted with ⟨others, here⟩ | ⟨passed, rfl, there⟩
      · exact ⟨value, List.mem_cons_self, [], earlier, others, rfl, here⟩
      · rcases ih there with ⟨other, inRest, before, own, others, rfl, madeThere⟩
        refine ⟨other, List.mem_cons_of_mem _ inRest, (step world value).changes ++ before, own,
          others, (List.append_assoc _ _ _).symm, ?_⟩
        rw [World.change_append]
        exact madeThere

namespace World

/-- The nouns of a class line are those of all its members. -/
theorem mem_resolveMembers {world : World} {members : List (List Char)} {nouns : List String}
    (resolved : world.resolveMembers members = .ok nouns) {noun : String} :
    noun ∈ nouns ↔
      ∃ member ∈ members, ∃ own, world.resolveMember member = .ok own ∧ noun ∈ own := by
  rcases bind_eq_ok.mp resolved with ⟨lists, each, returned⟩
  cases returned
  rw [List.mem_flatten]
  constructor
  · rintro ⟨own, inLists, inOwn⟩
    rcases exists_of_mem_mapM each inLists with ⟨member, inMembers, stands⟩
    exact ⟨member, inMembers, own, stands, inOwn⟩
  · rintro ⟨member, inMembers, own, stands, inOwn⟩
    rcases exists_of_mapM_eq_ok each inMembers with ⟨list, inLists, standsThere⟩
    have same : own = list := Except.ok.inj (stands.symm.trans standsThere)
    exact ⟨list, inLists, same ▸ inOwn⟩

/--
A line is that of a class, and its members stand for some nouns, in this order;
these are the nouns that stand there, and those of the classes that stand there.
-/
def ClassLine (world : World) (raw : List Char) (className : String)
    (nouns : List String) : Prop :=
  ∃ head body name,
    cut? ['\t'] (upper raw) = some (head, body) ∧
      classMark.isPrefixOf? (trim head) = some name ∧
      className = String.ofList (trim name) ∧
      world.resolveMembers (parts ',' body) = .ok nouns ∧
      ∀ noun, noun ∈ nouns ↔
        ∃ member ∈ parts ',' body, ∃ own,
          world.resolveMember member = .ok own ∧ noun ∈ own

/-- A line that adds nouns to a class is the line of this class, and makes no other change. -/
theorem classLine_of_lineProgress {world : World} {raw : List Char} {own others : List Change}
    {className : String} {nouns : List String}
    (made : (world.lineProgress raw).changes = own ++ .define className nouns :: others) :
    own = [] ∧ world.ClassLine raw className nouns := by
  rcases lineProgress_cases world raw with
    ⟨head, body, name, named, cut, marked, resolved, making⟩ | asserts
  · rw [making, Progress.making] at made
    rcases List.cons_eq_append_iff.mp made with ⟨rfl, same⟩ | ⟨_, _, more⟩
    · cases same
      exact ⟨rfl, head, body, name, cut, marked, rfl, resolved,
        fun _ => mem_resolveMembers resolved⟩
    · simp at more
  · have defined : Change.define className nouns ∈ (world.lineProgress raw).changes := by
      rw [made]
      exact List.mem_append_right _ List.mem_cons_self
    rcases asserts _ defined with ⟨key, other⟩
    cases other

/-! ## Texts -/

/-- A line of a text, loaded into the world `before`, adds nouns to a class. -/
def Adds (first : World) (text className : String) (before : World) (nouns : List String) : Prop :=
  ∃ earlier later,
    (first.loadProgress text).changes = earlier ++ .define className nouns :: later ∧
      before = first.change earlier

variable {time : Nat} {text className : String} {first world before : World}
  {nouns : List String}

theorem Adds.line (adds : first.Adds text className before nouns) :
    ∃ raw ∈ lines text.toList, before.ClassLine raw className nouns := by
  rcases adds with ⟨earlier, later, made, rfl⟩
  rcases Progress.exists_of_changes_through made with
    ⟨⟨raw, number⟩, inLines, before, own, others, rfl, madeThere⟩
  rcases classLine_of_lineProgress madeThere with ⟨rfl, line⟩
  rw [List.append_nil]
  exact ⟨raw, List.fst_mem_of_mem_zipIdx inLines, line⟩

/-- The list of a class is made of what lines add to it, one behind the other. -/
theorem members_eq_added (started : World.start time = .ok first)
    (loaded : load text first = .ok () world) (found : world.members className = .ok nouns) :
    nouns = (first.loadProgress text).changes.flatMap (Change.added className) := by
  rw [← nounsOf_of_members found, eq_change_of_load loaded, nounsOf_change,
    nounsOf_start started, List.nil_append]

/-- A class has the nouns that lines add to it. -/
theorem mem_members_iff (started : World.start time = .ok first)
    (loaded : load text first = .ok () world) (found : world.members className = .ok nouns)
    {noun : String} :
    noun ∈ nouns ↔ ∃ before added, first.Adds text className before added ∧ noun ∈ added := by
  rw [members_eq_added started loaded found, List.mem_flatMap]
  constructor
  · rintro ⟨change, made, member⟩
    cases change with
    | define name added =>
        rw [Change.added] at member
        split at member
        · rename_i same
          cases same
          rcases List.append_of_mem made with ⟨earlier, later, split⟩
          exact ⟨_, added, ⟨earlier, later, split, rfl⟩, member⟩
        · cases member
    | _ => cases member
  · rintro ⟨_, added, ⟨earlier, later, split, _⟩, member⟩
    refine ⟨.define className added, ?_, ?_⟩
    · rw [split]
      exact List.mem_append_right _ List.mem_cons_self
    · rw [Change.added, if_pos rfl]
      exact member

/-- A class repeats no noun exactly if every line adds to it only what is new. -/
theorem nodup_members_iff (started : World.start time = .ok first)
    (loaded : load text first = .ok () world) (found : world.members className = .ok nouns) :
    nouns.Nodup ↔
      ∀ before added, first.Adds text className before added → before.New className added := by
  rw [← nounsOf_of_members found, eq_change_of_load loaded, nodup_nounsOf_change,
    nounsOf_start started]
  constructor
  · rintro ⟨_, new⟩ _ added ⟨earlier, later, split, rfl⟩
    exact new earlier added later split
  · intro new
    exact ⟨List.nodup_nil, fun earlier added later split =>
      new _ added ⟨earlier, later, split, rfl⟩⟩

/--
What the classes of a world have that has been loaded from a text, and what
the tests of rules make of it.
-/
structure ClassLaw (first : World) (text : String) (world : World) : Prop where
  listed :
    ∀ className nouns, world.members className = .ok nouns →
      nouns = (first.loadProgress text).changes.flatMap (Change.added className)
  members :
    ∀ className nouns, world.members className = .ok nouns → ∀ noun,
      noun ∈ nouns ↔ ∃ before added, first.Adds text className before added ∧ noun ∈ added
  distinct :
    ∀ className nouns, world.members className = .ok nouns →
      (nouns.Nodup ↔
        ∀ before added, first.Adds text className before added → before.New className added)
  lines :
    ∀ className before added, first.Adds text className before added →
      ∃ raw ∈ lines text.toList, before.ClassLine raw className added
  assignments :
    ∀ (rule : Rule) all, rule.assignments world = .ok all →
      (all.Nodup ↔
        all = [] ∨
          ∀ v, Term.var v ∈ rule.slots →
            ∀ nouns, world.members v.className = .ok nouns → nouns.Nodup)
  examined :
    ∀ (rule : Rule) settings before fired after,
      rule.firedBindings settings world before = .ok fired after →
        ∃ all step,
          rule.assignments world = .ok all ∧
            Product.sweep (rule.examine settings world rule.slots rule.limit) all #[] before =
              .ok step after ∧
            fired = (Product.outcome step).toList ∧
            (all.Nodup →
              fired.Pairwise fun left right => ∃ id : Nat, left[id]? ≠ right[id]?)

/--
A class of a world that begins with a text has the nouns that lines name, as
often as they name them.  A test goes through the assignments of nouns to the
slots of its rule, each of which is there once unless a class of a slot has a
noun twice; and if each is there once, the rule fires at most once for a binding.
-/
theorem classes_repeat_what_lines_repeat (opened : Project.openWorld time text = .ok world) :
    ∃ first, World.start time = .ok first ∧ ClassLaw first text world := by
  rcases openWorld_eq_ok.mp opened with ⟨first, started, loaded⟩
  refine ⟨first, started, ?_⟩
  exact
    { listed := fun _ _ found => members_eq_added started loaded found
      members := fun _ _ found _ => mem_members_iff started loaded found
      distinct := fun _ _ found => nodup_members_iff started loaded found
      lines := fun _ _ _ adds => adds.line
      assignments := fun _ _ assigned => Rule.nodup_assignments_iff assigned
      examined := by
        intro rule settings before fired after found
        rcases Rule.firedBindings_eq_ok.mp found with ⟨all, step, assigned, swept, kept⟩
        exact ⟨all, step, assigned, swept, kept,
          fun nodup => Rule.firedBindings_differ assigned nodup found⟩ }

/-- A text with a class that is made of two others and a noun of its own. -/
def troupe : String :=
  "CLASS.SINGERS\tMARTHA, ANNA\nCLASS.DANCERS\tGEORGE\n" ++
    "CLASS.ARTISTS\tCLASS.SINGERS, CLASS.DANCERS, GHOST"

/-- A text with a class that is made of two others, which have a noun in common. -/
def ensemble : String :=
  "CLASS.SINGERS\tMARTHA\nCLASS.DANCERS\tMARTHA\nCLASS.ARTISTS\tCLASS.SINGERS, CLASS.DANCERS"

/-- A world that begins with a text, and a rule about the artists and singers in it. -/
def audition (text : String) : Except Error (World × Rule) := do
  let world ← Project.openWorld 1700 text
  let rule ← Script.readRule "X.ARTISTS ADMIRES Y.SINGERS; 10,0: [T > 1600]".toList
  return (world, rule)

theorem opened_of_audition {text : String} {world : World} {rule : Rule}
    (auditioned : audition text = .ok (world, rule)) :
    Project.openWorld 1700 text = .ok world := by
  rcases bind_eq_ok.mp auditioned with ⟨_, opened, auditioned⟩
  rcases bind_eq_ok.mp auditioned with ⟨_, _, returned⟩
  cases returned
  exact opened

theorem classes_repeat_what_lines_repeat_in_troupe :
    ∃ first world : World, ∃ (rule : Rule) (all : List (List String)),
      Project.openWorld 1700 troupe = .ok world ∧ World.start 1700 = .ok first ∧
      ClassLaw first troupe world ∧
      (∀ before added, first.Adds troupe "ARTISTS" before added →
        before.New "ARTISTS" added) ∧
      rule.assignments world = .ok all ∧ all.length = 8 ∧
      ∀ v, Term.var v ∈ rule.slots →
        ∀ nouns, world.members v.className = .ok nouns → nouns.Nodup := by
  have computed :
      (audition troupe).map
          (fun (world, rule) => (world.members "ARTISTS", rule.assignments world)) =
        .ok
          (.ok ["MARTHA", "ANNA", "GEORGE", "GHOST"],
            .ok
              (["MARTHA", "ANNA", "GEORGE", "GHOST"].flatMap fun artist =>
                [[artist, "MARTHA"], [artist, "ANNA"]])) := by
    decide +kernel
  rcases map_eq_ok.mp computed with ⟨⟨world, rule⟩, auditioned, equal⟩
  rw [Prod.mk.injEq] at equal
  have opened := opened_of_audition auditioned
  rcases classes_repeat_what_lines_repeat opened with ⟨first, started, law⟩
  have new := (law.distinct _ _ equal.1).mp (by decide)
  have distinct := (law.assignments _ _ equal.2).mp (by decide)
  exact ⟨first, world, rule, _, opened, started, law, new, equal.2, by decide,
    distinct.resolve_left (by decide)⟩

/-- If two classes share a noun, a class of both has it twice, and a rule fires for it twice. -/
theorem artists_are_examined_twice :
    ∃ (world : World) (nouns : List String) (rule : Rule) (all : List (List String)),
      Project.openWorld 1700 ensemble = .ok world ∧
      world.members "ARTISTS" = .ok nouns ∧ ¬nouns.Nodup ∧
      rule.assignments world = .ok all ∧ ¬all.Nodup ∧
      ∃ fired source,
        rule.firedBindings { threshold := 10.0, allowDuplicates := true } world (.ofSeed 7) =
          .ok fired source ∧
        fired.map (·.toList) =
          [[(0, "MARTHA"), (1, "MARTHA")], [(0, "MARTHA"), (1, "MARTHA")]] := by
  have computed :
      (audition ensemble).map
          (fun (world, rule) => (world.members "ARTISTS", rule.assignments world)) =
        .ok (.ok ["MARTHA", "MARTHA"], .ok [["MARTHA", "MARTHA"], ["MARTHA", "MARTHA"]]) := by
    decide +kernel
  have tested :
      (audition ensemble).map
          (fun (world, rule) =>
            match rule.firedBindings { threshold := 10.0, allowDuplicates := true } world
                (.ofSeed 7) with
            | .ok fired _ => some (fired.map (·.toList))
            | .error _ _ => none) =
        .ok (some [[(0, "MARTHA"), (1, "MARTHA")], [(0, "MARTHA"), (1, "MARTHA")]]) := by
    decide +kernel
  rcases map_eq_ok.mp computed with ⟨⟨world, rule⟩, auditioned, equal⟩
  rw [Prod.mk.injEq] at equal
  rw [auditioned] at tested
  have firedTwice := Except.ok.inj tested
  dsimp only at firedTwice
  split at firedTwice
  · rename_i fired source found
    exact ⟨world, _, rule, _, opened_of_audition auditioned, equal.1, by decide, equal.2,
      by decide, fired, source, found, Option.some.inj firedTwice⟩
  · cases firedTwice

end World

end Fabula
