import Fabula.Proofs.Assignment
import Fabula.Script.Definition

/-!
# What subrules mean

The locals of a subrule are bound by an existential quantifier: the subrule
holds if nouns can be chosen for those that the header leaves open, each from
its class, such that the condition is true.  The search for such a choice goes
through combinations in some order and stops at the first; its answer depends
neither on the order of the locals nor on how the classes list their members.
-/

namespace Fabula

open Outcome

/-! ## Choices of nouns -/

/-- A term stands for the same nouns where its candidates are the same but for order and number. -/
theorem Term.ranges_congr_of_candidates {world other : World} {term : Term}
    {nouns others : List String}
    (candidates : Rule.candidates world term = .ok nouns)
    (otherCandidates : Rule.candidates other term = .ok others)
    (fewer : others ⊆ nouns) (more : nouns ⊆ others) (given : String) :
    term.Ranges other given ↔ term.Ranges world given := by
  rw [ranges_iff candidates, ranges_iff otherCandidates]
  exact ⟨fun member => fewer member, fun member => more member⟩

/-- A choice of nouns is what distinct variables get if they are given as many nouns. -/
theorem exists_choice {vars : List Variable} (distinct : (vars.map (·.id)).Nodup)
    {nouns : List String} (enough : vars.length = nouns.length) :
    ∃ choice : Nat → String, (vars.map fun v => choice v.id) = nouns := by
  induction vars generalizing nouns with
  | nil =>
      rw [List.length_nil, eq_comm, List.length_eq_zero_iff] at enough
      exact ⟨fun _ => "", enough.symm⟩
  | cons v rest ih =>
      rcases List.exists_cons_of_length_eq_add_one enough.symm with ⟨noun, others, rfl⟩
      rw [List.map_cons, List.nodup_cons] at distinct
      rcases ih distinct.2 (Nat.succ.inj enough) with ⟨choice, chosen⟩
      refine ⟨Function.update choice v.id noun, ?_⟩
      rw [List.map_cons, Function.update_self, ← chosen]
      congr 1
      apply List.map_congr_left
      intro w member
      apply Function.update_of_ne
      intro same
      exact distinct.1 (List.mem_map.mpr ⟨w, member, same⟩)

/-- Variables that get what is chosen for them have it, whatever they had before. -/
theorem Binding.getElem?_bindAll_choice (binding : Binding) (vars : List Variable)
    (choice : Nat → String) (id : Nat) :
    (binding.bindAll (vars.zip (vars.map fun v => choice v.id)))[id]? =
      if ∃ v ∈ vars, v.id = id then some (choice id) else binding[id]? := by
  induction vars generalizing binding with
  | nil => simp [bindAll]
  | cons v rest ih =>
      rw [List.map_cons, List.zip_cons_cons, bindAll, ih, getElem?_bind]
      by_cases later : ∃ w ∈ rest, w.id = id
      · simp [later]
      · by_cases here : v.id = id
        · simp [later, here]
        · simp [later, here, Ne.symm here]

namespace Subrule

/-- A noun is chosen from the class of every local to which the header gives none. -/
def Chooses (subrule : Subrule) (world : World) (header : Binding) (choice : Nat → String) :
    Prop :=
  ∀ v ∈ subrule.locals, ¬header.isBound v.id → (Term.var v).Ranges world (choice v.id)

variable {subrule : Subrule} {world : World} {header : Binding} {choice : Nat → String}

/-- The choices of nouns are the combinations of candidates for the free locals. -/
theorem chooses_iff_mem_combinations {lists : List (List String)}
    (listed : ((subrule.free header).mapM fun v => world.members v.className) = .ok lists) :
    subrule.Chooses world header choice ↔
      ((subrule.free header).map fun v => choice v.id) ∈ Product.combinations lists := by
  have candidates :
      ((subrule.free header).map Term.var).mapM (Rule.candidates world) = .ok lists := by
    rw [List.mapM_map]
    exact listed
  rw [Rule.mem_combinations_candidates candidates, List.forall₂_map_left_iff,
    List.forall₂_map_right_iff, List.forall₂_same]
  constructor
  · intro chooses v isFree
    exact chooses v (mem_free.mp isFree).1 (mem_free.mp isFree).2
  · intro ranges v isLocal unbound
    exact ranges v (mem_free.mpr ⟨isLocal, unbound⟩)

/-- With a choice for its free locals, a header gives a noun to each variable of the condition. -/
theorem gives_completed (choice : Nat → String)
    (known : ∀ v ∈ subrule.condition.mentioned,
      header.isBound v.id ∨ ∃ w ∈ subrule.locals, w.id = v.id) :
    (header.bindAll ((subrule.free header).zip
        ((subrule.free header).map fun v => choice v.id))).Gives
      (header.completed choice) subrule.condition.mentioned := by
  intro v mentioned
  rw [Binding.getElem?_bindAll_choice, Binding.completed]
  by_cases bound : header.isBound v.id
  · have notFree : ¬∃ w ∈ subrule.free header, w.id = v.id := by
      rintro ⟨w, isFree, same⟩
      rw [← same] at bound
      exact (mem_free.mp isFree).2 bound
    rcases Binding.isBound_iff.mp bound with ⟨noun, found⟩
    rw [if_neg notFree, found, Option.getD_some]
  · rcases (known v mentioned).resolve_left bound with ⟨w, isLocal, same⟩
    have isFree : ∃ w ∈ subrule.free header, w.id = v.id := by
      refine ⟨w, mem_free.mpr ⟨isLocal, ?_⟩, same⟩
      rw [same]
      exact bound
    have nothing : header[v.id]? = none := by
      rw [Option.eq_none_iff_forall_ne_some]
      exact fun noun found => bound (Binding.isBound_iff.mpr ⟨noun, found⟩)
    rw [if_pos isFree, nothing, Option.getD_none]

/-! ## The meaning of a subrule -/

/--
A subrule holds if the condition is true for some choice of nouns for the free
locals.  Every combination is such a choice, and a choice settles the truth of the
condition.
-/
theorem holds_iff_exists_choice (distinct : (subrule.locals.map (·.id)).Nodup)
    (defined : ∀ v ∈ subrule.locals, v.className ∈ world.classes)
    (known : ∀ v ∈ subrule.condition.mentioned,
      header.isBound v.id ∨ ∃ w ∈ subrule.locals, w.id = v.id) :
    ∃ truth, subrule.holds world header = .ok truth ∧
      (truth = true ↔ ∃ choice, subrule.Chooses world header choice ∧
        subrule.condition.Holds world (header.completed choice)) := by
  obtain ⟨lists, listed⟩ :
      ∃ lists, ((subrule.free header).mapM fun v => world.members v.className) = .ok lists :=
    exists_candidates defined
  have distinctFree : ((subrule.free header).map (·.id)).Nodup :=
    distinct.sublist (List.filter_sublist.map _)
  have sameLength := (mapM_eq_ok.mp listed).length_eq
  have isChoice :
      ∀ nouns ∈ Product.combinations lists, ∃ choice : Nat → String,
        ((subrule.free header).map fun v => choice v.id) = nouns := by
    intro nouns member
    apply exists_choice distinctFree
    rw [Product.length_of_mem_combinations member, sameLength]
  have evaluates (choice : Nat → String) :=
    Condition.evaluate_iff_holds world subrule.condition (gives_completed choice known)
  have succeeds :
      ∀ nouns ∈ Product.combinations lists, ∃ truth,
        subrule.condition.evaluate world (header.bindAll ((subrule.free header).zip nouns)) =
          .ok truth := by
    intro nouns member
    rcases isChoice nouns member with ⟨choice, rfl⟩
    rcases evaluates choice with ⟨truth, evaluated, _⟩
    exact ⟨truth, evaluated⟩
  rcases holds_iff_exists_combination listed succeeds with ⟨truth, holds, means⟩
  refine ⟨truth, holds, means.trans ?_⟩
  constructor
  · rintro ⟨nouns, member, isTrue⟩
    rcases isChoice nouns member with ⟨choice, rfl⟩
    rcases evaluates choice with ⟨truth, evaluated, meaning⟩
    cases Except.ok.inj (evaluated.symm.trans isTrue)
    exact ⟨choice, (chooses_iff_mem_combinations listed).mpr member, meaning.mp rfl⟩
  · rintro ⟨choice, chooses, isTrue⟩
    rcases evaluates choice with ⟨truth, evaluated, meaning⟩
    cases meaning.mpr isTrue
    exact ⟨_, (chooses_iff_mem_combinations listed).mp chooses, evaluated⟩

/--
A subrule has a truth value if its locals are distinct, their classes are
defined, and the condition mentions only them and variables of the header.  It
is true exactly if the condition is true for some choice of nouns for the locals
that the header leaves open.  The order of the locals does not matter, nor the
order in which classes list their members, nor how often they do so.
-/
theorem holds_means_some_choice (distinct : (subrule.locals.map (·.id)).Nodup)
    (defined : ∀ v ∈ subrule.locals, v.className ∈ world.classes)
    (known : ∀ v ∈ subrule.condition.mentioned,
      header.isBound v.id ∨ ∃ w ∈ subrule.locals, w.id = v.id) :
    (∃ truth, subrule.holds world header = .ok truth ∧
        (truth = true ↔ ∃ choice, subrule.Chooses world header choice ∧
          subrule.condition.Holds world (header.completed choice))) ∧
      ∀ (other : Subrule) (classes : NameTable),
        other.condition = subrule.condition →
        other.locals.Perm subrule.locals →
        (∀ v ∈ subrule.locals, v.className ∈ classes ∧
          ∀ noun, (Term.var v).Ranges { world with classes } noun ↔
            (Term.var v).Ranges world noun) →
        other.holds { world with classes } header = subrule.holds world header := by
  refine ⟨holds_iff_exists_choice distinct defined known, ?_⟩
  intro other classes sameCondition permuted sameMembers
  have sameLocals (v : Variable) : v ∈ other.locals ↔ v ∈ subrule.locals := permuted.mem_iff
  have otherDistinct : (other.locals.map (·.id)).Nodup :=
    (permuted.map (·.id)).nodup_iff.mpr distinct
  have otherDefined : ∀ v ∈ other.locals, v.className ∈ classes :=
    fun v member => (sameMembers v ((sameLocals v).mp member)).1
  have otherKnown :
      ∀ v ∈ other.condition.mentioned,
        header.isBound v.id ∨ ∃ w ∈ other.locals, w.id = v.id := by
    simpa only [sameCondition, sameLocals] using known
  have sameChoices (choice : Nat → String) :
      other.Chooses { world with classes } header choice ↔
        subrule.Chooses world header choice := by
    simp only [Chooses, sameLocals]
    exact forall₂_congr fun v member => imp_congr_right fun _ => (sameMembers v member).2 _
  rcases holds_iff_exists_choice distinct defined known with ⟨truth, holds, means⟩
  obtain ⟨otherTruth, otherHolds, otherMeans⟩ :
      ∃ truth, other.holds { world with classes } header = .ok truth ∧
        (truth = true ↔ ∃ choice, other.Chooses { world with classes } header choice ∧
          other.condition.Holds { world with classes } (header.completed choice)) :=
    holds_iff_exists_choice otherDistinct otherDefined otherKnown
  simp only [sameChoices, sameCondition, Condition.holds_with_classes_iff, ← means] at otherMeans
  rw [holds, otherHolds, Bool.eq_iff_iff.mpr otherMeans]

/-- A rule with two locals, one of them in two sentences. -/
def leaveTakingRule : List Char :=
  "X.PEOPLE LEAVES; 0.5,0: (#A.PEOPLE HATES X) & (#A IN #R.ROOMS) / [T > 2200]".toList

/-- A house with two people, one of whom is in the cellar and hates the other. -/
def manor : World :=
  let empty : World :=
    { clock := { time := 1700, elapsed := 0 }
      network := .empty
      classes := (NameTable.extend ∅ "PEOPLE" ["GEORGE", "MARTHA"]).extend "ROOMS"
        ["HALL", "CELLAR"]
      pending := #[]
      nextId := 0
      chronicle := ∅ }
  (empty.assertFact ⟨"MARTHA", "HATES", some "GEORGE"⟩).assertFact
    ⟨"MARTHA", "IN", some "CELLAR"⟩

/-- The same people and rooms in another order, and one of them twice. -/
def recounted : NameTable :=
  (NameTable.extend ∅ "PEOPLE" ["MARTHA", "GEORGE", "MARTHA"]).extend "ROOMS" ["CELLAR", "HALL"]

/-- The nouns for the actions of the rule when George leaves. -/
def parting : Binding :=
  Binding.bind ∅ 0 "GEORGE"

/-- Martha, who hates George, is in some room, however people and rooms are counted. -/
theorem holds_means_some_choice_in_manor :
    ∃ rule subrule,
      Script.readRule leaveTakingRule = .ok rule ∧ subrule ∈ rule.subrules ∧
        subrule.locals.length = 2 ∧ (subrule.locals.map (·.id)).Nodup ∧
        (∃ choice, subrule.Chooses manor parting choice ∧
          subrule.condition.Holds manor (parting.completed choice)) ∧
        ({ subrule with locals := subrule.locals.reverse }.holds
          { manor with classes := recounted } parting = .ok true) := by
  have tested :
      (Script.readRule leaveTakingRule).map (fun rule =>
        rule.subrules.map fun subrule => decide (
          subrule.locals.length = 2 ∧
          (subrule.locals.map (·.id)).Nodup ∧
          (∀ v ∈ subrule.locals, v.className = "PEOPLE" ∨ v.className = "ROOMS") ∧
          (∀ v ∈ subrule.condition.mentioned,
            parting.isBound v.id ∨ ∃ w ∈ subrule.locals, w.id = v.id) ∧
          subrule.holds manor parting = .ok true)) =
      .ok [true] := by
    decide +kernel
  rcases map_eq_ok.mp tested with ⟨rule, read, result⟩
  rcases List.map_eq_singleton_iff.mp result with ⟨subrule, subrules, result⟩
  rcases of_decide_eq_true result with ⟨two, distinct, classes, known, holds⟩
  have defined : ∀ v ∈ subrule.locals, v.className ∈ manor.classes := by
    intro v member
    rcases classes v member with name | name
    · rw [name]
      decide
    · rw [name]
      decide
  rcases holds_means_some_choice distinct defined known with ⟨⟨truth, found, means⟩, same⟩
  cases Except.ok.inj (found.symm.trans holds)
  refine ⟨rule, subrule, read, ?_, two, distinct, means.mp rfl, ?_⟩
  · rw [subrules]
    exact List.mem_singleton_self _
  · rw [← holds]
    apply same { subrule with locals := subrule.locals.reverse } recounted rfl
      (List.reverse_perm _)
    intro v member
    rcases classes v member with people | rooms
    · have before : Rule.candidates manor (.var v) = .ok ["GEORGE", "MARTHA"] := by
        rw [Rule.candidates, people]
        decide
      have after : Rule.candidates { manor with classes := recounted } (.var v) =
          .ok ["MARTHA", "GEORGE", "MARTHA"] := by
        rw [Rule.candidates, people]
        decide
      refine ⟨?_, Term.ranges_congr_of_candidates before after (by decide) (by decide)⟩
      rw [people]
      decide
    · have before : Rule.candidates manor (.var v) = .ok ["HALL", "CELLAR"] := by
        rw [Rule.candidates, rooms]
        decide
      have after : Rule.candidates { manor with classes := recounted } (.var v) =
          .ok ["CELLAR", "HALL"] := by
        rw [Rule.candidates, rooms]
        decide
      refine ⟨?_, Term.ranges_congr_of_candidates before after (by decide) (by decide)⟩
      rw [rooms]
      decide

end Subrule

end Fabula
