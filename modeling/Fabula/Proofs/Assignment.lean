import Fabula.Proofs.Evaluation
import Mathlib.Data.List.Nodup
import Mathlib.Data.List.Pairwise

/-!
# The assignments that a test goes through

A test gives nouns to the slots of a rule, one assignment after another.  Which
assignments these are depends on the classes only: they are the combinations of
the candidates of the slots.  The bindings for which the rule fires belong to
some of them, in the same order.  If no class repeats a noun, then no assignment
occurs twice, and neither does a binding.
-/

namespace Fabula

open Outcome

/-! ## Combinations -/

namespace Product

theorem mem_combinations_iff {α : Type} {lists : List (List α)} {combination : List α} :
    combination ∈ combinations lists ↔
      List.Forall₂ (fun value values => value ∈ values) combination lists := by
  induction lists generalizing combination with
  | nil => rw [mem_combinations_nil, List.forall₂_nil_right_iff]
  | cons values rest ih =>
      rw [mem_combinations_cons, List.forall₂_cons_right_iff]
      constructor
      · rintro ⟨value, inValues, others, inRest, rfl⟩
        exact ⟨value, others, inValues, ih.mp inRest, rfl⟩
      · rintro ⟨value, others, inValues, inRest, rfl⟩
        exact ⟨value, inValues, others, ih.mpr inRest, rfl⟩

theorem disjoint_map_cons_iff {α : Type} {lists : List (List α)} (nonempty : lists ≠ [])
    (first second : α) :
    (lists.map (first :: ·)).Disjoint (lists.map (second :: ·)) ↔ first ≠ second := by
  constructor
  · rintro disjoint rfl
    rcases List.exists_mem_of_ne_nil lists nonempty with ⟨list, member⟩
    exact disjoint (List.mem_map_of_mem member) (List.mem_map_of_mem member)
  · intro different list inFirst inSecond
    rcases List.mem_map.mp inFirst with ⟨_, _, rfl⟩
    rcases List.mem_map.mp inSecond with ⟨_, _, equal⟩
    exact different (List.cons.inj equal).1.symm

/-- Combinations, if there are any, occur once each exactly if no list repeats a value. -/
theorem nodup_combinations_iff {α : Type} {lists : List (List α)} :
    (combinations lists).Nodup ↔
      combinations lists = [] ∨ ∀ values ∈ lists, values.Nodup := by
  induction lists with
  | nil => simp [combinations]
  | cons values rest ih =>
      by_cases none : combinations (values :: rest) = []
      · simp [none]
      · have nonempty : values ≠ [] ∧ combinations rest ≠ [] := by
          rw [combinations_eq_nil_iff, List.mem_cons, not_or, ← combinations_eq_nil_iff] at none
          exact ⟨Ne.symm none.1, none.2⟩
        have sameFirst :
            (∀ value ∈ values, ((combinations rest).map (value :: ·)).Nodup) ↔
              ∀ values ∈ rest, values.Nodup := by
          rcases List.exists_mem_of_ne_nil values nonempty.1 with ⟨value, member⟩
          simp only [List.nodup_map_iff List.cons_injective, ih, or_iff_right nonempty.2]
          exact ⟨fun all => all value member, fun all _ _ => all⟩
        have otherFirst :
            (values.Pairwise fun first second =>
              ((combinations rest).map (first :: ·)).Disjoint
                ((combinations rest).map (second :: ·))) ↔ values.Nodup := by
          simp only [disjoint_map_cons_iff nonempty.2]
          rfl
        rw [or_iff_right none, List.forall_mem_cons, combinations, List.nodup_flatMap, and_comm]
        exact and_congr otherFirst sameFirst

/-- A sweep that keeps some of the values, or what it makes of them, keeps them in their order. -/
theorem sweep_chooses {ε σ α β : Type}
    {visitor : α → Array β → EStateM ε σ (ForInStep (Array β))} {make : α → β}
    (keeps : ∀ value state before step after, visitor value state before = .ok step after →
      outcome step = state ∨ outcome step = state.push (make value))
    {values : List α} {state : Array β} {before after : σ} {step : ForInStep (Array β)}
    (swept : sweep visitor values state before = .ok step after) :
    ∃ chosen : List α, chosen.Sublist values ∧
      (outcome step).toList = state.toList ++ chosen.map make := by
  induction values generalizing state before with
  | nil =>
      cases swept
      exact ⟨[], .slnil, by simp [outcome]⟩
  | cons value rest ih =>
      rcases run_bind_eq_ok.mp swept with ⟨first, middle, visited, swept⟩
      have kept := keeps value state before first middle visited
      cases first with
      | done final =>
          cases swept
          rcases kept with same | pushed
          · exact ⟨[], List.nil_sublist _, by simp [← same, outcome]⟩
          · exact ⟨[value], by simp, by simp [pushed]⟩
      | yield next =>
          rcases ih swept with ⟨chosen, inRest, listed⟩
          rcases kept with same | pushed
          · exact ⟨chosen, inRest.cons value, by rw [listed, ← same]; rfl⟩
          · refine ⟨value :: chosen, inRest.cons_cons value, ?_⟩
            have final : next = state.push (make value) := pushed
            simp [listed, final]

end Product

/-! ## Nouns for terms -/

/-- A term stands for a noun: the noun itself, or a variable for a member of its class. -/
def Term.Ranges (world : World) : Term → String → Prop
  | .noun name, given => given = name
  | .var v, given => ∃ nouns, world.members v.className = .ok nouns ∧ given ∈ nouns

theorem Term.ranges_iff {world : World} {term : Term} {nouns : List String} {given : String}
    (candidates : Rule.candidates world term = .ok nouns) :
    term.Ranges world given ↔ given ∈ nouns := by
  cases term with
  | noun name =>
      cases candidates
      rw [List.mem_singleton]
      rfl
  | var v =>
      constructor
      · rintro ⟨members, found, member⟩
        have same : nouns = members := Except.ok.inj (candidates.symm.trans found)
        rw [same]
        exact member
      · intro member
        exact ⟨nouns, candidates, member⟩

theorem Term.sameSlot_comm (left right : Term) : left.sameSlot right = right.sameSlot left := by
  cases left <;> cases right <;> simp [sameSlot, Bool.beq_comm]

theorem Binding.getElem?_bindAll {binding : Binding} {pairs : List (Variable × String)} {id : Nat}
    {noun : String} (found : (binding.bindAll pairs)[id]? = some noun) :
    binding[id]? = some noun ∨ ∃ v, (v, noun) ∈ pairs ∧ v.id = id := by
  induction pairs generalizing binding with
  | nil => exact .inl found
  | cons pair rest ih =>
      rcases pair with ⟨v, given⟩
      rcases ih found with here | ⟨w, later, same⟩
      · rw [getElem?_bind] at here
        split at here
        · rename_i same
          cases here
          exact .inr ⟨v, List.mem_cons_self, same.symm⟩
        · exact .inl here
      · exact .inr ⟨w, List.mem_cons_of_mem _ later, same⟩

theorem pairwise_eraseDupsBy {α : Type} (same : α → α → Bool) (values : List α) :
    (values.eraseDupsBy same).Pairwise fun kept later => same later kept = false := by
  induction values using eraseDupsBy_induction same with
  | nil => simp
  | cons first rest ih =>
      rw [List.eraseDupsBy_cons, List.pairwise_cons]
      refine ⟨?_, ih⟩
      intro later member
      simpa using (List.mem_filter.mp (mem_of_mem_eraseDupsBy member)).2

namespace Rule

/-! ## Nouns for slots -/

/-- No two slots are for one variable or for one noun. -/
theorem pairwise_slots (rule : Rule) :
    rule.slots.Pairwise fun left right => left.sameSlot right = false := by
  apply (pairwise_eraseDupsBy Term.sameSlot _).imp
  intro left right different
  rw [Term.sameSlot_comm]
  exact different

/-- The noun that a binding of slots gives to a variable is that of its slot. -/
theorem slot_of_getElem?_slotBinding {slots : List Term} {nouns : List String} {id : Nat}
    {noun : String} (found : (slotBinding slots nouns)[id]? = some noun) :
    ∃ v, (Term.var v, noun) ∈ slots.zip nouns ∧ v.id = id := by
  rcases Binding.getElem?_bindAll found with nothing | ⟨v, member, same⟩
  · simp at nothing
  · rcases List.mem_filterMap.mp member with ⟨⟨term, given⟩, inZip, paired⟩
    cases term with
    | noun name => cases paired
    | var w =>
        cases paired
        exact ⟨v, inZip, same⟩

variable {rule : Rule} {nouns others : List String}

/-- As no variable has two slots, a binding of the slots gives to each the noun of its slot. -/
theorem getElem?_slotBinding (enough : nouns.length = rule.slots.length) {v : Variable}
    {noun : String} (given : (Term.var v, noun) ∈ rule.slots.zip nouns) :
    (slotBinding rule.slots nouns)[v.id]? = some noun := by
  have bound : (slotBinding rule.slots nouns).isBound v.id :=
    Binding.isBound_bindAll.mpr (.inr ⟨(v, noun), List.mem_filterMap.mpr ⟨_, given, rfl⟩, rfl⟩)
  rcases Binding.isBound_iff.mp bound with ⟨other, found⟩
  rcases slot_of_getElem?_slotBinding found with ⟨w, otherGiven, same⟩
  have apart :
      (rule.slots.zip nouns).Pairwise fun left right =>
        left.1.sameSlot right.1 = false := by
    have slotsApart := rule.pairwise_slots
    rw [← List.map_fst_zip (Nat.le_of_eq enough.symm), List.pairwise_map] at slotsApart
    exact slotsApart
  have symmetric :
      Std.Symm fun left right : Term × String => left.1.sameSlot right.1 = false :=
    ⟨fun _ _ different => by rw [Term.sameSlot_comm]; exact different⟩
  by_cases equal : (Term.var v, noun) = (Term.var w, other)
  · cases equal
    exact found
  · have different := apart.forall given otherGiven equal
    simp [Term.sameSlot, same] at different

/-! ## Assignments -/

/-- The nouns that a test gives to the slots of a rule, one assignment after another. -/
def assignments (rule : Rule) (world : World) : Except Error (List (List String)) :=
  (rule.slots.mapM (candidates world)).map Product.combinations

variable {world : World} {all : List (List String)}

/-- A test of a rule examines the assignments from the first on, until it has reached its limit. -/
theorem firedBindings_eq_ok {settings : Settings} {before after : Source}
    {fired : List Binding} :
    rule.firedBindings settings world before = .ok fired after ↔
      ∃ all step,
        rule.assignments world = .ok all ∧
          Product.sweep (rule.examine settings world rule.slots rule.limit) all #[] before =
            .ok step after ∧
          fired = (Product.outcome step).toList := by
  rw [assignments]
  cases listed : rule.slots.mapM (candidates world) with
  | error cause =>
      simp only [firedBindings, listed]
      constructor
      · intro found
        cases found
      · rintro ⟨_, _, assigned, _⟩
        cases assigned
  | ok lists =>
      simp only [firedBindings, listed, Product.visit_eq_sweep]
      constructor
      · intro found
        rcases run_bind_eq_ok.mp found with ⟨step, middle, swept, returned⟩
        cases returned
        exact ⟨_, step, rfl, swept, rfl⟩
      · rintro ⟨_, step, assigned, swept, rfl⟩
        cases assigned
        exact run_bind_eq_ok.mpr ⟨step, after, swept, rfl⟩

theorem examine_keeps {settings : Settings} {slots : List Term} {limit : Option Nat}
    {fired : Array Binding} {before after : Source} {step : ForInStep (Array Binding)}
    (examined : rule.examine settings world slots limit nouns fired before = .ok step after) :
    Product.outcome step = fired ∨
      Product.outcome step = fired.push (slotBinding slots nouns) := by
  rw [examine] at examined
  split at examined
  · cases examined
    exact .inl rfl
  · rcases run_bind_eq_ok.mp examined with ⟨fires, middle, _, examined⟩
    cases fires with
    | false =>
        cases examined
        exact .inl rfl
    | true =>
        simp only [if_true] at examined
        split at examined
        · cases examined
          exact .inr rfl
        · cases examined
          exact .inr rfl

/-- The bindings for which a rule fires belong to some of the assignments, in the same order. -/
theorem firedBindings_chooses {settings : Settings} {before after : Source}
    {fired : List Binding}
    (found : rule.firedBindings settings world before = .ok fired after) :
    ∃ (all chosen : List (List String)),
      rule.assignments world = .ok all ∧ chosen.Sublist all ∧
        fired = chosen.map (slotBinding rule.slots) := by
  rcases firedBindings_eq_ok.mp found with ⟨all, step, assigned, swept, rfl⟩
  rcases Product.sweep_chooses (fun _ _ _ _ _ examined => examine_keeps examined) swept with
    ⟨chosen, inAll, listed⟩
  exact ⟨all, chosen, assigned, inAll, listed⟩

/-- The combinations of candidates are all ways to choose a noun for which each term can stand. -/
theorem mem_combinations_candidates {terms : List Term} {lists : List (List String)}
    (listed : terms.mapM (candidates world) = .ok lists) :
    nouns ∈ Product.combinations lists ↔ List.Forall₂ (Term.Ranges world) terms nouns := by
  rw [Product.mem_combinations_iff]
  have paired := mapM_eq_ok.mp listed
  clear listed
  induction paired generalizing nouns with
  | nil => rw [List.forall₂_nil_left_iff, List.forall₂_nil_right_iff]
  | cons candidates _ ih =>
      rw [List.forall₂_cons_left_iff, List.forall₂_cons_right_iff]
      simp only [ih, Term.ranges_iff candidates]

/-- The assignments are all ways to choose a noun for which each slot can stand. -/
theorem mem_assignments_iff (assigned : rule.assignments world = .ok all) :
    nouns ∈ all ↔ List.Forall₂ (Term.Ranges world) rule.slots nouns := by
  rcases map_eq_ok.mp assigned with ⟨lists, listed, rfl⟩
  exact mem_combinations_candidates listed

/-- Assignments, if there are any, occur once each exactly if no class repeats a noun. -/
theorem nodup_assignments_iff (assigned : rule.assignments world = .ok all) :
    all.Nodup ↔
      all = [] ∨
        ∀ v, Term.var v ∈ rule.slots →
          ∀ nouns, world.members v.className = .ok nouns → nouns.Nodup := by
  rcases map_eq_ok.mp assigned with ⟨lists, listed, rfl⟩
  rw [Product.nodup_combinations_iff]
  apply or_congr_right
  constructor
  · intro nodup v isSlot nouns found
    rcases exists_of_mapM_eq_ok listed isSlot with ⟨list, inLists, candidates⟩
    have same : nouns = list := Except.ok.inj (found.symm.trans candidates)
    rw [same]
    exact nodup list inLists
  · intro nodup list inLists
    rcases exists_of_mem_mapM listed inLists with ⟨term, isSlot, candidates⟩
    cases term with
    | noun name =>
        cases candidates
        exact List.nodup_singleton name
    | var v => exact nodup v isSlot list candidates

/-- Two assignments differ in the noun of some variable. -/
theorem slotBinding_differ (assigned : rule.assignments world = .ok all)
    (inAll : nouns ∈ all) (otherInAll : others ∈ all) (different : nouns ≠ others) :
    ∃ id : Nat, (slotBinding rule.slots nouns)[id]? ≠ (slotBinding rule.slots others)[id]? := by
  have ranges := (mem_assignments_iff assigned).mp inAll
  have otherRanges := (mem_assignments_iff assigned).mp otherInAll
  have enough := ranges.length_eq.symm
  have otherEnough := otherRanges.length_eq.symm
  by_contra alike
  simp only [ne_eq, not_exists, not_not] at alike
  apply different
  apply List.ext_getElem (enough.trans otherEnough.symm)
  intro place inside otherInside
  have slotInside : place < rule.slots.length := enough ▸ inside
  have range := ranges.get slotInside inside
  have otherRange := otherRanges.get slotInside otherInside
  have given : (rule.slots[place], nouns[place]) ∈ rule.slots.zip nouns :=
    List.mem_of_getElem? (List.getElem?_zip_eq_some.mpr
      ⟨List.getElem?_eq_getElem slotInside, List.getElem?_eq_getElem inside⟩)
  have otherGiven : (rule.slots[place], others[place]) ∈ rule.slots.zip others :=
    List.mem_of_getElem? (List.getElem?_zip_eq_some.mpr
      ⟨List.getElem?_eq_getElem slotInside, List.getElem?_eq_getElem otherInside⟩)
  rw [List.get_eq_getElem, List.get_eq_getElem] at range otherRange
  cases slot : rule.slots[place] with
  | noun name =>
      rw [slot] at range otherRange
      have first : nouns[place] = name := range
      have second : others[place] = name := otherRange
      rw [first, second]
  | var v =>
      rw [slot] at given otherGiven
      have found := getElem?_slotBinding enough given
      rw [alike, getElem?_slotBinding otherEnough otherGiven] at found
      exact (Option.some.inj found).symm

/-- If no assignment occurs twice, then a rule does not fire twice for one binding. -/
theorem firedBindings_differ (assigned : rule.assignments world = .ok all) (nodup : all.Nodup)
    {settings : Settings} {before after : Source} {fired : List Binding}
    (found : rule.firedBindings settings world before = .ok fired after) :
    fired.Pairwise fun left right => ∃ id : Nat, left[id]? ≠ right[id]? := by
  rcases firedBindings_chooses found with ⟨_, chosen, assignedThere, inAll, rfl⟩
  cases Except.ok.inj (assigned.symm.trans assignedThere)
  rw [List.pairwise_map]
  apply List.Pairwise.imp_of_mem _ (nodup.sublist inAll)
  intro nouns others isChosen otherChosen different
  exact slotBinding_differ assigned (inAll.subset isChosen) (inAll.subset otherChosen) different

end Rule

end Fabula
