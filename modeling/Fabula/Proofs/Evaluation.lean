import Fabula.Proofs.Product
import Fabula.Proofs.Truth
import Fabula.Rule

/-!
# Closed rules are tested without errors

A variable without a noun and a class without a definition are the two errors
of an evaluation.  Neither occurs in a test of a closed rule whose variables
have defined classes: a combination of nouns for the slots covers what the
actions mention, and together with nouns for the locals of a subrule it covers
what the condition of the subrule mentions.
-/

namespace Fabula

open Outcome

/-! ## Bindings that cover variables -/

namespace Binding

/-- A binding has a noun for each of some variables. -/
def Covers (binding : Binding) (needed : List Variable) : Prop :=
  ∀ v ∈ needed, binding.isBound v.id

theorem isBound_iff {binding : Binding} {id : Nat} :
    binding.isBound id ↔ ∃ noun, binding[id]? = some noun := by
  rw [isBound]
  rw [Std.TreeMap.contains_eq_isSome_getElem?, Option.isSome_iff_exists]

theorem isBound_bind {binding : Binding} {id other : Nat} {noun : String} :
    (binding.bind id noun).isBound other ↔ other = id ∨ binding.isBound other := by
  rw [isBound_iff, isBound_iff, getElem?_bind]
  by_cases same : other = id
  · simp [same]
  · simp [same]

theorem isBound_bindAll {binding : Binding} {pairs : List (Variable × String)} {id : Nat} :
    (binding.bindAll pairs).isBound id ↔
      binding.isBound id ∨ ∃ pair ∈ pairs, pair.1.id = id := by
  induction pairs generalizing binding with
  | nil => simp [bindAll]
  | cons pair rest ih =>
      rw [bindAll, ih, isBound_bind]
      constructor
      · rintro ((rfl | old) | ⟨later, member, rfl⟩)
        · exact .inr ⟨pair, List.mem_cons_self, rfl⟩
        · exact .inl old
        · exact .inr ⟨later, List.mem_cons_of_mem _ member, rfl⟩
      · rintro (old | ⟨other, member, rfl⟩)
        · exact .inl (.inr old)
        · rcases List.mem_cons.mp member with rfl | later
          · exact .inl (.inl rfl)
          · exact .inr ⟨other, later, rfl⟩

/-- Giving nouns to variables, one for each, binds them all. -/
theorem isBound_bindAll_zip {binding : Binding} {given : List Variable}
    {nouns : List String} {v : Variable} (enough : given.length ≤ nouns.length)
    (member : v ∈ given) : (binding.bindAll (given.zip nouns)).isBound v.id := by
  rw [← List.map_fst_zip enough] at member
  rcases List.mem_map.mp member with ⟨pair, inPairs, rfl⟩
  exact isBound_bindAll.mpr (.inr ⟨pair, inPairs, rfl⟩)

theorem Covers.mono {binding : Binding} {needed others : List Variable}
    (covered : binding.Covers needed) (fewer : ∀ v ∈ others, v ∈ needed) :
    binding.Covers others :=
  fun v member => covered v (fewer v member)

/-- A binding that covers variables gives each the noun that it has for it. -/
theorem Covers.gives {binding : Binding} {needed : List Variable}
    (covered : binding.Covers needed) (choice : Nat → String) :
    binding.Gives (binding.completed choice) needed := by
  intro v member
  rcases isBound_iff.mp (covered v member) with ⟨noun, found⟩
  rw [completed, found, Option.getD_some]

/-- A statement can be grounded if all that it mentions has a noun. -/
theorem ground_succeeds {binding : Binding} {statement : Statement Term}
    (covered : binding.Covers statement.mentioned) :
    ∃ effect, binding.ground statement = .ok effect :=
  ⟨_, ground_eq (covered.gives fun _ => "")⟩

end Binding

/-- A condition has a truth value under a binding for all that it mentions. -/
theorem Condition.evaluate_succeeds (world : World) {binding : Binding}
    {condition : Condition} (covered : binding.Covers condition.mentioned) :
    ∃ truth, condition.evaluate world binding = .ok truth := by
  rcases evaluate_iff_holds world condition (covered.gives fun _ => "") with ⟨truth, evaluated, _⟩
  exact ⟨truth, evaluated⟩

/-! ## Rules that a world supports -/

/-- A closed rule whose variables range over classes that are defined. -/
structure Rule.Supported (rule : Rule) (classes : NameTable) : Prop where
  closed : rule.Closed
  parameters : ∀ v ∈ rule.parameters, v.className ∈ classes
  locals : ∀ subrule ∈ rule.subrules, ∀ v ∈ subrule.locals, v.className ∈ classes

theorem World.members_succeeds {world : World} {className : String}
    (defined : className ∈ world.classes) :
    ∃ nouns, world.members className = .ok nouns := by
  rw [← Std.TreeMap.isSome_getElem?_iff_mem, Option.isSome_iff_exists] at defined
  rcases defined with ⟨nouns, found⟩
  exact ⟨nouns, by rw [World.members, found]⟩

/-! ## Subrules -/

namespace Subrule

variable {subrule : Subrule} {world : World} {header : Binding}

/-- If the condition has a truth value for all choices of nouns, it is tried up to the first
for which it is true. -/
theorem sweep_tryNouns {vars : List Variable} {all : List (List String)}
    (evaluates : ∀ nouns ∈ all, ∃ truth,
      subrule.condition.evaluate world (header.bindAll (vars.zip nouns)) = .ok truth) :
    ∃ step, Product.sweep (subrule.tryNouns world header vars) all false = .ok step ∧
      (Product.outcome step = true ↔ ∃ nouns ∈ all,
        subrule.condition.evaluate world (header.bindAll (vars.zip nouns)) = .ok true) := by
  induction all with
  | nil => exact ⟨.yield false, rfl, by simp [Product.outcome]⟩
  | cons nouns rest ih =>
      rw [List.forall_mem_cons] at evaluates
      rcases evaluates with ⟨⟨truth, evaluated⟩, restEvaluates⟩
      rw [List.exists_mem_cons_iff, evaluated]
      cases truth with
      | true =>
          have tried : subrule.tryNouns world header vars nouns false = .ok (.done true) :=
            bind_eq_ok.mpr ⟨true, evaluated, rfl⟩
          exact ⟨.done true, bind_eq_ok.mpr ⟨_, tried, rfl⟩, by simp [Product.outcome]⟩
      | false =>
          have tried : subrule.tryNouns world header vars nouns false = .ok (.yield false) :=
            bind_eq_ok.mpr ⟨false, evaluated, rfl⟩
          rcases ih restEvaluates with ⟨step, swept, means⟩
          exact ⟨step, bind_eq_ok.mpr ⟨_, tried, swept⟩, by simpa using means⟩

/-- The free locals of a subrule have candidates if their classes are defined. -/
theorem exists_candidates (defined : ∀ v ∈ subrule.locals, v.className ∈ world.classes) :
    ∃ lists, ((subrule.free header).mapM fun v => world.members v.className) = .ok lists := by
  apply mapM_succeeds
  intro v isFree
  exact World.members_succeeds (defined v (List.mem_filter.mp isFree).1)

/-- A subrule holds if its condition is true for some combination of candidates. -/
theorem holds_iff_exists_combination {lists : List (List String)}
    (listed : ((subrule.free header).mapM fun v => world.members v.className) = .ok lists)
    (evaluates : ∀ nouns ∈ Product.combinations lists, ∃ truth,
      subrule.condition.evaluate world (header.bindAll ((subrule.free header).zip nouns)) =
        .ok truth) :
    ∃ truth, subrule.holds world header = .ok truth ∧
      (truth = true ↔ ∃ nouns ∈ Product.combinations lists,
        subrule.condition.evaluate world (header.bindAll ((subrule.free header).zip nouns)) =
          .ok true) := by
  rcases sweep_tryNouns evaluates with ⟨step, swept, means⟩
  rw [← Product.visit_eq_sweep] at swept
  exact ⟨Product.outcome step, bind_eq_ok.mpr ⟨lists, listed,
    bind_eq_ok.mpr ⟨step, swept, rfl⟩⟩, means⟩

/-- A local to which the header gives no noun is free. -/
theorem mem_free {v : Variable} :
    v ∈ subrule.free header ↔ v ∈ subrule.locals ∧ ¬header.isBound v.id := by
  simp [free]

/-- Nouns for the free locals bind, with the header, all that a condition mentions. -/
theorem covers_bindAll {nouns : List String}
    (enough : nouns.length = (subrule.free header).length)
    (known : ∀ v ∈ subrule.condition.mentioned,
      header.isBound v.id ∨ ∃ w ∈ subrule.locals, w.id = v.id) :
    (header.bindAll ((subrule.free header).zip nouns)).Covers
      subrule.condition.mentioned := by
  intro v mentioned
  by_cases bound : header.isBound v.id
  · exact Binding.isBound_bindAll.mpr (.inl bound)
  · rcases (known v mentioned).resolve_left bound with ⟨w, declared, same⟩
    rw [← same] at bound ⊢
    exact Binding.isBound_bindAll_zip (Nat.le_of_eq enough.symm) (mem_free.mpr ⟨declared, bound⟩)

/-- A subrule has a truth value, whatever its locals range over. -/
theorem holds_succeeds (defined : ∀ v ∈ subrule.locals, v.className ∈ world.classes)
    (known : ∀ v ∈ subrule.condition.mentioned,
      header.isBound v.id ∨ ∃ w ∈ subrule.locals, w.id = v.id) :
    ∃ truth, subrule.holds world header = .ok truth := by
  rcases exists_candidates defined with ⟨lists, listed⟩
  have sameLength := (mapM_eq_ok.mp listed).length_eq
  have evaluates :
      ∀ nouns ∈ Product.combinations lists, ∃ truth,
        subrule.condition.evaluate world (header.bindAll ((subrule.free header).zip nouns)) =
          .ok truth := by
    intro nouns member
    have enough : nouns.length = (subrule.free header).length := by
      rw [Product.length_of_mem_combinations member, sameLength]
    exact Condition.evaluate_succeeds world (covers_bindAll enough known)
  rcases holds_iff_exists_combination listed evaluates with ⟨truth, holds, _⟩
  exact ⟨truth, holds⟩

end Subrule

/-! ## Slots -/

theorem eraseDupsBy_induction {α : Type} (same : α → α → Bool) {motive : List α → Prop}
    (nil : motive [])
    (cons : ∀ first rest, motive (rest.filter fun other => same other first = false) →
      motive (first :: rest))
    (values : List α) : motive values := by
  induction length : values.length using Nat.strongRecOn generalizing values with
  | _ size ih =>
      cases values with
      | nil => exact nil
      | cons first rest =>
          apply cons
          have shorter :
              (rest.filter fun other => same other first = false).length < size := by
            rw [← length, List.length_cons]
            exact Nat.lt_succ_of_le (List.length_filter_le _ _)
          exact ih _ shorter _ rfl

/-- Whatever stood in a list has a representative after duplicates are erased. -/
theorem exists_mem_eraseDupsBy {α : Type} {same : α → α → Bool} {values : List α}
    {value : α} (reflexive : ∀ value, same value value) (member : value ∈ values) :
    ∃ kept ∈ values.eraseDupsBy same, same value kept := by
  induction values using eraseDupsBy_induction same with
  | nil => cases member
  | cons first rest ih =>
      rw [List.eraseDupsBy_cons]
      by_cases equal : same value first
      · exact ⟨first, List.mem_cons_self, equal⟩
      · have inRest : value ∈ rest := by
          rcases List.mem_cons.mp member with rfl | later
          · exact absurd (reflexive value) equal
          · exact later
        have survives : value ∈ rest.filter fun other => same other first = false := by
          rw [List.mem_filter]
          exact ⟨inRest, by simpa using equal⟩
        rcases ih survives with ⟨kept, inKept, equal⟩
        exact ⟨kept, List.mem_cons_of_mem _ inKept, equal⟩

theorem mem_of_mem_eraseDupsBy {α : Type} {same : α → α → Bool} {values : List α}
    {value : α} (member : value ∈ values.eraseDupsBy same) : value ∈ values := by
  induction values using eraseDupsBy_induction same with
  | nil => simp at member
  | cons first rest ih =>
      rw [List.eraseDupsBy_cons] at member
      rcases List.mem_cons.mp member with rfl | later
      · exact List.mem_cons_self
      · exact List.mem_cons_of_mem _ (List.mem_filter.mp (ih later)).1

theorem Term.sameSlot_refl (term : Term) : term.sameSlot term := by
  cases term <;> simp [sameSlot]

namespace Rule

/-- A variable of the actions has a slot. -/
theorem exists_slot {rule : Rule} {v : Variable} (mentioned : v ∈ rule.mentioned) :
    ∃ w, Term.var w ∈ rule.slots ∧ w.id = v.id := by
  rcases List.mem_flatMap.mp mentioned with ⟨action, inRule, inAction⟩
  rcases List.mem_flatMap.mp inAction with ⟨term, inParts, inTerm⟩
  rcases Term.mem_mentioned.mp inTerm with ⟨w, rfl, rfl⟩
  have occurs : Term.var w ∈ rule.actions.flatMap (·.statement.parts) :=
    List.mem_flatMap.mpr ⟨action, inRule, inParts⟩
  rcases exists_mem_eraseDupsBy Term.sameSlot_refl occurs with ⟨kept, inSlots, same⟩
  cases kept with
  | noun name => cases same
  | var u =>
      have sameId : (w.id == u.id) = true := same
      exact ⟨u, inSlots, (beq_iff_eq.mp sameId).symm⟩

/-- A slot that is a variable is mentioned by the actions. -/
theorem mentioned_of_mem_slots {rule : Rule} {v : Variable}
    (member : Term.var v ∈ rule.slots) : v.unlimited ∈ rule.mentioned := by
  have occurs := mem_of_mem_eraseDupsBy member
  rcases List.mem_flatMap.mp occurs with ⟨action, inRule, inParts⟩
  exact List.mem_flatMap.mpr ⟨action, inRule,
    List.mem_flatMap.mpr ⟨_, inParts, Term.mem_mentioned.mpr ⟨v, rfl, rfl⟩⟩⟩

/-- Nouns for all slots bind all that the actions mention. -/
theorem covers_slotBinding {rule : Rule} {nouns : List String}
    (enough : nouns.length = rule.slots.length) :
    (slotBinding rule.slots nouns).Covers rule.mentioned := by
  intro v mentioned
  rcases exists_slot mentioned with ⟨w, inSlots, same⟩
  rw [← List.map_fst_zip (Nat.le_of_eq enough.symm)] at inSlots
  rcases List.mem_map.mp inSlots with ⟨⟨term, noun⟩, inZip, equal⟩
  cases equal
  apply Binding.isBound_bindAll.mpr
  refine .inr ⟨(w, noun), ?_, same⟩
  exact List.mem_filterMap.mpr ⟨_, inZip, rfl⟩

/-! ## Tests -/

/-- Every slot of a supported rule has candidates. -/
theorem candidates_succeed {rule : Rule} {world : World}
    (supported : rule.Supported world.classes) :
    ∃ lists, rule.slots.mapM (candidates world) = .ok lists := by
  apply mapM_succeeds
  intro term member
  cases term with
  | noun name => exact ⟨[name], rfl⟩
  | var v =>
      have declared := supported.closed.declared _ (mentioned_of_mem_slots member)
      rcases List.mem_map.mp declared with ⟨parameter, isParameter, equal⟩
      have sameClass := congrArg Variable.className equal
      change parameter.className = v.className at sameClass
      have defined := supported.parameters parameter isParameter
      rw [sameClass] at defined
      exact World.members_succeeds defined

theorem verdictFrom_succeeds {settings : Settings} {world : World} {binding : Binding}
    {probability : Float} {subrules : List Subrule}
    (succeeds : ∀ subrule ∈ subrules, ∃ truth, subrule.holds world binding = .ok truth) :
    ∃ verdict, verdictFrom settings world binding probability subrules = .ok verdict := by
  induction subrules generalizing probability with
  | nil => exact ⟨.chance probability, rfl⟩
  | cons subrule rest ih =>
      rw [List.forall_mem_cons] at succeeds
      rcases succeeds.1 with ⟨truth, holds⟩
      by_cases decides : settings.threshold ≤ (subrule.increment truth).abs
      · refine ⟨.decided (0.0 < subrule.increment truth), bind_eq_ok.mpr ⟨truth, holds, ?_⟩⟩
        rw [if_pos decides]
        rfl
      · rcases @ih (probability + subrule.increment truth) succeeds.2 with ⟨verdict, found⟩
        refine ⟨verdict, bind_eq_ok.mpr ⟨truth, holds, ?_⟩⟩
        rw [if_neg decides]
        exact found

/-- The subrules of a supported rule have a verdict on bindings that cover its actions. -/
theorem verdict_succeeds {rule : Rule} {world : World} (settings : Settings)
    {binding : Binding} (supported : rule.Supported world.classes)
    (covered : binding.Covers rule.mentioned) :
    ∃ verdict, rule.verdict settings world binding = .ok verdict := by
  apply verdictFrom_succeeds
  intro subrule member
  apply Subrule.holds_succeeds (supported.locals subrule member)
  intro v mentioned
  have declared := supported.closed.conditions subrule member v mentioned
  rw [List.map_append, List.mem_append] at declared
  rcases declared with isParameter | isLocal
  · exact .inl (covered v (supported.closed.used v isParameter))
  · rcases List.mem_map.mp isLocal with ⟨w, declared, rfl⟩
    exact .inr ⟨w, declared, rfl⟩

/-- Whatever a source has given before, it decides about a binding. -/
theorem triggered_yields {rule : Rule} {world : World} (settings : Settings)
    {binding : Binding} (supported : rule.Supported world.classes)
    (covered : binding.Covers rule.mentioned) :
    (Success.keeping fun _ => True).Yields (rule.triggered settings world binding)
      fun _ => True := by
  intro source _
  rcases verdict_succeeds settings supported covered with ⟨verdict, found⟩
  cases verdict with
  | decided fires =>
      exact ⟨fires, source, by rw [triggered, found], trivial, trivial⟩
  | chance probability =>
      exact ⟨_, source.draw.2, by rw [triggered, found], trivial, trivial⟩

/-- A rule fires for bindings only that cover its actions. -/
theorem examine_yields {rule : Rule} {world : World} (settings : Settings)
    {nouns : List String} {fired : Array Binding}
    (supported : rule.Supported world.classes)
    (enough : nouns.length = rule.slots.length)
    (covered : ∀ binding ∈ fired, binding.Covers rule.mentioned) :
    (Success.keeping fun _ => True).Yields
      (rule.examine settings world rule.slots rule.limit nouns fired)
      fun step => ∀ binding ∈ Product.outcome step, binding.Covers rule.mentioned := by
  rw [examine]
  split
  · exact Success.pure _ covered
  · have bindingCovers := covers_slotBinding enough
    refine Success.bind _ (triggered_yields settings supported bindingCovers) ?_
    intro fires _
    cases fires with
    | false => exact Success.pure _ covered
    | true =>
        have allCovered :
            ∀ binding ∈ fired.push (slotBinding rule.slots nouns),
              binding.Covers rule.mentioned := by
          intro binding member
          rcases Array.mem_push.mp member with old | rfl
          · exact covered binding old
          · exact bindingCovers
        apply Success.pure
        split
        · exact allCovered
        · exact allCovered

theorem firedBindings_yields {rule : Rule} {world : World} (settings : Settings)
    (supported : rule.Supported world.classes) :
    (Success.keeping fun _ => True).Yields (rule.firedBindings settings world)
      fun fired => ∀ binding ∈ fired, binding.Covers rule.mentioned := by
  rcases candidates_succeed supported with ⟨lists, listed⟩
  have sameLength : rule.slots.length = lists.length :=
    (mapM_eq_ok.mp listed).length_eq
  simp only [firedBindings, listed]
  refine Success.bind _ (Product.visit_keeps _ ?_ ?_ ?_) ?_
  · exact fun fired => ∀ binding ∈ fired, binding.Covers rule.mentioned
  · intro binding member
    simp at member
  · intro nouns member fired covered
    apply examine_yields settings supported ?_ covered
    rw [Product.length_of_mem_combinations member, sameLength]
  · intro step covered
    apply Success.pure
    intro binding member
    exact covered binding (Array.mem_toList_iff.mp member)

theorem effects_succeed {rule : Rule} {binding : Binding}
    (covered : binding.Covers rule.mentioned) :
    ∃ effects, rule.effects binding = .ok effects := by
  apply mapM_succeeds
  intro action member
  apply Binding.ground_succeeds
  exact covered.mono fun v mentioned => List.mem_flatMap.mpr ⟨action, member, mentioned⟩

theorem fireAll_yields {rule : Rule} {bindings : List Binding} {classes : NameTable}
    (covered : ∀ binding ∈ bindings, binding.Covers rule.mentioned) :
    (Success.keeping fun world : World => world.classes = classes).Yields
      (rule.fireAll bindings) fun _ => True := by
  apply Success.forM
  intro binding member world sameClasses
  rcases effects_succeed (covered binding member) with ⟨effects, grounded⟩
  exact ⟨(), world.enqueue effects, by rw [fire, grounded], sameClasses, trivial⟩

/-- A supported rule is tested without an error, and no class changes. -/
theorem test_yields {rule : Rule} {classes : NameTable} (settings : Settings)
    (supported : rule.Supported classes) :
    (Success.keeping fun stage : Stage => stage.world.classes = classes).Yields
      (rule.test settings) fun _ => True := by
  rintro ⟨world, source⟩ rfl
  rcases firedBindings_yields settings supported source trivial with
    ⟨fired, later, found, _, covered⟩
  rcases fireAll_yields covered world rfl with ⟨_, after, done, sameClasses, _⟩
  refine ⟨fired.length, { world := after, source := later }, ?_, sameClasses, trivial⟩
  simp only [test, found, done]

end Rule

end Fabula
