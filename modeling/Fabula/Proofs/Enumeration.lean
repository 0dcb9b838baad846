import Fabula.Proofs.Assignment
import Mathlib.Data.List.Lex

/-!
# The order of assignments

An assignment is a choice of one place in the candidates of each slot.  The
slots are the terms of the actions where they occur first, and the choices
ascend in the order in which one compares words: the first slot counts most,
and the last slot varies fastest.
-/

namespace Fabula

/-! ## First occurrences -/

/--
Some values stand for all of a list: they are those which have nothing of their
kind before them, and they are listed in their order.
-/
structure FirstOccurrences {α : Type} (same : α → α → Bool) (values kept : List α) :
    Prop where
  ordered : kept.Sublist values
  complete : ∀ value ∈ values, ∃ representative ∈ kept, same value representative
  first : ∀ value ∈ kept, ∃ earlier later,
    values = earlier ++ value :: later ∧ ∀ other ∈ earlier, same other value = false
  apart : kept.Pairwise fun left right => same left right = false

theorem sublist_eraseDupsBy {α : Type} (same : α → α → Bool) (values : List α) :
    (values.eraseDupsBy same).Sublist values := by
  induction values using eraseDupsBy_induction same with
  | nil => simp
  | cons first rest ih =>
      rw [List.eraseDupsBy_cons]
      exact (ih.trans List.filter_sublist).cons_cons first

/-- What is kept when duplicates are erased has nothing of its kind before it. -/
theorem exists_first_of_mem_eraseDupsBy {α : Type} {same : α → α → Bool}
    (transitive : ∀ first second third, same first second → same second third →
      same first third)
    (symmetric : ∀ left right, same left right = same right left)
    {values : List α} {value : α} (member : value ∈ values.eraseDupsBy same) :
    ∃ earlier later, values = earlier ++ value :: later ∧
      ∀ other ∈ earlier, same other value = false := by
  induction values using eraseDupsBy_induction same with
  | nil => simp at member
  | cons head rest ih =>
      rw [List.eraseDupsBy_cons] at member
      rcases List.mem_cons.mp member with rfl | later
      · exact ⟨[], rest, rfl, by simp⟩
      · have apart : same value head = false := by
          simpa using (List.mem_filter.mp (mem_of_mem_eraseDupsBy later)).2
        rcases ih later with ⟨before, after, split, fresh⟩
        rcases List.filter_eq_append_iff.mp split with ⟨left, right, rfl, rfl, rightSplit⟩
        rcases List.filter_eq_cons_iff.mp rightSplit with
          ⟨skipped, last, rfl, allSkipped, _, _⟩
        refine ⟨head :: (left ++ skipped), last, by simp, ?_⟩
        have removed : ∀ other, same other head → same other value = false := by
          intro other like
          by_contra equal
          have equal : same other value = true := by simpa using equal
          have back : same value other = true := by rw [symmetric]; exact equal
          rw [transitive value other head back like] at apart
          cases apart
        intro other inEarlier
        rcases List.mem_cons.mp inEarlier with rfl | inEarlier
        · rw [symmetric]
          exact apart
        · by_cases like : same other head = true
          · exact removed other like
          · rcases List.mem_append.mp inEarlier with inLeft | inSkipped
            · apply fresh other
              rw [List.mem_filter]
              exact ⟨inLeft, by simpa using like⟩
            · exact absurd (allSkipped other inSkipped) (by simpa using like)

theorem Term.sameSlot_trans (first second third : Term) (left : first.sameSlot second)
    (right : second.sameSlot third) : first.sameSlot third := by
  cases first <;> cases second <;> cases third <;> simp_all [sameSlot]

/-- The slots of a rule are the terms of its actions where they occur first. -/
theorem Rule.slots_first (rule : Rule) :
    FirstOccurrences Term.sameSlot (rule.actions.flatMap (·.statement.parts)) rule.slots where
  ordered := sublist_eraseDupsBy _ _
  complete _ member := exists_mem_eraseDupsBy Term.sameSlot_refl member
  first _ member :=
    exists_first_of_mem_eraseDupsBy Term.sameSlot_trans Term.sameSlot_comm member
  apart := rule.pairwise_slots

/-! ## Lexicographic order -/

namespace Product

variable {α : Type}

/-- A combination consists of the values at some places, one in each list. -/
def Picks (lists : List (List α)) (places : List Nat) (combination : List α) : Prop :=
  lists.zipWith (fun values place => values[place]?) places = combination.map some

/--
Combinations are listed in lexicographic order: there is one for each choice of
a place in every list, and these choices ascend.
-/
def Lexicographic (lists all : List (List α)) : Prop :=
  ∃ choices : List (List Nat),
    choices.Pairwise (· < ·) ∧
      (∀ places, places ∈ choices ↔
        List.Forall₂ (fun place values => place < values.length) places lists) ∧
      List.Forall₂ (Picks lists) choices all

/-- Combinations of ascending lists ascend. -/
theorem pairwise_combinations {lists : List (List Nat)}
    (ascending : ∀ values ∈ lists, values.Pairwise (· < ·)) :
    (combinations lists).Pairwise (· < ·) := by
  induction lists with
  | nil => simp [combinations]
  | cons values rest ih =>
      rw [List.forall_mem_cons] at ascending
      rw [combinations, List.pairwise_flatMap]
      constructor
      · intro value _
        rw [List.pairwise_map]
        apply (ih ascending.2).imp
        intro left right less
        exact List.cons_lt_cons_self.mpr less
      · apply ascending.1.imp
        intro first second less left inFirst right inSecond
        rcases List.mem_map.mp inFirst with ⟨others, _, rfl⟩
        rcases List.mem_map.mp inSecond with ⟨_, _, rfl⟩
        exact List.cons_lt_cons_iff.mpr (.inl less)

/-- The places of each list, in ascending order. -/
def placesOf (lists : List (List α)) : List (List Nat) :=
  lists.map fun values => List.range values.length

theorem forall₂_range (values : List α) :
    List.Forall₂ (fun place value => values[place]? = some value)
      (List.range values.length) values := by
  rw [List.forall₂_iff_get]
  refine ⟨List.length_range, ?_⟩
  intro place inRange inside
  simp [List.getElem?_eq_getElem inside]

/-- Combinations of places pick the combinations of the lists, in the same order. -/
theorem picks_combinations (lists : List (List α)) :
    List.Forall₂ (Picks lists) (combinations (placesOf lists)) (combinations lists) := by
  induction lists with
  | nil => exact .cons rfl .nil
  | cons values rest ih =>
      refine List.rel_flatMap (forall₂_range values) ?_
      intro place value found
      refine List.rel_map ?_ ih
      intro places combination picks
      rw [Picks] at picks ⊢
      rw [List.zipWith_cons_cons, found, picks, List.map_cons]

/-- The combinations of some lists are listed in lexicographic order. -/
theorem combinations_lexicographic (lists : List (List α)) :
    Lexicographic lists (combinations lists) := by
  refine ⟨combinations (placesOf lists), ?_, ?_, picks_combinations lists⟩
  · apply pairwise_combinations
    intro places member
    rcases List.mem_map.mp member with ⟨values, _, rfl⟩
    exact List.pairwise_lt_range
  · intro places
    rw [mem_combinations_iff, placesOf, List.forall₂_map_right_iff]
    simp only [List.mem_range]

end Product

end Fabula
