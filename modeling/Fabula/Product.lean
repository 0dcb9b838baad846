/-!
# Combinations

A combination of some lists takes one value from each.  `combinations` lists
them in lexicographic order, the last list varying fastest.  An odometer goes
through them in this order without building the list: it keeps a place in each
list, and `visit` turns it until it is done or the visitor says so.
-/

namespace Fabula

namespace Product

variable {α : Type} {σ : Type} {m : Type → Type} [Monad m]

/-- Every way to take one value from each list, in lexicographic order. -/
def combinations : List (List α) → List (List α)
  | [] => [[]]
  | values :: rest =>
      values.flatMap fun value => (combinations rest).map (value :: ·)

@[simp]
theorem mem_combinations_nil {combination : List α} :
    combination ∈ combinations ([] : List (List α)) ↔ combination = [] := by
  simp [combinations]

@[simp]
theorem mem_combinations_cons {values : List α} {lists : List (List α)} {combination : List α} :
    combination ∈ combinations (values :: lists) ↔
      ∃ value ∈ values, ∃ rest ∈ combinations lists, value :: rest = combination := by
  simp [combinations]

theorem length_of_mem_combinations {lists : List (List α)} {combination : List α}
    (member : combination ∈ combinations lists) : combination.length = lists.length := by
  induction lists generalizing combination with
  | nil => simp [mem_combinations_nil.1 member]
  | cons values rest ih =>
      obtain ⟨value, _, others, others_mem, rfl⟩ := mem_combinations_cons.1 member
      simp [ih others_mem]

theorem combinations_eq_nil_iff {lists : List (List α)} :
    combinations lists = [] ↔ [] ∈ lists := by
  induction lists with
  | nil => simp [combinations]
  | cons values rest ih =>
      cases values with
      | nil => simp [combinations]
      | cons value others => simp +contextual [combinations, ih]

/-! ## Odometers -/

/-- Some lists with a place in each, and whether all their combinations have been passed. -/
structure Odometer (α : Type) where
  lists : List (Array α)
  places : List Nat
  done : Bool
deriving DecidableEq, Repr

namespace Odometer

/-- The odometer before the first combination, if there is one. -/
def start (lists : List (List α)) : Odometer α :=
  { lists := lists.map List.toArray
    places := lists.map fun _ => 0
    done := lists.any (·.isEmpty) }

/--
The places behind some places, and whether these were the last ones.  The last
list goes on by one place; a list that is at its end returns to its first
place, and the list before it goes on.
-/
def turn : List (Array α) → List Nat → List Nat × Bool
  | values :: lists, place :: places =>
      match turn lists places with
      | (places, false) => (place :: places, false)
      | (places, true) =>
          if place + 1 < values.size then ((place + 1) :: places, false) else (0 :: places, true)
  | _, _ => ([], true)

/-- The values at the places of an odometer. -/
def combination (odometer : Odometer α) : List α :=
  (odometer.places.zip odometer.lists).filterMap fun (place, values) => values[place]?

/-- The combination at which an odometer stands, and the odometer behind it. -/
def next (odometer : Odometer α) : Option (List α × Odometer α) :=
  if odometer.done then none
  else
    let (places, done) := turn odometer.lists odometer.places
    some (odometer.combination, { odometer with places, done })

/--
The combinations of the next calls, at most `limit` of them.  `passed` are those
of earlier calls, the last one first.
-/
def takeFrom (passed : List (List α)) : (limit : Nat) → Odometer α → List (List α)
  | 0, _ => passed.reverse
  | limit + 1, odometer =>
      match odometer.next with
      | none => passed.reverse
      | some (combination, later) => takeFrom (combination :: passed) limit later

/-- The number of combinations, if an empty list counted as one with one value. -/
def volume : List (Array α) → Nat
  | [] => 1
  | values :: lists => max 1 values.size * volume lists

theorem volume_pos (lists : List (Array α)) : 0 < volume lists := by
  induction lists with
  | nil => exact Nat.one_pos
  | cons values lists ih => exact Nat.mul_pos (by omega) ih

/-- How often some places can go on. -/
def ahead : List (Array α) → List Nat → Nat
  | values :: lists, place :: places =>
      (values.size - 1 - place) * volume lists + ahead lists places
  | _, _ => 0

/-- The places go on, or they begin again behind the last ones. -/
theorem ahead_turn (lists : List (Array α)) (places : List Nat) :
    ahead lists (turn lists places).1 <
      if (turn lists places).2 then volume lists else ahead lists places := by
  fun_induction turn lists places with
  | case1 values lists place places later turned ih =>
      simp only [turned, Bool.false_eq_true, if_false, ahead] at ih ⊢
      omega
  | case2 values lists place places later turned inside ih =>
      simp only [turned, Bool.false_eq_true, if_true, if_false, ahead] at ih ⊢
      have step : values.size - 1 - place = values.size - 1 - (place + 1) + 1 := by omega
      rw [step, Nat.succ_mul]
      omega
  | case3 values lists place places later turned outside ih =>
      simp only [turned, if_true, ahead, volume] at ih ⊢
      have size : max 1 values.size = values.size - 1 - 0 + 1 := by omega
      rw [size, Nat.succ_mul]
      omega
  | case4 lists places =>
      simp [ahead, volume_pos]

/-- How many combinations an odometer has still to pass, at most. -/
def remaining (odometer : Odometer α) : Nat :=
  if odometer.done then 0 else ahead odometer.lists odometer.places + 1

theorem remaining_next {before after : Odometer α} {combination : List α}
    (passed : before.next = some (combination, after)) : after.remaining < before.remaining := by
  rw [next] at passed
  split at passed
  · cases passed
  · rename_i notDone
    cases passed
    have shorter := ahead_turn before.lists before.places
    simp only [remaining, notDone]
    split
    · simp
    · rename_i going
      simpa [going] using shorter

end Odometer

/-- The combinations of the first `limit` calls. -/
def take (limit : Nat) (lists : List (List α)) : List (List α) :=
  Odometer.takeFrom [] limit (Odometer.start lists)

/-! ## Visits -/

/-- Go through the combinations that an odometer has not passed, with a visitor that may stop. -/
def visitFrom (visitor : List α → σ → m (ForInStep σ)) (odometer : Odometer α) (state : σ) :
    m (ForInStep σ) :=
  match _ : odometer.next with
  | none => pure (.yield state)
  | some (combination, later) => do
      match ← visitor combination state with
      | .done state => pure (.done state)
      | .yield state => visitFrom visitor later state
termination_by odometer.remaining
decreasing_by exact Odometer.remaining_next ‹_›

/-- Go through the combinations of some lists with a visitor that may stop. -/
def visit (lists : List (List α)) (visitor : List α → σ → m (ForInStep σ)) (state : σ) :
    m (ForInStep σ) :=
  visitFrom visitor (Odometer.start lists) state

/-- The state in which a visit ended, whether it was stopped or not. -/
def outcome : ForInStep σ → σ
  | .done state => state
  | .yield state => state

end Product

end Fabula
