import Fabula.Product
import Fabula.Proofs.Outcome
import Mathlib.Algebra.GroupWithZero.Nat
import Mathlib.Data.List.Forall2

/-!
# Odometers count, and visits are sweeps

An odometer has no counter, and yet it counts: when it has passed some number of
combinations, its places are the digits of this number in the mixed radix of
the lengths of its lists, the last of which is the least significant.  Turning
the places adds one to the number that they write.  By induction on the calls
an odometer passes the combinations of its lists in lexicographic order, each
choice of places once, and is done behind the last.

`visit` builds no list of combinations, yet it does what a sweep over the list
`combinations` does, in the same order and with the same early end.  Therefore
one lemma about sweeps, by induction on the list, settles what visits yield.
-/

namespace Fabula.Product

open Fabula.Outcome

variable {α : Type}

/-! ## Mixed radix -/

/-- The digits of a number in the mixed radix of some lengths, the last the least significant. -/
def digits : List Nat → Nat → List Nat
  | [], _ => []
  | _ :: lengths, number => number / lengths.prod :: digits lengths (number % lengths.prod)

/-- The number that some digits write. -/
def numberOf : List Nat → List Nat → Nat
  | _ :: lengths, digit :: digits => digit * lengths.prod + numberOf lengths digits
  | _, _ => 0

theorem digits_zero (lengths : List Nat) : digits lengths 0 = lengths.map fun _ => 0 := by
  induction lengths with
  | nil => rfl
  | cons length lengths ih => simp [digits, ih]

/-- A digit and the number behind it are found again in the number that they make. -/
theorem digits_cons {length digit number : Nat} {lengths : List Nat}
    (inside : number < lengths.prod) :
    digits (length :: lengths) (digit * lengths.prod + number) =
      digit :: digits lengths number := by
  have positive : 0 < lengths.prod := by omega
  rw [digits, Nat.mul_comm, Nat.mul_add_div positive, Nat.mul_add_mod, Nat.div_eq_of_lt inside,
    Nat.mod_eq_of_lt inside, Nat.add_zero]

/-- A number is made of its first digit and the number behind it. -/
theorem exists_digit {length number : Nat} {lengths : List Nat}
    (inside : number < (length :: lengths).prod) :
    ∃ digit rest, digit < length ∧ rest < lengths.prod ∧
      number = digit * lengths.prod + rest := by
  rw [List.prod_cons] at inside
  have positive : 0 < lengths.prod := Nat.pos_of_lt_mul_left inside
  refine ⟨number / lengths.prod, number % lengths.prod, ?_, Nat.mod_lt _ positive, ?_⟩
  · exact (Nat.div_lt_iff_lt_mul positive).mpr inside
  · rw [Nat.mul_comm]
    exact (Nat.div_add_mod _ _).symm

/-- A number stays below a length if its first digit does. -/
theorem digit_add_lt {length digit width rest : Nat} (digitInside : digit < length)
    (restInside : rest < width) : digit * width + rest < length * width :=
  calc digit * width + rest
      < digit * width + width := Nat.add_lt_add_left restInside _
    _ = (digit + 1) * width := (Nat.succ_mul _ _).symm
    _ ≤ length * width := Nat.mul_le_mul_right _ digitInside

theorem numberOf_lt {lengths places : List Nat}
    (within : List.Forall₂ (· < ·) places lengths) : numberOf lengths places < lengths.prod := by
  induction within with
  | nil => exact Nat.one_pos
  | cons inside _ ih =>
      rw [List.prod_cons]
      exact digit_add_lt inside ih

theorem digits_numberOf {lengths places : List Nat}
    (within : List.Forall₂ (· < ·) places lengths) :
    digits lengths (numberOf lengths places) = places := by
  induction within with
  | nil => rfl
  | cons _ within ih => rw [numberOf, digits_cons (numberOf_lt within), ih]

theorem digits_within {lengths : List Nat} {number : Nat} (inside : number < lengths.prod) :
    List.Forall₂ (· < ·) (digits lengths number) lengths := by
  induction lengths generalizing number with
  | nil => exact .nil
  | cons length lengths ih =>
      rcases exists_digit inside with ⟨digit, rest, digitInside, restInside, rfl⟩
      rw [digits_cons restInside]
      exact .cons digitInside (ih restInside)

theorem numberOf_digits {lengths : List Nat} {number : Nat} (inside : number < lengths.prod) :
    numberOf lengths (digits lengths number) = number := by
  induction lengths generalizing number with
  | nil => exact (Nat.lt_one_iff.mp inside).symm
  | cons length lengths ih =>
      rcases exists_digit inside with ⟨digit, rest, _, restInside, rfl⟩
      rw [digits_cons restInside, numberOf, ih restInside]

/-- Every choice of places writes one number, and the number writes it. -/
theorem existsUnique_number {lengths places : List Nat}
    (within : List.Forall₂ (· < ·) places lengths) :
    ∃! number, number < lengths.prod ∧ digits lengths number = places := by
  refine ⟨numberOf lengths places, ⟨numberOf_lt within, digits_numberOf within⟩, ?_⟩
  rintro number ⟨inside, rfl⟩
  exact (numberOf_digits inside).symm

/-! ## One turn -/

/-- The lengths of some lists. -/
def lengthsOf (lists : List (List α)) : List Nat :=
  lists.map List.length

/-- The number of combinations of some lists. -/
def count (lists : List (List α)) : Nat :=
  (lengthsOf lists).prod

theorem count_cons (values : List α) (lists : List (List α)) :
    count (values :: lists) = values.length * count lists :=
  List.prod_cons

theorem count_eq_zero_iff {lists : List (List α)} : count lists = 0 ↔ [] ∈ lists := by
  induction lists with
  | nil => simp [count, lengthsOf]
  | cons values lists ih =>
      rw [count_cons, Nat.mul_eq_zero, ih, List.length_eq_zero_iff, List.mem_cons, eq_comm]

theorem length_combinations (lists : List (List α)) :
    (combinations lists).length = count lists := by
  induction lists with
  | nil => rfl
  | cons values lists ih => simp [combinations, ih, count_cons]

/-- Some places lie within some lists, one in each. -/
def Within (places : List Nat) (lists : List (List α)) : Prop :=
  List.Forall₂ (fun place values => place < values.length) places lists

theorem within_iff {places : List Nat} {lists : List (List α)} :
    Within places lists ↔ List.Forall₂ (· < ·) places (lengthsOf lists) :=
  List.forall₂_map_right_iff.symm

theorem digits_lengthsOf_cons (values : List α) {lists : List (List α)} {place rest : Nat}
    (inside : rest < count lists) :
    digits (lengthsOf (values :: lists)) (place * count lists + rest) =
      place :: digits (lengthsOf lists) rest :=
  digits_cons inside

/--
Turning the places of a number adds one to it.  The places of the last number
are followed by the first ones.
-/
theorem turn_digits {lists : List (List α)} {number : Nat} (inside : number < count lists) :
    Odometer.turn (lists.map List.toArray) (digits (lengthsOf lists) number) =
      (digits (lengthsOf lists) ((number + 1) % count lists),
        decide (number + 1 = count lists)) := by
  induction lists generalizing number with
  | nil =>
      rw [Nat.lt_one_iff.mp inside]
      rfl
  | cons values lists ih =>
      obtain ⟨place, rest, placeInside, restInside, rfl⟩ :
          ∃ place rest, place < values.length ∧ rest < count lists ∧
            number = place * count lists + rest := exists_digit inside
      have turned := ih restInside
      rw [digits_lengthsOf_cons _ restInside, count_cons, List.map_cons]
      by_cases carries : rest + 1 = count lists
      · rw [carries, Nat.mod_self, decide_eq_true rfl] at turned
        have next : place * count lists + rest + 1 = (place + 1) * count lists + 0 := by
          rw [Nat.add_assoc, carries, Nat.succ_mul, Nat.add_zero]
        rw [next]
        by_cases further : place + 1 < values.length
        · have below := digit_add_lt further (Nat.zero_lt_of_lt restInside)
          rw [Nat.mod_eq_of_lt below, digits_lengthsOf_cons _ (Nat.zero_lt_of_lt restInside),
            decide_eq_false (Nat.ne_of_lt below)]
          simp [Odometer.turn, turned, further]
        · have ends : place + 1 = values.length := by omega
          have first :
              digits (lengthsOf (values :: lists)) 0 = 0 :: digits (lengthsOf lists) 0 := by
            simp [lengthsOf, digits]
          rw [ends, Nat.add_zero, Nat.mod_self, decide_eq_true rfl, first]
          simp [Odometer.turn, turned, ends]
      · have restNext : rest + 1 < count lists := by omega
        have below := digit_add_lt placeInside restNext
        rw [Nat.mod_eq_of_lt restNext, decide_eq_false carries] at turned
        rw [Nat.add_assoc, Nat.mod_eq_of_lt below, digits_lengthsOf_cons _ restNext,
          decide_eq_false (Nat.ne_of_lt below)]
        simp [Odometer.turn, turned]

/-! ## The values at the places -/

theorem getElem?_flatMap_of_length {β : Type} {values : List α} {parts : α → List β}
    {width place rest : Nat} (same : ∀ value ∈ values, (parts value).length = width)
    (inside : rest < width) :
    (values.flatMap parts)[place * width + rest]? =
      values[place]?.bind fun value => (parts value)[rest]? := by
  induction values generalizing place with
  | nil => simp
  | cons value values ih =>
      rw [List.forall_mem_cons] at same
      rw [List.flatMap_cons]
      cases place with
      | zero =>
          rw [Nat.zero_mul, Nat.zero_add, List.getElem?_append_left (by omega)]
          rfl
      | succ place =>
          have behind : (place + 1) * width + rest = width + (place * width + rest) := by
            rw [Nat.succ_mul]
            omega
          rw [behind, List.getElem?_append_right (by omega), same.1, Nat.add_sub_cancel_left,
            ih same.2, List.getElem?_cons_succ]

/-- The odometer of some lists when it has passed some number of combinations. -/
def reached (lists : List (List α)) (number : Nat) : Odometer α where
  lists := lists.map List.toArray
  places := digits (lengthsOf lists) (number % count lists)
  done := decide (count lists ≤ number)

/-- The combination with a number consists of the values at the places of this number. -/
theorem getElem?_combinations {lists : List (List α)} {number : Nat}
    (inside : number < count lists) :
    (combinations lists)[number]? = some (reached lists number).combination := by
  induction lists generalizing number with
  | nil =>
      rw [Nat.lt_one_iff.mp inside]
      rfl
  | cons values lists ih =>
      obtain ⟨place, rest, placeInside, restInside, rfl⟩ :
          ∃ place rest, place < values.length ∧ rest < count lists ∧
            number = place * count lists + rest := exists_digit inside
      have found := ih restInside
      have places :
          (reached (values :: lists) (place * count lists + rest)).places =
            place :: (reached lists rest).places := by
        rw [reached, reached, Nat.mod_eq_of_lt inside, Nat.mod_eq_of_lt restInside]
        exact digits_lengthsOf_cons values restInside
      rw [combinations, getElem?_flatMap_of_length (by simp [length_combinations]) restInside,
        Odometer.combination, places, List.getElem?_eq_getElem placeInside]
      simp [found, Odometer.combination, reached, placeInside]

/-! ## All calls -/

theorem start_eq_reached (lists : List (List α)) : Odometer.start lists = reached lists 0 := by
  have ended : lists.any (·.isEmpty) = decide (count lists ≤ 0) := by
    rw [Bool.eq_iff_iff, decide_eq_true_eq, Nat.le_zero, count_eq_zero_iff]
    simp
  rw [Odometer.start, reached, Nat.zero_mod, digits_zero, lengthsOf, List.map_map, ended]
  rfl

theorem next_reached {lists : List (List α)} {number : Nat} (inside : number < count lists) :
    (reached lists number).next =
      some ((reached lists number).combination, reached lists (number + 1)) := by
  have going : (reached lists number).done = false := by
    rw [reached, decide_eq_false_iff_not]
    omega
  have ends : decide (number + 1 = count lists) = decide (count lists ≤ number + 1) := by
    rw [decide_eq_decide]
    omega
  rw [Odometer.next, going, if_neg Bool.false_ne_true]
  simp only [reached, Nat.mod_eq_of_lt inside, turn_digits inside, ends]

theorem next_reached_of_le {lists : List (List α)} {number : Nat}
    (outside : count lists ≤ number) : (reached lists number).next = none := by
  simp [Odometer.next, reached, outside]

namespace Odometer

/-- The combinations that an odometer passes, call by call, until it is done. -/
inductive Passes : Odometer α → List (List α) → Prop where
  | done {odometer : Odometer α} (ended : odometer.next = none) : Passes odometer []
  | next {odometer later : Odometer α} {combination : List α} {others : List (List α)}
      (passed : odometer.next = some (combination, later)) (passes : Passes later others) :
      Passes odometer (combination :: others)

/-- An odometer after some number of calls; when it is done a call leaves it as it is. -/
def after (odometer : Odometer α) : Nat → Odometer α
  | 0 => odometer
  | calls + 1 =>
      match (odometer.after calls).next with
      | none => odometer.after calls
      | some (_, later) => later

end Odometer

open Odometer

theorem reached_passes (lists : List (List α)) (number : Nat) :
    (reached lists number).Passes ((combinations lists).drop number) := by
  by_cases inside : number < count lists
  · rw [List.drop_eq_getElem?_toList_append, getElem?_combinations inside]
    exact .next (next_reached inside) (reached_passes lists (number + 1))
  · rw [List.drop_of_length_le (by rw [length_combinations]; omega)]
    exact .done (next_reached_of_le (by omega))
termination_by count lists - number

/-- An odometer passes all combinations of its lists, in lexicographic order. -/
theorem start_passes (lists : List (List α)) : (start lists).Passes (combinations lists) := by
  rw [start_eq_reached]
  exact reached_passes lists 0

theorem after_start (lists : List (List α)) (calls : Nat) :
    (start lists).after calls = reached lists (min calls (count lists)) := by
  induction calls with
  | zero => rw [Nat.zero_min, after, start_eq_reached]
  | succ calls ih =>
      rw [after, ih]
      by_cases inside : calls < count lists
      · rw [Nat.min_eq_left (by omega), Nat.min_eq_left (by omega), next_reached inside]
      · rw [Nat.min_eq_right (by omega), Nat.min_eq_right (by omega),
          next_reached_of_le (Nat.le_refl _)]

/-- Places within their lists have a value in each, and these are the combination there. -/
theorem zipWith_places {places : List Nat} {lists : List (List α)}
    (within : Within places lists) (done : Bool) :
    lists.zipWith (fun values place => values[place]?) places =
      (Odometer.combination ⟨lists.map List.toArray, places, done⟩).map some := by
  induction within with
  | nil => rfl
  | cons inside _ ih =>
      rw [List.zipWith_cons_cons, ih, List.getElem?_eq_getElem inside]
      simp [combination, inside]

theorem Odometer.Passes.takeFrom_eq {odometer : Odometer α} {all : List (List α)}
    (passes : odometer.Passes all) (passed : List (List α)) (limit : Nat) :
    takeFrom passed limit odometer = passed.reverse ++ all.take limit := by
  induction passes generalizing passed limit with
  | done ended =>
      rw [List.take_nil, List.append_nil]
      cases limit with
      | zero => rfl
      | succ limit => rw [takeFrom, ended]
  | @next odometer later combination others found _ ih =>
      cases limit with
      | zero => rw [takeFrom, List.take_zero, List.append_nil]
      | succ limit =>
          have continued := ih (combination :: passed) limit
          rw [List.reverse_cons, List.append_assoc, List.singleton_append] at continued
          rw [takeFrom, found, List.take_succ_cons]
          exact continued

/-- The first calls pass the first combinations. -/
theorem take_eq (limit : Nat) (lists : List (List α)) :
    take limit lists = (combinations lists).take limit :=
  (start_passes lists).takeFrom_eq [] limit

/--
An odometer counts.  Until it has passed as many combinations as the product of
the lengths of its lists, which is one for no lists and zero exactly if a list
is empty, its places are the digits of the number of those that it has passed,
in the mixed radix of these lengths, and the next combination consists of the
values at these places.  After that there is no next one.  The places are always
within their lists, every choice of places occurs once, and the combinations are
those of the recursive product in its order, of which the first calls take the
first ones.
-/
theorem odometer_counts_in_mixed_radix (lists : List (List α)) :
    (∀ number < count lists, ∃ combination,
      ((start lists).after number).places = digits (lengthsOf lists) number ∧
        numberOf (lengthsOf lists) (digits (lengthsOf lists) number) = number ∧
        ((start lists).after number).next =
          some (combination, (start lists).after (number + 1)) ∧
        lists.zipWith (fun values place => values[place]?) (digits (lengthsOf lists) number) =
          combination.map some ∧
        (combinations lists)[number]? = some combination) ∧
    (∀ number, count lists ≤ number → ((start lists).after number).next = none) ∧
    ([] ∉ lists → ∀ calls, Within ((start lists).after calls).places lists) ∧
    (∀ places, Within places lists →
      ∃! number, number < count lists ∧ ((start lists).after number).places = places) ∧
    (start lists).Passes (combinations lists) ∧
    (∀ limit, take limit lists = (combinations lists).take limit) ∧
    (combinations lists).length = count lists ∧
    count ([] : List (List α)) = 1 ∧ (count lists = 0 ↔ [] ∈ lists) := by
  have places {number : Nat} (inside : number < count lists) :
      ((start lists).after number).places = digits (lengthsOf lists) number := by
    rw [after_start, Nat.min_eq_left (Nat.le_of_lt inside), reached, Nat.mod_eq_of_lt inside]
  refine ⟨?_, ?_, ?_, ?_, start_passes lists, fun limit => take_eq limit lists,
    length_combinations lists, rfl, count_eq_zero_iff⟩
  · intro number inside
    refine ⟨(reached lists number).combination, places inside, numberOf_digits inside, ?_, ?_,
      getElem?_combinations inside⟩
    · rw [after_start, after_start, Nat.min_eq_left (Nat.le_of_lt inside),
        Nat.min_eq_left inside, next_reached inside]
    · rw [zipWith_places (within_iff.mpr (digits_within inside)) false, reached,
        Nat.mod_eq_of_lt inside]
      rfl
  · intro number outside
    rw [after_start, Nat.min_eq_right outside, next_reached_of_le (Nat.le_refl _)]
  · intro noneEmpty calls
    have positive : 0 < count lists := by
      rw [Nat.pos_iff_ne_zero, Ne, count_eq_zero_iff]
      exact noneEmpty
    rw [after_start]
    exact within_iff.mpr (digits_within (Nat.mod_lt _ positive))
  · intro chosen within
    rcases existsUnique_number (within_iff.mp within) with ⟨number, ⟨inside, written⟩, unique⟩
    refine ⟨number, ⟨inside, (places inside).trans written⟩, ?_⟩
    rintro other ⟨otherInside, chosen⟩
    exact unique other ⟨otherInside, (places otherInside).symm.trans chosen⟩

/-- Who may be where in a house. -/
def house : List (List String) :=
  [["GEORGE", "MARTHA"], ["HALL", "STUDY", "CELLAR"]]

theorem odometer_counts_in_mixed_radix_of_house :
    (count house = 6 ∧ [] ∉ house ∧ Within [1, 1] house) ∧
      ((start house).after 4).places = [1, 1] ∧
      ((start house).after 4).next = some (["MARTHA", "STUDY"], (start house).after 5) ∧
      ((start house).after 6).next = none ∧
      Within ((start house).after 6).places house ∧
      ∃! number, number < 6 ∧ ((start house).after number).places = [1, 1] := by
  have within : Within [1, 1] house := .cons (by decide) (.cons (by decide) .nil)
  rcases odometer_counts_in_mixed_radix house with ⟨passes, ends, stays, once, _⟩
  rcases passes 4 (by decide) with ⟨combination, places, _, next, picks, _⟩
  have picked : combination = ["MARTHA", "STUDY"] := by
    rw [← List.map_inj_right fun _ _ => Option.some.inj, ← picks]
    decide
  rw [picked] at next
  exact ⟨⟨by decide, by decide, within⟩, places, next, ends 6 (by decide),
    stays (by decide) 6, once [1, 1] within⟩

/-! ## Sweeps -/

variable {σ : Type} {m : Type → Type} [Monad m]

/-- Go through values with a visitor that may stop. -/
def sweep (visitor : α → σ → m (ForInStep σ)) : List α → σ → m (ForInStep σ)
  | [], state => pure (.yield state)
  | value :: rest, state => do
      match ← visitor value state with
      | .done state => pure (.done state)
      | .yield state => sweep visitor rest state

/-- If every step that goes on leads to a step with some property, the sweep ends with it. -/
theorem sweep_yields (success : Success m) {property : ForInStep σ → Prop}
    {visitor : α → σ → m (ForInStep σ)} {values : List α} {state : σ}
    (kept : property (.yield state))
    (step : ∀ value ∈ values, ∀ state, property (.yield state) →
      success.Yields (visitor value state) property) :
    success.Yields (sweep visitor values state) property := by
  induction values generalizing state with
  | nil => exact success.pure kept
  | cons value rest ih =>
      rw [List.forall_mem_cons] at step
      refine success.bind (step.1 state kept) ?_
      intro result kept
      cases result with
      | done state => exact success.pure kept
      | yield state => exact ih kept step.2

/-! ## Visits -/

theorem visitFrom_of_done {odometer : Odometer α} (ended : odometer.next = none)
    (visitor : List α → σ → m (ForInStep σ)) (state : σ) :
    visitFrom visitor odometer state = pure (.yield state) := by
  rw [visitFrom]
  split
  · rfl
  · rename_i passed
    rw [ended] at passed
    cases passed

theorem visitFrom_of_next {odometer later : Odometer α} {combination : List α}
    (passed : odometer.next = some (combination, later))
    (visitor : List α → σ → m (ForInStep σ)) (state : σ) :
    visitFrom visitor odometer state =
      visitor combination state >>= fun step =>
        match step with
        | .done state => pure (.done state)
        | .yield state => visitFrom visitor later state := by
  rw [visitFrom]
  split
  · rename_i ended
    rw [ended] at passed
    cases passed
  · rename_i found
    rw [passed] at found
    cases found
    rfl

theorem Odometer.Passes.visitFrom_eq_sweep {odometer : Odometer α} {all : List (List α)}
    (passes : odometer.Passes all) (visitor : List α → σ → m (ForInStep σ)) (state : σ) :
    visitFrom visitor odometer state = sweep visitor all state := by
  induction passes generalizing state with
  | done ended => rw [visitFrom_of_done ended, sweep]
  | next passed _ ih =>
      rw [visitFrom_of_next passed, sweep]
      congr
      funext step
      cases step with
      | done state => rfl
      | yield state => exact ih state

/-- A visit goes through the combinations as a sweep over their list does. -/
theorem visit_eq_sweep (lists : List (List α)) (visitor : List α → σ → m (ForInStep σ))
    (state : σ) : visit lists visitor state = sweep visitor (combinations lists) state :=
  (start_passes lists).visitFrom_eq_sweep visitor state

theorem visit_yields (success : Success m) {property : ForInStep σ → Prop}
    {visitor : List α → σ → m (ForInStep σ)} {lists : List (List α)} {state : σ}
    (kept : property (.yield state))
    (step : ∀ combination ∈ combinations lists, ∀ state, property (.yield state) →
      success.Yields (visitor combination state) property) :
    success.Yields (visit lists visitor state) property := by
  rw [visit_eq_sweep]
  exact sweep_yields success kept step

/-- What every step of a visit keeps, the visit keeps to its end. -/
theorem visit_keeps (success : Success m) (invariant : σ → Prop)
    {visitor : List α → σ → m (ForInStep σ)} {lists : List (List α)} {state : σ}
    (kept : invariant state)
    (step : ∀ combination ∈ combinations lists, ∀ state, invariant state →
      success.Yields (visitor combination state) fun step => invariant (outcome step)) :
    success.Yields (visit lists visitor state) fun step => invariant (outcome step) :=
  visit_yields success kept step

end Fabula.Product
