import Mathlib.Data.List.Forall2

/-!
# Outcomes of computations

The readers and the evaluator compute in `Except` and in `EStateM`.  The
lemmas below take a successful computation apart, one bind at a time, so that
no later proof unfolds the two monads.

`Success` is for the opposite direction.  It is a sense in which computations
end with a value that has some property; whatever is composed of such
computations does so as well.
-/

namespace Fabula.Outcome

variable {ε σ α β : Type}

/-! ## Computations that may fail -/

theorem bind_eq_ok
    {first : Except ε α} {next : α → Except ε β} {result : β} :
    first >>= next = .ok result ↔
      ∃ value, first = .ok value ∧ next value = .ok result := by
  cases first <;> simp [bind, Except.bind]

theorem bind_eq_error
    {first : Except ε α} {next : α → Except ε β} {cause : ε} :
    first >>= next = .error cause ↔
      first = .error cause ∨ ∃ value, first = .ok value ∧ next value = .error cause := by
  cases first <;> simp [bind, Except.bind]

theorem exists_of_isOk {computation : Except ε α} (ended : computation.isOk) :
    ∃ value, computation = .ok value := by
  cases computation with
  | ok value => exact ⟨value, rfl⟩
  | error cause => cases ended

theorem map_eq_ok
    {computation : Except ε α} {change : α → β} {result : β} :
    computation.map change = .ok result ↔
      ∃ value, computation = .ok value ∧ change value = result := by
  cases computation <;> simp [Except.map]

/-- What stands in one of two lists that are related value by value has a partner in the other. -/
theorem exists_of_forall₂ {related : α → β → Prop} {values : List α} {results : List β}
    (paired : List.Forall₂ related values results) {value : α} (member : value ∈ values) :
    ∃ result ∈ results, related value result := by
  induction paired with
  | nil => cases member
  | cons first _ ih =>
      rcases List.mem_cons.mp member with rfl | later
      · exact ⟨_, List.mem_cons_self, first⟩
      · rcases ih later with ⟨result, inRest, isRelated⟩
        exact ⟨result, List.mem_cons_of_mem _ inRest, isRelated⟩

/-- Where every value has some partner, a list of values has a list of partners. -/
theorem exists_forall₂ {related : α → β → Prop} {values : List α}
    (each : ∀ value ∈ values, ∃ result, related value result) :
    ∃ results, List.Forall₂ related values results := by
  induction values with
  | nil => exact ⟨[], .nil⟩
  | cons value rest ih =>
      rw [List.forall_mem_cons] at each
      rcases each.1 with ⟨result, isRelated⟩
      rcases ih each.2 with ⟨results, paired⟩
      exact ⟨result :: results, .cons isRelated paired⟩

/-- A visit of a list succeeds if it does at every value, in the same order. -/
theorem mapM_eq_ok
    {visit : α → Except ε β} {values : List α} {results : List β} :
    values.mapM visit = .ok results ↔
      List.Forall₂ (fun value result => visit value = .ok result)
        values results := by
  induction values generalizing results with
  | nil =>
      simp [pure, Except.pure, eq_comm]
  | cons value rest ih =>
      rw [List.mapM_cons, bind_eq_ok, List.forall₂_cons_left_iff]
      constructor
      · rintro ⟨result, visited, remaining⟩
        rcases bind_eq_ok.mp remaining with ⟨others, restVisited, equal⟩
        cases equal
        exact ⟨result, others, visited, ih.mp restVisited, rfl⟩
      · rintro ⟨result, others, visited, restVisited, rfl⟩
        refine ⟨result, visited, bind_eq_ok.mpr ⟨others, ?_, rfl⟩⟩
        exact ih.mpr restVisited

/-- Every result of a visit that succeeds comes from some value. -/
theorem exists_of_mem_mapM
    {visit : α → Except ε β} {values : List α} {results : List β} {result : β}
    (visited : values.mapM visit = .ok results) (member : result ∈ results) :
    ∃ value ∈ values, visit value = .ok result :=
  exists_of_forall₂ (mapM_eq_ok.mp visited).flip member

/-- Every value of a visit that succeeds has a result. -/
theorem exists_of_mapM_eq_ok
    {visit : α → Except ε β} {values : List α} {results : List β}
    (visited : values.mapM visit = .ok results) {value : α} (member : value ∈ values) :
    ∃ result ∈ results, visit value = .ok result :=
  exists_of_forall₂ (mapM_eq_ok.mp visited) member

/-- A visit that fails does so at some value. -/
theorem exists_of_mapM_eq_error
    {visit : α → Except ε β} {values : List α} {cause : ε}
    (failed : values.mapM visit = .error cause) :
    ∃ value ∈ values, visit value = .error cause := by
  induction values with
  | nil => cases failed
  | cons value rest ih =>
      rw [List.mapM_cons] at failed
      rcases bind_eq_error.mp failed with first | ⟨_, _, later⟩
      · exact ⟨value, List.mem_cons_self, first⟩
      · rcases bind_eq_error.mp later with restFailed | ⟨_, _, returned⟩
        · rcases ih restFailed with ⟨other, inRest, refused⟩
          exact ⟨other, List.mem_cons_of_mem _ inRest, refused⟩
        · cases returned

theorem forM_eq_ok
    {check : α → Except ε PUnit} {values : List α} :
    values.forM check = .ok () ↔ ∀ value ∈ values, check value = .ok () := by
  induction values with
  | nil =>
      simp [pure, Except.pure]
  | cons value rest ih =>
      rw [List.forM_eq_forM] at ih ⊢
      rw [List.forM_cons, bind_eq_ok, List.forall_mem_cons, ← ih]
      constructor
      · rintro ⟨⟨⟩, checked, restChecked⟩
        exact ⟨checked, restChecked⟩
      · rintro ⟨checked, restChecked⟩
        exact ⟨⟨⟩, checked, restChecked⟩

/-! ## Computations that may fail and keep a state -/

theorem run_bind_eq_ok
    {first : EStateM ε σ α} {next : α → EStateM ε σ β} {result : β}
    {before after : σ} :
    (first >>= next) before = .ok result after ↔
      ∃ value middle,
        first before = .ok value middle ∧ next value middle = .ok result after := by
  change EStateM.bind first next before = _ ↔ _
  rw [EStateM.bind]
  cases first before <;> simp

theorem run_bind_eq_error
    {first : EStateM ε σ α} {next : α → EStateM ε σ β} {cause : ε}
    {before after : σ} :
    (first >>= next) before = .error cause after ↔
      first before = .error cause after ∨
        ∃ value middle,
          first before = .ok value middle ∧ next value middle = .error cause after := by
  change EStateM.bind first next before = _ ↔ _
  rw [EStateM.bind]
  cases first before <;> simp

theorem run_map_eq_ok
    {computation : EStateM ε σ α} {change : α → β} {result : β}
    {before after : σ} :
    (change <$> computation) before = .ok result after ↔
      ∃ value, computation before = .ok value after ∧ change value = result := by
  change EStateM.map change computation before = _ ↔ _
  rw [EStateM.map]
  cases computation before <;> simp [and_comm]

/-- A visit of a list that keeps a state begins with the first value. -/
theorem run_mapM_cons_eq_ok {visit : α → EStateM ε σ β} {value : α} {rest : List α}
    {results : List β} {before after : σ} :
    (value :: rest).mapM visit before = .ok results after ↔
      ∃ result middle others,
        visit value before = .ok result middle ∧ rest.mapM visit middle = .ok others after ∧
          results = result :: others := by
  rw [List.mapM_cons, run_bind_eq_ok]
  constructor
  · rintro ⟨result, middle, visited, remaining⟩
    rcases run_bind_eq_ok.mp remaining with ⟨others, _, restVisited, returned⟩
    cases returned
    exact ⟨result, middle, others, visited, restVisited, rfl⟩
  · rintro ⟨result, middle, others, visited, restVisited, rfl⟩
    exact ⟨result, middle, visited, run_bind_eq_ok.mpr ⟨others, after, restVisited, rfl⟩⟩

/-- A visit of a list that keeps a state fails at some value, after it has succeeded before it. -/
theorem run_forM_eq_error
    {visit : α → EStateM ε σ PUnit} {values : List α} {cause : ε} {before after : σ} :
    values.forM visit before = .error cause after ↔
      ∃ earlier value later middle,
        values = earlier ++ value :: later ∧
          earlier.forM visit before = .ok () middle ∧ visit value middle = .error cause after := by
  induction values generalizing before with
  | nil =>
      constructor
      · intro failed
        cases failed
      · rintro ⟨earlier, value, later, middle, split, _⟩
        simp at split
  | cons first rest ih =>
      refine run_bind_eq_error.trans ?_
      constructor
      · rintro (failed | ⟨_, middle, visited, failed⟩)
        · exact ⟨[], first, rest, before, rfl, rfl, failed⟩
        · rcases ih.mp failed with ⟨earlier, value, later, last, rfl, restVisited, failed⟩
          exact ⟨first :: earlier, value, later, last, rfl,
            run_bind_eq_ok.mpr ⟨_, middle, visited, restVisited⟩, failed⟩
      · rintro ⟨earlier, value, later, last, split, visited, failed⟩
        rcases List.cons_eq_append_iff.mp split with ⟨rfl, same⟩ | ⟨others, rfl, rfl⟩
        · cases same
          cases visited
          exact .inl failed
        · rcases run_bind_eq_ok.mp visited with ⟨_, middle, visited, restVisited⟩
          exact .inr ⟨_, middle, visited,
            ih.mpr ⟨others, value, later, last, rfl, restVisited, failed⟩⟩

/-- Whether a computation has ended with a value. -/
def succeeded : EStateM.Result ε σ α → Bool
  | .ok _ _ => true
  | .error _ _ => false

theorem exists_of_succeeded {result : EStateM.Result ε σ α} (ended : succeeded result) :
    ∃ value after, result = .ok value after := by
  cases result with
  | ok value after => exact ⟨value, after, rfl⟩
  | error cause after => cases ended

/-! ## The state at the end -/

/-- The state in which a computation ends, with a value or with an error. -/
def endState : EStateM.Result ε σ α → σ
  | .ok _ state => state
  | .error _ state => state

/-- The end of a computation with some outcome, in some state. -/
def ending (outcome : Except ε α) (state : σ) : EStateM.Result ε σ α :=
  match outcome with
  | .ok value => .ok value state
  | .error cause => .error cause state

theorem run'_eq_toOption {action : EStateM ε σ α} {before after : σ} {outcome : Except ε α}
    (ended : action before = ending outcome after) : action.run' before = outcome.toOption := by
  change (match action before with
    | .ok value _ => some value
    | .error _ _ => none) = outcome.toOption
  rw [ended]
  cases outcome <;> rfl

/-- The cause for which a computation has failed, if it has. -/
def failure? : EStateM.Result ε σ α → Option ε
  | .ok _ _ => none
  | .error cause _ => some cause

theorem eq_error_of_failure? {result : EStateM.Result ε σ α} {cause : ε}
    (failed : failure? result = some cause) : result = .error cause (endState result) := by
  cases result with
  | ok value after => cases failed
  | error other after =>
      cases failed
      rfl

/-! ## Success -/

/-- A sense in which computations of a monad end with a value that has some property. -/
structure Success (m : Type → Type) [Monad m] where
  Yields {α : Type} (computation : m α) (property : α → Prop) : Prop
  pure {α : Type} {property : α → Prop} {value : α}
    (holds : property value) : Yields (pure value) property
  bind {α β : Type} {property : α → Prop} {other : β → Prop}
    {first : m α} {next : α → m β} (yields : Yields first property)
    (continues : ∀ value, property value → Yields (next value) other) :
    Yields (first >>= next) other

namespace Success

/-- A computation that may fail does not. -/
def withoutError (ε : Type) : Success (Except ε) where
  Yields computation property :=
    ∃ value, computation = .ok value ∧ property value
  pure holds := ⟨_, rfl, holds⟩
  bind := by
    rintro _ _ _ _ _ _ ⟨value, rfl, holds⟩ continues
    exact continues value holds

/-- A computation does not fail in a state with an invariant, and keeps it. -/
def keeping {ε σ : Type} (invariant : σ → Prop) : Success (EStateM ε σ) where
  Yields computation property :=
    ∀ before, invariant before →
      ∃ value after, computation before = .ok value after ∧
        invariant after ∧ property value
  pure holds before kept := ⟨_, before, rfl, kept, holds⟩
  bind := by
    intro _ _ _ _ _ _ yields continues before kept
    rcases yields before kept with ⟨value, middle, ended, kept, holds⟩
    rcases continues value holds middle kept with ⟨result, after, continued, kept, holds⟩
    exact ⟨result, after, run_bind_eq_ok.mpr ⟨value, middle, ended, continued⟩,
      kept, holds⟩

/-- A computation that ends with a value keeps an invariant. -/
def preserving {ε σ : Type} (invariant : σ → Prop) : Success (EStateM ε σ) where
  Yields computation property :=
    ∀ before, invariant before →
      ∀ value after, computation before = .ok value after → invariant after ∧ property value
  pure := by
    intro _ _ _ holds before kept value after ended
    cases ended
    exact ⟨kept, holds⟩
  bind := by
    intro _ _ _ _ _ _ yields continues before kept value after ended
    rcases run_bind_eq_ok.mp ended with ⟨result, middle, begun, continued⟩
    rcases yields before kept result middle begun with ⟨kept, holds⟩
    exact continues result holds middle kept value after continued

/-- A computation ends with such a value unless it fails. -/
def barringErrors (ε σ : Type) : Success (EStateM ε σ) where
  Yields computation property :=
    ∀ before value after, computation before = .ok value after → property value
  pure := by
    intro _ _ _ holds before value after ended
    cases ended
    exact holds
  bind := by
    intro _ _ _ _ _ _ yields continues before value after ended
    rcases run_bind_eq_ok.mp ended with ⟨result, middle, begun, continued⟩
    exact continues result (yields before result middle begun) middle value after continued

variable {m : Type → Type} [Monad m] (success : Success m)

theorem mapM [LawfulMonad m] {γ δ : Type} {property : δ → Prop} {visit : γ → m δ}
    {values : List γ} (yields : ∀ value ∈ values, success.Yields (visit value) property) :
    success.Yields (values.mapM visit) (fun results => ∀ result ∈ results, property result) := by
  induction values with
  | nil =>
      apply success.pure
      simp
  | cons value rest ih =>
      rw [List.mapM_cons]
      rw [List.forall_mem_cons] at yields
      refine success.bind yields.1 ?_
      intro result holds
      refine success.bind (ih yields.2) ?_
      intro results restHolds
      exact success.pure (List.forall_mem_cons.mpr ⟨holds, restHolds⟩)

theorem forM {γ : Type} {visit : γ → m PUnit} {values : List γ}
    (yields : ∀ value ∈ values, success.Yields (visit value) fun _ => True) :
    success.Yields (values.forM visit) fun _ => True := by
  induction values with
  | nil => exact success.pure trivial
  | cons value rest ih =>
      rw [List.forall_mem_cons] at yields
      exact success.bind yields.1 fun _ _ => ih yields.2

theorem foldlM {γ δ : Type} {step : δ → γ → m δ} {values : List γ} {start : δ}
    (yields : ∀ value ∈ values, ∀ state, success.Yields (step state value) fun _ => True) :
    success.Yields (values.foldlM step start) fun _ => True := by
  induction values generalizing start with
  | nil => exact success.pure trivial
  | cons value rest ih =>
      rw [List.forall_mem_cons] at yields
      rw [List.foldlM_cons]
      exact success.bind (yields.1 start) fun _ _ => ih yields.2

end Success

theorem mapM_succeeds {γ δ ε : Type} {visit : γ → Except ε δ} {values : List γ}
    (succeeds : ∀ value ∈ values, ∃ result, visit value = .ok result) :
    ∃ results, values.mapM visit = .ok results := by
  have yields :
      (Success.withoutError ε).Yields (values.mapM visit)
        fun results => ∀ result ∈ results, True := by
    apply Success.mapM
    intro value member
    rcases succeeds value member with ⟨result, visited⟩
    exact ⟨result, visited, trivial⟩
  rcases yields with ⟨results, visited, _⟩
  exact ⟨results, visited⟩

end Fabula.Outcome
