import Fabula.Proofs.Examination

/-!
# Which assignments take a draw

The first subrule whose increment reaches the threshold decides whether a rule
fires: what comes before it does not count, what comes after it is not evaluated,
and no number is drawn.  If no subrule decides, one number is drawn.  Hence the
draws of a test are as many as the assignments that it examines and that no
subrule decides.
-/

namespace Fabula

open Outcome

/-- A condition has a truth value for which the increment does not reach the threshold. -/
def Subrule.Adds (settings : Settings) (world : World) (binding : Binding) (subrule : Subrule)
    (truth : Bool) : Prop :=
  subrule.holds world binding = .ok truth ∧
    ¬settings.threshold ≤ (subrule.increment truth).abs

instance (settings : Settings) (world : World) (binding : Binding) (subrule : Subrule) :
    DecidablePred (subrule.Adds settings world binding) := fun truth =>
  inferInstanceAs (Decidable (subrule.holds world binding = .ok truth ∧
    ¬settings.threshold ≤ (subrule.increment truth).abs))

namespace Rule

/-- Every subrule can be evaluated for a binding, and none decides. -/
def Undecided (rule : Rule) (settings : Settings) (world : World) (binding : Binding) : Prop :=
  ∀ subrule ∈ rule.subrules, ∃ truth, subrule.Adds settings world binding truth

instance (rule : Rule) (settings : Settings) (world : World) :
    DecidablePred (rule.Undecided settings world) := fun binding =>
  inferInstanceAs (Decidable (∀ subrule ∈ rule.subrules, ∃ truth,
    subrule.Adds settings world binding truth))

variable {rule : Rule} {settings : Settings} {world : World} {binding : Binding}

/-! ## Verdicts -/

theorem verdictFrom_cons_of_adds {probability : Float} {subrule : Subrule} {rest : List Subrule}
    {truth : Bool} (adds : subrule.Adds settings world binding truth) :
    verdictFrom settings world binding probability (subrule :: rest) =
      verdictFrom settings world binding (probability + subrule.increment truth) rest := by
  rw [verdictFrom, adds.1]
  exact if_neg adds.2

/-- Subrules that do not decide add their increments to the probability. -/
theorem verdictFrom_append {probability : Float} {first rest : List Subrule}
    {truths : List Bool}
    (adds : List.Forall₂ (Subrule.Adds settings world binding) first truths) :
    verdictFrom settings world binding probability (first ++ rest) =
      verdictFrom settings world binding
        ((List.zipWith Subrule.increment first truths).foldl (· + ·) probability) rest := by
  induction adds generalizing probability with
  | nil => rfl
  | cons adds _ ih =>
      rw [List.cons_append, verdictFrom_cons_of_adds adds, ih]
      rfl

/-- The probability is left open exactly if no subrule decides. -/
theorem verdictFrom_eq_chance_iff {probability : Float} {subrules : List Subrule} :
    (∃ sum, verdictFrom settings world binding probability subrules = .ok (.chance sum)) ↔
      ∀ subrule ∈ subrules, ∃ truth, subrule.Adds settings world binding truth := by
  induction subrules generalizing probability with
  | nil => simp [verdictFrom]
  | cons subrule rest ih =>
      rw [List.forall_mem_cons]
      constructor
      · rintro ⟨sum, found⟩
        rw [verdictFrom] at found
        rcases bind_eq_ok.mp found with ⟨truth, holds, found⟩
        dsimp only at found
        split at found
        · cases found
        · rename_i below
          exact ⟨⟨truth, holds, below⟩, ih.mp ⟨sum, found⟩⟩
      · rintro ⟨⟨truth, adds⟩, others⟩
        rw [verdictFrom_cons_of_adds adds]
        exact ih.mpr others

/-- The first subrule that reaches the threshold decides, and no number is drawn. -/
theorem triggered_of_decided {first later : List Subrule} {deciding : Subrule}
    {truths : List Bool} {truth : Bool} (split : rule.subrules = first ++ deciding :: later)
    (adds : List.Forall₂ (Subrule.Adds settings world binding) first truths)
    (holds : deciding.holds world binding = .ok truth)
    (reaches : settings.threshold ≤ (deciding.increment truth).abs) (source : Source) :
    rule.triggered settings world binding source =
      .ok (0.0 < deciding.increment truth) source := by
  have verdict :
      rule.verdict settings world binding = .ok (.decided (0.0 < deciding.increment truth)) := by
    rw [verdict, split, verdictFrom_append adds, verdictFrom, holds]
    exact if_pos reaches
  rw [triggered, verdict]

/-- If no subrule decides, one number is drawn and compared with the sum of the increments. -/
theorem triggered_of_undecided {truths : List Bool}
    (adds : List.Forall₂ (Subrule.Adds settings world binding) rule.subrules truths)
    (source : Source) :
    rule.triggered settings world binding source =
      .ok (source.draw.1 < (List.zipWith Subrule.increment rule.subrules truths).foldl (· + ·) 0.0)
        source.draw.2 := by
  have verdict :
      rule.verdict settings world binding =
        .ok (.chance
          ((List.zipWith Subrule.increment rule.subrules truths).foldl (· + ·) 0.0)) := by
    rw [verdict, ← List.append_nil rule.subrules, verdictFrom_append adds, verdictFrom,
      List.append_nil]
  rw [triggered, verdict]

/-! ## Draws -/

theorem source_of_triggered {before after : Source} {fires : Bool}
    (tested : rule.triggered settings world binding before = .ok fires after) :
    after = { before with
      taken := before.taken + if rule.Undecided settings world binding then 1 else 0 } := by
  rw [triggered] at tested
  have undecided :
      rule.Undecided settings world binding ↔
        ∃ sum, rule.verdict settings world binding = .ok (.chance sum) :=
    verdictFrom_eq_chance_iff.symm
  split at tested
  · cases tested
  · rename_i verdict
    cases tested
    rw [verdict] at undecided
    simp [undecided]
  · rename_i sum verdict
    cases tested
    rw [verdict] at undecided
    simp [undecided]

theorem Examined.source {before after : Source} {examined : List Examination}
    (here : rule.Examined settings world before examined after) :
    after = { before with
      taken := before.taken +
        examined.countP fun examination =>
          rule.Undecided settings world (rule.bindingOf examination) } := by
  induction here with
  | nil => rfl
  | cons tested _ ih =>
      rw [ih, source_of_triggered tested, List.countP_cons]
      simp only [decide_eq_true_eq]
      congr 1
      omega

theorem endState_test (rule : Rule) (settings : Settings) (stage : Stage) :
    (endState (rule.test settings stage)).source =
      endState (rule.firedBindings settings stage.world stage.source) := by
  rw [test]
  cases found : rule.firedBindings settings stage.world stage.source with
  | error cause source => rfl
  | ok fired source =>
      dsimp only
      cases rule.fireAll fired stage.world with
      | error cause world => rfl
      | ok done world => rfl

/--
The first subrule that reaches the threshold decides by its sign and leaves the
source untouched, whatever the others are; if none does and all can be evaluated,
one number is drawn.  So a test, whether it fails or not, takes one number for each
assignment that it examines and that no subrule decides.
-/
theorem draws_are_undecided_assignments (rule : Rule) (settings : Settings) (world : World) :
    (∀ (binding : Binding) (first later : List Subrule) (deciding : Subrule)
        (truths : List Bool) (truth : Bool),
      rule.subrules = first ++ deciding :: later →
        List.Forall₂ (Subrule.Adds settings world binding) first truths →
        deciding.holds world binding = .ok truth →
        settings.threshold ≤ (deciding.increment truth).abs →
        ∀ source, rule.triggered settings world binding source =
          .ok (0.0 < deciding.increment truth) source) ∧
      (∀ (binding : Binding) (truths : List Bool),
        List.Forall₂ (Subrule.Adds settings world binding) rule.subrules truths →
          ∀ source, rule.triggered settings world binding source =
            .ok (source.draw.1 <
                (List.zipWith Subrule.increment rule.subrules truths).foldl (· + ·) 0.0)
              { source with taken := source.taken + 1 }) ∧
      ∀ before, ∃ after,
        (endState (rule.test settings { world, source := before })).source = after ∧
        (∀ cause, rule.assignments world = .error cause → after = before) ∧
        ∀ all, rule.assignments world = .ok all →
          ∃ examined left,
            rule.Examines settings world rule.limit all before examined left after
                (failure? (rule.firedBindings settings world before)) ∧
              after = { before with
                taken := before.taken + examined.countP fun examination =>
                  rule.Undecided settings world (rule.bindingOf examination) } := by
  refine ⟨?_, ?_, ?_⟩
  · intro binding first later deciding truths truth split adds holds reaches
    exact triggered_of_decided split adds holds reaches
  · intro binding truths adds
    exact triggered_of_undecided adds
  · intro before
    refine ⟨_, endState_test rule settings _, ?_, ?_⟩
    · intro cause unassigned
      rw [firedBindings_of_unassigned unassigned]
      rfl
    · intro all assigned
      rcases firedBindings_examines rule settings assigned before with
        ⟨examined, left, after, failure, examines, found⟩
      rw [found]
      cases failure with
      | none => exact ⟨examined, left, examines, examines.threaded.source⟩
      | some cause => exact ⟨examined, left, examines, examines.threaded.source⟩

/-- A rule with a subrule that decides between two others. -/
def admirationRule : List Char :=
  "X.PEOPLE ADMIRES Y.PEOPLE; 0.25,0: [T > 1600]; 10,0: (X LIKES Y); 0.5,0: (Y LIKES X)".toList

/-- Three people, one of whom likes another. -/
def ballroom : World :=
  salon.assertFact ⟨"GEORGE", "LIKES", some "MARTHA"⟩

/-- George's fancy for Martha decides without a draw; Martha and the four other pairs take one. -/
theorem draws_are_undecided_assignments_in_ballroom :
    ∃ rule,
      Script.readRule admirationRule = .ok rule ∧
        (∀ source,
          rule.triggered courteous ballroom (slotBinding rule.slots ["GEORGE", "MARTHA"]) source =
            .ok true source) ∧
        (∃ fires,
          rule.triggered courteous ballroom (slotBinding rule.slots ["MARTHA", "GEORGE"])
              quarters =
            .ok fires { quarters with taken := 1 }) ∧
        ∃ all examined left after,
          rule.assignments ballroom = .ok all ∧
            rule.Examines courteous ballroom rule.limit all quarters examined left after none ∧
            after.taken = 5 ∧
            (examined.countP fun examination =>
              rule.Undecided courteous ballroom (rule.bindingOf examination)) = 5 := by
  have tested :
      (Script.readRule admirationRule).map (fun rule =>
        let lover := slotBinding rule.slots ["GEORGE", "MARTHA"]
        let beloved := slotBinding rule.slots ["MARTHA", "GEORGE"]
        decide (
          rule.subrules.length = 3 ∧
          rule.subrules.map (fun s => decide (s.Adds courteous ballroom lover true)) =
            [true, false, false] ∧
          rule.subrules.map (fun s => decide (s.holds ballroom lover = .ok true)) =
            [true, true, false] ∧
          rule.subrules.map (fun s => decide (courteous.threshold ≤ (s.increment true).abs)) =
            [false, true, false] ∧
          rule.subrules.map (fun s => decide (0.0 < s.increment true)) = [true, true, true] ∧
          rule.subrules.map (fun s => decide (s.Adds courteous ballroom beloved true)) =
            [true, false, true] ∧
          rule.subrules.map (fun s => decide (s.Adds courteous ballroom beloved false)) =
            [false, true, false] ∧
          (rule.assignments ballroom).isOk = true ∧
          failure? (rule.firedBindings courteous ballroom quarters) = none ∧
          (endState (rule.test courteous { world := ballroom, source := quarters })).source.taken =
            5)) =
      .ok true := by
    decide +kernel
  rcases map_eq_ok.mp tested with ⟨rule, read, result⟩
  rcases of_decide_eq_true result with
    ⟨three, adds, holds, reaches, positive, addsTrue, addsFalse, assigned, succeeds, drawn⟩
  rcases List.length_eq_three.mp three with ⟨first, second, third, subrules⟩
  simp only [subrules, List.map_cons, List.map_nil, List.cons.injEq, decide_eq_true_eq]
    at adds holds reaches positive addsTrue addsFalse
  rcases exists_of_isOk assigned with ⟨all, assigned⟩
  rcases draws_are_undecided_assignments rule courteous ballroom with
    ⟨decided, undecided, counted⟩
  refine ⟨rule, read, ?_, ?_, ?_⟩
  · have here := decided _ [first] [third] second [true] true subrules (.cons adds.1 .nil)
      holds.2.1 reaches.2.1
    simpa only [positive.2.1, decide_true] using here
  · exact ⟨_, undecided _ [true, false, true] (by
      rw [subrules]
      exact .cons addsTrue.1 (.cons addsFalse.2.1 (.cons addsTrue.2.2.1 .nil))) quarters⟩
  · rcases counted quarters with ⟨after, ended, _, examined⟩
    rcases examined all assigned with ⟨examined, left, examines, source⟩
    rw [succeeds] at examines
    rw [ended] at drawn
    refine ⟨all, examined, left, after, assigned, examines, drawn, ?_⟩
    rw [source] at drawn
    simpa [quarters, Source.ofStep, Source.ofStream] using drawn

end Rule

end Fabula
