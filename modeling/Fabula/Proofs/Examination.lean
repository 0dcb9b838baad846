import Fabula.Proofs.Enumeration
import Fabula.Script.Definition

/-!
# What a test examines

A test goes through the assignments of a rule.  It skips those that give two
slots one noun, if this is not allowed, and examines the others, one after
another: each with the source that the one before it has left.  It ends when the
rule has fired as often as it may, when no assignment is left, or at one that
cannot be tested.  Hence a rule with a limit does what the same rule does without
it, up to the firing that is the last.
-/

namespace Fabula

open Outcome

/-! ## Sweeps that keep a state -/

namespace Product

variable {ε σ τ α : Type} {visitor : α → σ → EStateM ε τ (ForInStep σ)} {value : α}
  {rest : List α} {state next : σ} {before middle : τ}

theorem sweep_cons_yield (visited : visitor value state before = .ok (.yield next) middle) :
    sweep visitor (value :: rest) state before = sweep visitor rest next middle := by
  rw [sweep]
  change EStateM.bind (visitor value state) _ before = _
  rw [EStateM.bind, visited]

theorem sweep_cons_done (visited : visitor value state before = .ok (.done next) middle) :
    sweep visitor (value :: rest) state before = .ok (.done next) middle := by
  rw [sweep]
  change EStateM.bind (visitor value state) _ before = _
  rw [EStateM.bind, visited]
  rfl

theorem sweep_cons_error {cause : ε} (visited : visitor value state before = .error cause middle) :
    sweep visitor (value :: rest) state before = .error cause middle := by
  rw [sweep]
  change EStateM.bind (visitor value state) _ before = _
  rw [EStateM.bind, visited]

end Product

/-! ## Examinations -/

/-- What came of an assignment: whether the rule fires, and the source that is left. -/
structure Examination where
  nouns : List String
  fires : Bool
  source : Source

/-- The examinations for which the rule fires. -/
def firings (examined : List Examination) : List Examination :=
  examined.filter (·.fires)

/-- Whether a rule with a limit may fire no more after some examinations. -/
def Spent (limit : Option Nat) (examined : List Examination) : Prop :=
  firings examined ≠ [] ∧ Rule.isExhausted limit (firings examined).length

theorem not_spent_nil (limit : Option Nat) : ¬Spent limit [] :=
  fun spent => spent.1 rfl

theorem spent_cons_of_not_fires {limit : Option Nat} {examination : Examination}
    {rest : List Examination} (rests : examination.fires = false) :
    Spent limit (examination :: rest) ↔ Spent limit rest := by
  simp [Spent, firings, rests]

/-- Firings that have been leave so many less to the rest. -/
theorem isExhausted_add (limit : Option Nat) (count fired : Nat) :
    Rule.isExhausted limit (count + fired) = Rule.isExhausted (limit.map (· - fired)) count := by
  cases limit with
  | none => rfl
  | some limit => simp [Rule.isExhausted]

theorem spent_cons_of_fires {limit : Option Nat} {examination : Examination}
    {rest : List Examination} (fires : examination.fires = true)
    (more : Rule.isExhausted limit 1 = false) :
    Spent limit (examination :: rest) ↔ Spent (limit.map (· - 1)) rest := by
  have split : firings (examination :: rest) = examination :: firings rest := by
    simp [firings, fires]
  rw [Spent, Spent, split, List.length_cons, isExhausted_add]
  cases found : firings rest with
  | nil => simpa [← isExhausted_add] using more
  | cons first others => simp

/-- Whether a test examines an assignment, and does not skip it. -/
def Settings.Admits (settings : Settings) (nouns : List String) : Prop :=
  settings.allowDuplicates ∨ nouns.Nodup

instance (settings : Settings) : DecidablePred settings.Admits := fun nouns =>
  inferInstanceAs (Decidable (settings.allowDuplicates ∨ nouns.Nodup))

namespace Rule

variable {rule : Rule} {settings : Settings} {world : World} {limit : Option Nat}

/-- The binding that belongs to an examination. -/
def bindingOf (rule : Rule) (examination : Examination) : Binding :=
  slotBinding rule.slots examination.nouns

/-- Assignments are tested one after another; the source that one leaves is for the next. -/
inductive Examined (rule : Rule) (settings : Settings) (world : World) :
    Source → List Examination → Source → Prop where
  | nil {source : Source} : Examined rule settings world source [] source
  | cons {before after : Source} {examination : Examination} {rest : List Examination}
      (tested : rule.triggered settings world (rule.bindingOf examination) before =
        .ok examination.fires examination.source)
      (examined : Examined rule settings world examination.source rest after) :
      Examined rule settings world before (examination :: rest) after

/-- The first of some assignments cannot be tested. -/
def Refused (rule : Rule) (settings : Settings) (world : World) (source : Source)
    (left : List (List String)) (cause : Error) : Prop :=
  ∃ nouns rest, left = nouns :: rest ∧
    rule.triggered settings world (slotBinding rule.slots nouns) source = .error cause source

/--
Of all assignments, those that are not skipped have been examined in order, as
far as this goes: until the rule may fire no more, or to the end, or up to a
failure.
-/
structure Examines (rule : Rule) (settings : Settings) (world : World)
    (limit : Option Nat) (all : List (List String)) (before : Source)
    (examined : List Examination) (left : List (List String)) (after : Source)
    (failure : Option Error) : Prop where
  split : all.filter settings.Admits = examined.map (·.nouns) ++ left
  threaded : rule.Examined settings world before examined after
  unspent : ∀ earlier later, examined = earlier ++ later → later ≠ [] → ¬Spent limit earlier
  completed : failure = none → left = [] ∨ Spent limit examined
  refused : ∀ cause, failure = some cause →
    ¬Spent limit examined ∧ rule.Refused settings world after left cause

/-! ## One assignment -/

theorem hasRepeats_eq_false_iff {nouns : List String} :
    hasRepeats nouns = false ↔ nouns.Nodup := by
  induction nouns with
  | nil => simp [hasRepeats]
  | cons noun rest ih => simp [hasRepeats, ih]

theorem triggered_error {binding : Binding} {before after : Source} {cause : Error}
    (failed : rule.triggered settings world binding before = .error cause after) :
    after = before := by
  rw [triggered] at failed
  split at failed <;> cases failed
  rfl

theorem examine_of_not_admits {slots : List Term} {nouns : List String}
    (skipped : ¬settings.Admits nouns) (fired : Array Binding) (source : Source) :
    rule.examine settings world slots limit nouns fired source =
      .ok (.yield fired) source := by
  have repeated : (!settings.allowDuplicates && hasRepeats nouns) = true := by
    rw [Settings.Admits, not_or, ← hasRepeats_eq_false_iff] at skipped
    simpa using skipped
  rw [examine, if_pos repeated]
  rfl

theorem examine_of_admits {slots : List Term} {nouns : List String}
    (admitted : settings.Admits nouns) (fired : Array Binding) (source : Source) :
    rule.examine settings world slots limit nouns fired source =
      match rule.triggered settings world (slotBinding slots nouns) source with
      | .error cause after => .error cause after
      | .ok false after => .ok (.yield fired) after
      | .ok true after =>
          let fired := fired.push (slotBinding slots nouns)
          .ok (if isExhausted limit fired.size then .done fired else .yield fired) after := by
  have unrepeated : ¬(!settings.allowDuplicates && hasRepeats nouns) = true := by
    rw [Settings.Admits, ← hasRepeats_eq_false_iff] at admitted
    rcases admitted with allowed | apart
    · simp [allowed]
    · simp [apart]
  rw [examine, if_neg unrepeated]
  change EStateM.bind _ _ source = _
  rw [EStateM.bind]
  cases rule.triggered settings world (slotBinding slots nouns) source with
  | error cause after => rfl
  | ok fires after =>
      cases fires with
      | false => rfl
      | true => rfl

/-! ## One assignment more -/

variable {nouns : List String} {all left : List (List String)} {before middle after : Source}
  {fires : Bool} {examined : List Examination} {failure : Option Error}

theorem examines_nil (source : Source) :
    rule.Examines settings world limit [] source [] [] source none where
  split := rfl
  threaded := .nil
  unspent := by simp
  completed _ := .inl rfl
  refused _ failed := by cases failed

theorem Examines.skip (skipped : ¬settings.Admits nouns)
    (examines : rule.Examines settings world limit all before examined left after failure) :
    rule.Examines settings world limit (nouns :: all) before examined left after failure :=
  { examines with
    split := by
      rw [List.filter_cons_of_neg (by simpa using skipped)]
      exact examines.split }

/-- A test that goes on after an assignment examines the others from the source that is left. -/
theorem Examines.cons {remaining : Option Nat} (admitted : settings.Admits nouns)
    (tested : rule.triggered settings world (slotBinding rule.slots nouns) before =
      .ok fires middle)
    (spent : ∀ rest, Spent limit (⟨nouns, fires, middle⟩ :: rest) ↔ Spent remaining rest)
    (examines : rule.Examines settings world remaining all middle examined left after failure) :
    rule.Examines settings world limit (nouns :: all) before
      (⟨nouns, fires, middle⟩ :: examined) left after failure where
  split := by
    rw [List.filter_cons_of_pos (by simpa using admitted), examines.split]
    rfl
  threaded := .cons tested examines.threaded
  unspent := by
    intro earlier later split more
    rcases List.cons_eq_append_iff.mp split with ⟨rfl, _⟩ | ⟨others, rfl, rest⟩
    · exact not_spent_nil limit
    · rw [spent]
      exact examines.unspent others later rest more
  completed := by
    rw [spent]
    exact examines.completed
  refused := by
    rw [spent]
    exact examines.refused

/-- A test ends with the firing that is its last. -/
theorem examines_last (admitted : settings.Admits nouns)
    (tested : rule.triggered settings world (slotBinding rule.slots nouns) before =
      .ok true middle)
    (exhausted : isExhausted limit 1) :
    rule.Examines settings world limit (nouns :: all) before
      [⟨nouns, true, middle⟩] (all.filter settings.Admits) middle none where
  split := by
    rw [List.filter_cons_of_pos (by simpa using admitted)]
    rfl
  threaded := .cons tested .nil
  unspent := by
    intro earlier later split more
    rcases List.cons_eq_append_iff.mp split with ⟨rfl, _⟩ | ⟨others, rfl, rest⟩
    · exact not_spent_nil limit
    · exact absurd (List.append_eq_nil_iff.mp rest.symm).2 more
  completed _ := .inr ⟨List.cons_ne_nil _ _, exhausted⟩
  refused _ failed := by cases failed

/-- A test ends at an assignment that cannot be tested. -/
theorem examines_refused {cause : Error} (admitted : settings.Admits nouns)
    (refused : rule.triggered settings world (slotBinding rule.slots nouns) before =
      .error cause before) :
    rule.Examines settings world limit (nouns :: all) before
      [] (nouns :: all.filter settings.Admits) before (some cause) where
  split := by
    rw [List.filter_cons_of_pos (by simpa using admitted)]
    rfl
  threaded := .nil
  unspent := by simp
  completed failed := by cases failed
  refused := by
    rintro _ ⟨rfl⟩
    exact ⟨not_spent_nil limit, nouns, _, rfl, refused⟩

/-! ## All assignments -/

/-- What a computation comes to that collects bindings: these, or the cause of a failure. -/
def collected (bindings : List Binding) (failure : Option Error) : Except Error (List Binding) :=
  failure.elim (.ok bindings) .error

/-- What a sweep over assignments collects, after some bindings have fired. -/
def sweepBindings (rule : Rule) (settings : Settings) (world : World) (limit : Option Nat)
    (all : List (List String)) (fired : Array Binding) : EStateM Error Source (List Binding) :=
  (fun step => (Product.outcome step).toList) <$>
    Product.sweep (rule.examine settings world rule.slots limit) all fired

theorem sweepBindings_cons (nouns : List String) (all : List (List String))
    (fired : Array Binding) (before : Source) :
    rule.sweepBindings settings world limit (nouns :: all) fired before =
      match rule.examine settings world rule.slots limit nouns fired before with
      | .error cause after => .error cause after
      | .ok (.done fired) after => .ok fired.toList after
      | .ok (.yield fired) after => rule.sweepBindings settings world limit all fired after := by
  change EStateM.map _ _ before = _
  rw [EStateM.map]
  cases examined : rule.examine settings world rule.slots limit nouns fired before with
  | error cause after => rw [Product.sweep_cons_error examined]
  | ok step after =>
      cases step with
      | done fired =>
          rw [Product.sweep_cons_done examined]
          rfl
      | yield fired =>
          rw [Product.sweep_cons_yield examined]
          rfl

/--
A sweep examines the assignments in order, and collects the bindings that fire.
The bindings that have fired before count against the limit, which every binding
that fires reduces for what follows.
-/
theorem sweepBindings_examines (rule : Rule) (settings : Settings) (world : World)
    (limit : Option Nat) (all : List (List String)) (fired : Array Binding) (before : Source) :
    ∃ examined left after failure,
      rule.Examines settings world (limit.map (· - fired.size)) all before examined left after
          failure ∧
        rule.sweepBindings settings world limit all fired before =
          ending (collected (fired.toList ++ (firings examined).map rule.bindingOf) failure)
            after := by
  induction all generalizing fired before with
  | nil => exact ⟨[], [], before, none, examines_nil before, by simp [firings]; rfl⟩
  | cons nouns rest ih =>
      rw [sweepBindings_cons]
      by_cases admitted : settings.Admits nouns
      · rw [examine_of_admits admitted]
        cases tested : rule.triggered settings world (slotBinding rule.slots nouns) before with
        | error cause after =>
            cases triggered_error tested
            exact ⟨[], _, before, some cause, examines_refused admitted tested, rfl⟩
        | ok fires middle =>
            have remaining :
                isExhausted limit (fired.push (slotBinding rule.slots nouns)).size =
                  isExhausted (limit.map (· - fired.size)) 1 := by
              rw [Array.size_push, Nat.add_comm, isExhausted_add]
            have fewer :
                limit.map (· - (fired.push (slotBinding rule.slots nouns)).size) =
                  (limit.map (· - fired.size)).map (· - 1) := by
              rw [Array.size_push, Option.map_map]
              rfl
            cases fires with
            | false =>
                rcases ih fired middle with ⟨others, left, after, failure, examines, swept⟩
                exact ⟨⟨nouns, false, middle⟩ :: others, left, after, failure,
                  .cons admitted tested (fun _ => spent_cons_of_not_fires rfl) examines, swept⟩
            | true =>
                cases last : isExhausted (limit.map (· - fired.size)) 1 with
                | true =>
                    refine ⟨_, _, middle, none, examines_last admitted tested last, ?_⟩
                    simp only [remaining, last, if_true, Array.toList_push]
                    rfl
                | false =>
                    rcases ih (fired.push (slotBinding rule.slots nouns)) middle with
                      ⟨others, left, after, failure, examines, swept⟩
                    rw [fewer] at examines
                    refine ⟨_, left, after, failure,
                      examines.cons admitted tested fun _ => spent_cons_of_fires rfl last, ?_⟩
                    simp only [remaining, last, Bool.false_eq_true, if_false, swept,
                      Array.toList_push, List.append_assoc]
                    rfl
      · rw [examine_of_not_admits admitted]
        rcases ih fired before with ⟨examined, left, after, failure, examines, swept⟩
        exact ⟨examined, left, after, failure, examines.skip admitted, swept⟩

theorem firedBindings_eq_sweepBindings (assigned : rule.assignments world = .ok all) :
    rule.firedBindings settings world =
      rule.sweepBindings settings world rule.limit all #[] := by
  rcases map_eq_ok.mp assigned with ⟨lists, listed, rfl⟩
  rw [firedBindings, listed]
  dsimp only
  rw [Product.visit_eq_sweep]
  rfl

theorem firedBindings_of_unassigned {cause : Error}
    (unassigned : rule.assignments world = .error cause) :
    rule.firedBindings settings world = throw cause := by
  rw [assignments] at unassigned
  rw [firedBindings]
  cases listed : rule.slots.mapM (candidates world) with
  | ok lists =>
      rw [listed] at unassigned
      cases unassigned
  | error other =>
      rw [listed] at unassigned
      cases unassigned
      rfl

/-- A test examines the assignments of a rule, and finds the bindings that fire. -/
theorem firedBindings_examines (rule : Rule) (settings : Settings)
    (assigned : rule.assignments world = .ok all) (before : Source) :
    ∃ examined left after failure,
      rule.Examines settings world rule.limit all before examined left after failure ∧
        rule.firedBindings settings world before =
          ending (collected ((firings examined).map rule.bindingOf) failure) after := by
  have unchanged : rule.limit.map (· - (#[] : Array Binding).size) = rule.limit := by
    simp
  rw [firedBindings_eq_sweepBindings assigned]
  rcases sweepBindings_examines rule settings world rule.limit all #[] before with
    ⟨examined, left, after, failure, examines, swept⟩
  rw [unchanged] at examines
  exact ⟨examined, left, after, failure, examines, swept⟩

/-! ## Examinations with and without a limit -/

variable {first others : List Examination}

theorem Examined.exists_split
    (examined : rule.Examined settings world before (first ++ others) after) :
    ∃ middle, rule.Examined settings world before first middle ∧
      rule.Examined settings world middle others after := by
  induction first generalizing before with
  | nil => exact ⟨before, .nil, examined⟩
  | cons examination rest ih =>
      cases examined with
      | cons tested examined =>
          rcases ih examined with ⟨middle, left, right⟩
          exact ⟨middle, .cons tested left, right⟩

theorem Examined.eq_source {examination : Examination}
    (examined : rule.Examined settings world before (first ++ [examination]) after) :
    after = examination.source := by
  rcases examined.exists_split with ⟨middle, _, last⟩
  cases last with
  | cons tested nothing =>
      cases nothing
      rfl

/-- For what comes of assignments the limits of a rule do not matter. -/
theorem Examined.with_parameters (parameters : List Variable)
    (here : rule.Examined settings world before examined after) :
    ({ rule with parameters } : Rule).Examined settings world before examined after := by
  induction here with
  | nil => exact .nil
  | cons tested _ ih => exact .cons tested ih

/-- What comes of assignments is determined by them and by the source. -/
theorem Examined.unique {other : List Examination} {otherAfter : Source}
    (here : rule.Examined settings world before examined after)
    (there : rule.Examined settings world before other otherAfter)
    (same : examined.map (·.nouns) = other.map (·.nouns)) :
    examined = other ∧ after = otherAfter := by
  induction here generalizing other with
  | nil =>
      cases there with
      | nil => exact ⟨rfl, rfl⟩
      | cons => cases same
  | @cons before after examination rest tested _ ih =>
      cases there with
      | nil => cases same
      | @cons _ _ again others testedAgain there =>
          rw [List.map_cons, List.map_cons, List.cons.injEq] at same
          have sameBinding : rule.bindingOf examination = rule.bindingOf again := by
            rw [bindingOf, bindingOf, same.1]
          rw [sameBinding, testedAgain] at tested
          have sameExamination : examination = again := by
            cases examination
            cases again
            simp_all
          subst sameExamination
          rcases ih there same.2 with ⟨rfl, rfl⟩
          exact ⟨rfl, rfl⟩

/--
If all assignments can be examined, then what a test with some limit examines are
the first of these examinations.
-/
theorem Examines.exists_others {full : List Examination} {last : Source}
    (examines : rule.Examines settings world limit all before examined left after failure)
    (whole : all.filter settings.Admits = full.map (·.nouns))
    (threaded : rule.Examined settings world before full last) :
    failure = none ∧ ∃ others, full = examined ++ others ∧ others.map (·.nouns) = left ∧
      rule.Examined settings world after others last := by
  have split := whole.symm.trans examines.split
  rcases List.map_eq_append_iff.mp split with ⟨first, others, rfl, firstNouns, rfl⟩
  rcases threaded.exists_split with ⟨middle, firstExamined, othersExamined⟩
  rcases firstExamined.unique examines.threaded firstNouns with ⟨rfl, rfl⟩
  refine ⟨?_, others, rfl, rfl, othersExamined⟩
  cases failed : failure with
  | none => rfl
  | some cause =>
      rcases (examines.refused cause failed).2 with ⟨nouns, rest, more, refused⟩
      cases othersExamined with
      | nil => cases more
      | cons tested _ =>
          rw [List.map_cons, List.cons.injEq] at more
          rw [bindingOf, more.1, refused] at tested
          cases tested

theorem firings_append (first others : List Examination) :
    firings (first ++ others) = firings first ++ firings others :=
  List.filter_append first others

theorem spent_some_iff {limit : Nat} (positive : 0 < limit) :
    Spent (some limit) examined ↔ limit ≤ (firings examined).length := by
  constructor
  · intro spent
    simpa [isExhausted] using spent.2
  · intro reached
    refine ⟨List.ne_nil_of_length_pos (Nat.lt_of_lt_of_le positive reached), ?_⟩
    simpa [isExhausted] using reached

/-- The examinations end with the firing that reaches the limit. -/
theorem Examines.exists_last {limit : Nat} (positive : 0 < limit)
    (examines : rule.Examines settings world (some limit) all before examined left after failure)
    (spent : Spent (some limit) examined) :
    ∃ earlier last, examined = earlier ++ [last] ∧ last.fires = true ∧
      (firings earlier).length + 1 = limit := by
  rcases List.eq_nil_or_concat' examined with rfl | ⟨earlier, last, rfl⟩
  · exact absurd spent (not_spent_nil _)
  · have unspent := examines.unspent earlier [last] rfl (List.cons_ne_nil _ _)
    rw [spent_some_iff positive, firings_append, List.length_append] at spent
    rw [spent_some_iff positive] at unspent
    refine ⟨earlier, last, rfl, ?_⟩
    cases fires : last.fires with
    | false =>
        have nothing : firings [last] = [] := by
          simp [firings, fires]
        rw [nothing] at spent
        exact absurd spent unspent
    | true =>
        have counted : (firings [last]).length = 1 := by
          simp [firings, fires]
        exact ⟨rfl, by omega⟩

/-- The source that is left by the firing with some number, or else by all examinations. -/
def sourceAfter (examined : List Examination) (number : Nat) (after : Source) : Source :=
  ((firings examined)[number - 1]?.map (·.source)).getD after

/-- A test with a limit ends with the firing that reaches the limit, if there is one. -/
theorem Examines.eq_take {full : List Examination} {final : Source} {limit : Nat}
    (examines : rule.Examines settings world (some limit) all before examined left after failure)
    (positive : 0 < limit)
    (whole : all.filter settings.Admits = full.map (·.nouns))
    (threaded : rule.Examined settings world before full final) :
    failure = none ∧ firings examined = (firings full).take limit ∧
      after = sourceAfter full limit final := by
  rcases examines.exists_others whole threaded with ⟨succeeds, others, rfl, rfl, rest⟩
  refine ⟨succeeds, ?_⟩
  by_cases spent : Spent (some limit) examined
  · rcases examines.exists_last positive spent with ⟨earlier, last, rfl, fires, rfl⟩
    have here : firings (earlier ++ [last]) = firings earlier ++ [last] := by
      simp [firings, fires]
    constructor
    · rw [firings_append _ others, here, List.take_left' (by simp)]
    · rw [sourceAfter, firings_append _ others, here, examines.threaded.eq_source]
      simp
  · have nothing : others = [] := by
      simpa [spent] using examines.completed succeeds
    subst nothing
    cases rest
    rw [spent_some_iff positive, Nat.not_le] at spent
    rw [List.append_nil]
    constructor
    · rw [List.take_of_length_le (Nat.le_of_lt spent)]
    · have beyond : (firings examined)[limit - 1]? = none := by
        rw [List.getElem?_eq_none_iff]
        omega
      rw [sourceAfter, beyond]
      rfl

/--
All that a test examines if its rule has no limit: the assignments of the slots in lexicographic
order, but for those that are skipped, with one source that is handed on.
-/
structure Enumerates (rule : Rule) (settings : Settings) (world : World) (before : Source)
    (examined : List Examination) (after : Source) : Prop where
  slots :
    FirstOccurrences Term.sameSlot (rule.actions.flatMap (·.statement.parts)) rule.slots
  ordered : ∃ lists all,
    List.Forall₂ (fun slot nouns => candidates world slot = .ok nouns) rule.slots lists ∧
      Product.Lexicographic lists all ∧
      all.filter settings.Admits = examined.map (·.nouns)
  bound : ∀ examination ∈ examined, ∀ v noun,
    (Term.var v, noun) ∈ rule.slots.zip examination.nouns →
      (rule.bindingOf examination)[v.id]? = some noun
  threaded : rule.Examined settings world before examined after

/--
A test of a rule without a limit enumerates the assignments, and finds those for
which the rule fires.  With a limit in the same rule it finds the first of these,
and the draws end with the firing that reaches the limit.
-/
theorem limit_takes_first_firings {before after : Source} {fired : List Binding}
    (unlimited : rule.limit = none)
    (found : rule.firedBindings settings world before = .ok fired after) :
    ∃ examined,
      rule.Enumerates settings world before examined after ∧
        fired = (firings examined).map rule.bindingOf ∧
        ∀ (parameters : List Variable) (limit : Nat),
          ({ rule with parameters } : Rule).limit = some limit → 0 < limit →
            ({ rule with parameters } : Rule).firedBindings settings world before =
              .ok (fired.take limit) (sourceAfter examined limit after) := by
  rcases firedBindings_eq_ok.mp found with ⟨all, _, assigned, _⟩
  rcases map_eq_ok.mp assigned with ⟨lists, listed, combined⟩
  rcases firedBindings_examines rule settings assigned before with
    ⟨examined, left, last, failure, examines, ended⟩
  cases failure with
  | some cause =>
      rw [ended] at found
      cases found
  | none =>
      rw [ended] at found
      cases found
      have nothing : left = [] := by
        simpa [Spent, unlimited, isExhausted] using examines.completed rfl
      have whole : all.filter settings.Admits = examined.map (·.nouns) := by
        rw [examines.split, nothing, List.append_nil]
      refine ⟨examined, ?_, rfl, ?_⟩
      · refine ⟨slots_first rule, ⟨lists, all, mapM_eq_ok.mp listed, ?_, whole⟩, ?_,
          examines.threaded⟩
        · rw [← combined]
          exact Product.combinations_lexicographic lists
        · intro examination member v noun given
          have isAssignment : examination.nouns ∈ all := by
            have admitted : examination.nouns ∈ all.filter settings.Admits := by
              rw [whole]
              exact List.mem_map_of_mem member
            exact (List.mem_filter.mp admitted).1
          have enough := ((mem_assignments_iff assigned).mp isAssignment).length_eq.symm
          exact getElem?_slotBinding enough given
      · intro parameters limit limited positive
        rcases firedBindings_examines { rule with parameters } settings assigned before with
          ⟨first, others, middle, failure, examinesFirst, endedFirst⟩
        rw [limited] at examinesFirst
        rcases examinesFirst.eq_take positive whole (examines.threaded.with_parameters parameters)
          with ⟨rfl, taken, rfl⟩
        rw [endedFirst, taken, List.map_take]
        rfl

/-- A rule with which people invite each other, three times at most, each with an even chance. -/
def invitationRule : List Char :=
  "X.PEOPLE INVITES Y.PEOPLE:3; 0.5,0: [T > 1600]".toList

/-- A world with three people. -/
def salon : World :=
  { clock := { time := 1700, elapsed := 0 }
    network := .empty
    classes := NameTable.extend ∅ "PEOPLE" ["GEORGE", "MARTHA", "NICK"]
    pending := #[]
    nextId := 0
    chronicle := ∅ }

/-- Nobody may invite himself. -/
def courteous : Settings :=
  { threshold := 10, allowDuplicates := false }

/-- The draws are a quarter apart, and begin with zero. -/
def quarters : Source :=
  .ofStep 0 0x4000000000000000

/-- Of the six invitations two and then two more succeed; with the limit, the third is the last. -/
theorem limit_takes_first_firings_in_salon :
    ∃ rule fired after last,
      Script.readRule invitationRule = .ok rule ∧
        ({ rule with parameters := [] } : Rule).limit = none ∧
        ({ rule with parameters := [] } : Rule).firedBindings courteous salon quarters =
          .ok fired after ∧
        fired.length = 4 ∧ after.taken = 6 ∧
        rule.limit = some 3 ∧ 0 < 3 ∧
        rule.firedBindings courteous salon quarters = .ok (fired.take 3) last ∧
        last.taken = 5 := by
  have tested :
      (Script.readRule invitationRule).map (fun rule =>
        let unlimited : Rule := { rule with parameters := [] }
        let whole := unlimited.firedBindings courteous salon
        ((unlimited.limit, rule.limit),
          (succeeded (whole quarters), (whole.run' quarters).map List.length,
            (endState (whole quarters)).taken),
          (endState (rule.firedBindings courteous salon quarters)).taken)) =
      .ok ((none, some 3), (true, some 4, 6), 5) := by
    decide +kernel
  rcases map_eq_ok.mp tested with ⟨rule, read, result⟩
  simp only [Prod.mk.injEq] at result
  rcases result with ⟨⟨unlimited, limited⟩, ⟨ended, counted, drawn⟩, drawnFirst⟩
  rcases exists_of_succeeded ended with ⟨fired, after, found⟩
  have outcome := run'_eq_toOption (show _ = ending (.ok fired) after from found)
  rw [outcome] at counted
  rw [found] at drawn
  rcases limit_takes_first_firings unlimited found with ⟨examined, _, _, first⟩
  have foundFirst := first rule.parameters 3 limited (by decide)
  refine ⟨rule, fired, after, _, read, unlimited, found, Option.some.inj counted, drawn, limited,
    by decide, foundFirst, ?_⟩
  rw [show rule.firedBindings courteous salon quarters = _ from foundFirst] at drawnFirst
  exact drawnFirst

end Rule

end Fabula
