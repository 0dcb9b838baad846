import Fabula.Proofs.Closed
import Fabula.Proofs.Product
import Fabula.Proofs.Tick
import Mathlib.Order.Bounds.Basic

/-!
# How often a rule fires in one test

The limit of a rule is the least of all limits that its actions are written
with, in whatever order and position they stand, and no test fires the rule more
often.  The first part follows the declarations through the scope of the rule:
each of them lowers the least limit in the scope as if it stood in a list with
all others.
-/

namespace Fabula

open Outcome

/-! ## The least of some limits -/

namespace Script

instance : Std.Associative minLimit where
  assoc first second third := by
    cases first <;> cases second <;> cases third <;> simp [minLimit, Nat.min_assoc]

instance : Std.Commutative minLimit where
  comm left right := by
    cases left <;> cases right <;> simp [minLimit, Nat.min_comm]

@[simp]
theorem none_minLimit (limit : Option Nat) : minLimit none limit = limit := by
  cases limit <;> rfl

@[simp]
theorem minLimit_none (limit : Option Nat) : minLimit limit none = limit := by
  cases limit <;> rfl

end Script

open Script

section Least

variable {α : Type} (limit : α → Option Nat)

/-- The least limit among some values, if one of them has a limit. -/
def leastLimit (values : List α) : Option Nat :=
  (values.filterMap limit).min?

theorem leastLimit_cons (value : α) (rest : List α) :
    leastLimit limit (value :: rest) = minLimit (limit value) (leastLimit limit rest) := by
  cases own : limit value with
  | none => simp [leastLimit, own]
  | some number =>
      simp only [leastLimit, List.filterMap_cons_some own, List.min?_cons]
      cases (rest.filterMap limit).min? <;> rfl

@[simp]
theorem leastLimit_singleton (value : α) : leastLimit limit [value] = limit value := by
  rw [leastLimit_cons]
  exact minLimit_none _

theorem leastLimit_append (first others : List α) :
    leastLimit limit (first ++ others) =
      minLimit (leastLimit limit first) (leastLimit limit others) := by
  induction first with
  | nil => exact (none_minLimit _).symm
  | cons value rest ih =>
      rw [List.cons_append, leastLimit_cons, leastLimit_cons, ih]
      ac_rfl

theorem leastLimit_eq_some_iff {values : List α} {least : Nat} :
    leastLimit limit values = some least ↔
      IsLeast {number | ∃ value ∈ values, limit value = some number} least := by
  rw [leastLimit, List.min?_eq_some_iff]
  simp only [List.mem_filterMap, IsLeast, lowerBounds, Set.mem_ofPred_eq]

theorem leastLimit_eq_none_iff {values : List α} :
    leastLimit limit values = none ↔ ∀ value ∈ values, limit value = none := by
  rw [leastLimit, List.min?_eq_none_iff, List.filterMap_eq_nil_iff]

theorem exists_leastLimit_set {values : List α} {place : Nat} (inside : place < values.length) :
    ∃ others, ∀ value,
      leastLimit limit (values.set place value) = minLimit (limit value) others := by
  refine ⟨minLimit (leastLimit limit (values.take place))
    (leastLimit limit (values.drop (place + 1))), ?_⟩
  intro value
  rw [List.set_eq_take_append_cons_drop, if_pos inside, leastLimit_append, leastLimit_cons]
  ac_rfl

end Least

namespace Script

/-! ## Limits in a scope -/

namespace Scope

/-- The least limit in a scope. -/
def limit (scope : Scope) : Option Nat :=
  leastLimit Variable.limit scope.declared.toList

theorem limit_add (scope : Scope) (v : Variable) :
    (scope.add v).limit = minLimit scope.limit v.limit := by
  rw [limit, add, Array.toList_push, leastLimit_append, leastLimit_singleton]
  rfl

theorem limit_replace {scope : Scope} (numbered : scope.Numbered) {v : Variable}
    (member : v ∈ scope.declared.toList) (limit : Option Nat) :
    (scope.replace { v with limit := minLimit v.limit limit }).limit =
      minLimit scope.limit limit := by
  rcases List.mem_iff_getElem?.mp member with ⟨place, found⟩
  have same := numbered.id_eq (Array.getElem?_toList.symm.trans found)
  rcases List.getElem?_eq_some_iff.mp found with ⟨inside, here⟩
  rcases exists_leastLimit_set Variable.limit inside with ⟨others, counted⟩
  have unchanged : scope.declared.toList = scope.declared.toList.set place v := by
    rw [← here, List.set_getElem_self]
  have before : scope.limit = minLimit v.limit others := by
    rw [Scope.limit, unchanged, counted]
  rw [before, Scope.limit, replace, Array.toList_setIfInBounds, same, counted]
  show minLimit (minLimit v.limit limit) others = minLimit (minLimit v.limit others) limit
  ac_rfl

theorem declare_limit {name : Option String} {className : String} {limit : Option Nat}
    {before after : Scope} {v : Variable} (numbered : before.Numbered)
    (declared : declare name className limit before = .ok v after) :
    after.limit = minLimit before.limit limit := by
  rcases declare_cases declared with ⟨_, rfl, rfl⟩ | ⟨_, old, _, looked, _, rfl, rfl⟩
  · exact limit_add _ _
  · exact limit_replace numbered (lookup_mem looked) limit

end Scope

/-! ## Limits as they are written -/

/-- A token `Y.CLASS:N` with its limit `N`. -/
def WritesLimit (token : List Char) (limit : Nat) : Prop :=
  ∃ className digits,
    token = 'Y' :: '.' :: (className ++ ':' :: digits) ∧ ':' ∉ className ∧
      Text.readNat? Text.wordBound digits = some limit

/-- The limit of a token, if it is written with one. -/
def tokenLimit : List Char → Option Nat
  | 'Y' :: '.' :: rest =>
      (Text.cut? [':'] rest).bind fun (_, digits) => Text.readNat? Text.wordBound digits
  | _ => none

theorem tokenLimit_eq_some_iff {token : List Char} {limit : Nat} :
    tokenLimit token = some limit ↔ WritesLimit token limit := by
  constructor
  · intro written
    unfold tokenLimit at written
    split at written
    · rename_i rest
      rcases Option.bind_eq_some_iff.mp written with ⟨⟨className, digits⟩, cut, number⟩
      rcases Text.cut?_singleton.mp cut with ⟨rfl, absent⟩
      exact ⟨className, digits, rfl, absent, number⟩
    · cases written
  · rintro ⟨className, digits, rfl, absent, number⟩
    have cut : Text.cut? [':'] (className ++ ':' :: digits) = some (className, digits) :=
      Text.cut?_singleton.mpr ⟨rfl, absent⟩
    rw [tokenLimit, cut]
    exact number

/-- The subject and the object of an action as they are written. -/
def termTokens (text : List Char) : List (List Char) :=
  match Text.words text with
  | [subject, _] => [subject]
  | [subject, _, object] => [subject, object]
  | _ => []

/-- The limits with which the subjects and objects in the list of actions are written. -/
def writtenLimits (definition : List Char) : Set Nat :=
  {limit | ∃ text ∈ Text.parts ',' (actionList definition), ∃ token ∈ termTokens text,
    WritesLimit token limit}

/-! ## Reading the actions -/

/-- What reading some tokens does to the least limit of the scope. -/
structure ReadsLimits (before after : Scope) (tokens : List (List Char)) : Prop where
  least : after.limit = minLimit before.limit (leastLimit tokenLimit tokens)
  positive : ∀ token ∈ tokens, ∀ limit, tokenLimit token = some limit → 0 < limit

theorem ReadsLimits.append {first second third : Scope} {tokens others : List (List Char)}
    (left : ReadsLimits first second tokens) (right : ReadsLimits second third others) :
    ReadsLimits first third (tokens ++ others) where
  least := by
    rw [right.least, left.least, leastLimit_append]
    ac_rfl
  positive := by
    intro token member
    rcases List.mem_append.mp member with earlier | later
    · exact left.positive token earlier
    · exact right.positive token later

theorem ReadsLimits.nothing (scope : Scope) : ReadsLimits scope scope [] :=
  ⟨(minLimit_none _).symm, by simp⟩

theorem ReadsLimits.unlimited {before after : Scope} {token : List Char}
    (unwritten : tokenLimit token = none) (kept : after.limit = before.limit) :
    ReadsLimits before after [token] where
  least := by
    rw [kept, leastLimit_singleton, unwritten, minLimit_none]
  positive := by
    simp [unwritten]

theorem readName_limit {name : List Char} {before after : Scope} {term : Term}
    (read : readName name before = .ok term after) : after.limit = before.limit := by
  rcases readName_eq_ok.mp read with ⟨_, _, _, rfl⟩
  rfl

theorem readDeclaration_limit {token className : List Char} {name : Option String}
    {limit : Option Nat} {before after : Scope} {term : Term} (numbered : before.Numbered)
    (read : readDeclaration token name className limit before = .ok term after) :
    after.limit = minLimit before.limit limit := by
  rcases readDeclaration_eq_ok.mp read with ⟨_, v, declared, _⟩
  exact Scope.declare_limit numbered declared

theorem readLimit_eq_ok {token digits : List Char} {limit : Nat} :
    readLimit token digits = .ok limit ↔
      Text.readNat? Text.wordBound digits = some limit ∧ 0 < limit := by
  rw [readLimit]
  split
  · rename_i number found
    rw [found]
    constructor
    · intro read
      cases read
      exact ⟨rfl, Nat.succ_pos _⟩
    · rintro ⟨equal, _⟩
      cases equal
      rfl
  · rename_i refused
    constructor
    · intro read
      cases read
    · rintro ⟨found, positive⟩
      rcases Nat.exists_eq_succ_of_ne_zero (Nat.pos_iff_ne_zero.mp positive) with ⟨number, rfl⟩
      exact absurd found (refused number)

theorem readTerm_limits {token : List Char} {before after : Scope} {term : Term}
    (numbered : before.Numbered) (read : readTerm token before = .ok term after) :
    ReadsLimits before after [token] := by
  unfold readTerm at read
  split at read
  · exact .unlimited rfl (readName_limit read)
  · exact .unlimited rfl (readName_limit read)
  · split at read
    · exact absurd read throw_ne_ok
    · exact .unlimited rfl ((readDeclaration_limit numbered read).trans (minLimit_none _))
  · rename_i rest
    cases cut : Text.cut? [':'] rest with
    | none =>
        simp only [cut] at read
        have unwritten : tokenLimit ('Y' :: '.' :: rest) = none := by
          rw [tokenLimit, cut]
          rfl
        exact .unlimited unwritten ((readDeclaration_limit numbered read).trans (minLimit_none _))
    | some parts =>
        rcases parts with ⟨className, digits⟩
        simp only [cut] at read
        rcases run_bind_eq_ok.mp read with ⟨limit, middle, limited, declared⟩
        rcases lift_eq_ok.mp limited with ⟨readNumber, rfl⟩
        rcases readLimit_eq_ok.mp readNumber with ⟨number, positive⟩
        have written : tokenLimit ('Y' :: '.' :: rest) = some limit := by
          rw [tokenLimit, cut]
          exact number
        constructor
        · rw [leastLimit_singleton, written]
          exact readDeclaration_limit numbered declared
        · simp only [List.mem_singleton, forall_eq, written, Option.some.injEq]
          rintro _ rfl
          exact positive
  · rename_i rest
    cases cut : Text.cut? ['.'] rest with
    | some parts =>
        simp only [cut] at read
        exact .unlimited rfl ((readDeclaration_limit numbered read).trans (minLimit_none _))
    | none =>
        simp only [cut] at read
        split at read
        · exact absurd read throw_ne_ok
        · exact .unlimited rfl (readName_limit read)
  · rename_i other _
    cases read
    refine .unlimited ?_ rfl
    unfold tokenLimit
    split
    · exact absurd rfl (other _)
    · rfl

theorem readTerm?_limits {token : Option (List Char)} {before after : Scope}
    {term : Option Term} (numbered : before.Numbered)
    (read : readTerm? token before = .ok term after) :
    ReadsLimits before after token.toList := by
  cases token with
  | none =>
      cases read
      exact .nothing before
  | some token =>
      rcases run_map_eq_ok.mp read with ⟨value, readValue, rfl⟩
      exact readTerm_limits numbered readValue

theorem termTokens_of_splitAction {text subject relation : List Char}
    {object : Option (List Char)} (cut : splitAction text = .ok (subject, relation, object)) :
    termTokens text = subject :: object.toList := by
  rw [splitAction] at cut
  split at cut
  · rename_i shape
    cases cut
    simp only [termTokens, shape, Option.toList_none]
  · rename_i shape
    cases cut
    simp only [termTokens, shape, Option.toList_some]
  · cases cut

theorem readAction_limits {text : List Char} {before after : Scope} {action : Action}
    (numbered : before.Numbered) (read : readAction text before = .ok action after) :
    ReadsLimits before after (termTokens text) := by
  rcases readAction_parts read with
    ⟨_, _, _, subject, directed, object, middle, cut, readSubject, _, readObject, _, _⟩
  have subjectLimits := readTerm_limits numbered readSubject
  have subjectReads := readTerm_reads numbered readSubject
  have objectLimits := readTerm?_limits subjectReads.numbered readObject
  rw [termTokens_of_splitAction cut]
  exact subjectLimits.append objectLimits

theorem readActions_limits {texts : List (List Char)} {before after : Scope}
    {actions : List Action} (numbered : before.Numbered)
    (read : texts.mapM readAction before = .ok actions after) :
    ReadsLimits before after (texts.flatMap termTokens) := by
  induction texts generalizing actions before with
  | nil =>
      cases read
      exact .nothing _
  | cons text rest ih =>
      rcases run_mapM_cons_eq_ok.mp read with ⟨action, _, others, readFirst, readOthers, rfl⟩
      have firstReads := readAction_reads numbered readFirst
      exact (readAction_limits numbered readFirst).append (ih firstReads.numbered readOthers)

/-- The limit of a rule is the least that its actions write, and every limit there is positive. -/
theorem limit_readRule {definition : List Char} {rule : Rule}
    (read : readRule definition = .ok rule) :
    rule.limit =
        leastLimit tokenLimit
          ((Text.parts ',' (actionList definition)).flatMap termTokens) ∧
      ∀ limit ∈ writtenLimits definition, 0 < limit := by
  rcases readRule_parts read with ⟨scope, readActions, _, _, parameters⟩
  have limits := readActions_limits Scope.numbered_empty readActions
  constructor
  · have found : rule.limit = scope.limit := by
      rw [Rule.limit, parameters]
      rfl
    have nothing : Scope.empty.limit = none := by
      rfl
    rw [found, limits.least, nothing, none_minLimit]
  · rintro limit ⟨text, inList, token, inText, written⟩
    have member : token ∈ (Text.parts ',' (actionList definition)).flatMap termTokens :=
      List.mem_flatMap.mpr ⟨text, inList, inText⟩
    exact limits.positive token member limit (tokenLimit_eq_some_iff.mpr written)

end Script

/-! ## Tests -/

namespace Rule

/-- A test that has not ended leaves room below the limit; one that has ended keeps to it. -/
def WithinLimit (limit : Nat) : ForInStep (Array Binding) → Prop
  | .yield fired => fired.size < limit
  | .done fired => fired.size ≤ limit

theorem examine_withinLimit (rule : Rule) (settings : Settings) (world : World)
    (slots : List Term) {limit : Nat} (nouns : List String) {fired : Array Binding}
    (room : fired.size < limit) :
    (Success.barringErrors Error Source).Yields
      (rule.examine settings world slots (some limit) nouns fired) (WithinLimit limit) := by
  rw [examine]
  split
  · exact Success.pure _ room
  · have any :
        (Success.barringErrors Error Source).Yields
          (rule.triggered settings world (slotBinding slots nouns)) fun _ => True :=
      fun _ _ _ _ => trivial
    refine Success.bind _ any ?_
    intro fires _
    cases fires with
    | false => exact Success.pure _ room
    | true =>
        apply Success.pure
        split
        · show (fired.push _).size ≤ limit
          rw [Array.size_push]
          exact room
        · rename_i goesOn
          show (fired.push _).size < limit
          simpa [isExhausted] using goesOn

theorem firedBindings_withinLimit {rule : Rule} {limit : Nat} (limited : rule.limit = some limit)
    (positive : 0 < limit) (settings : Settings) (world : World) :
    (Success.barringErrors Error Source).Yields (rule.firedBindings settings world)
      fun bindings => bindings.length ≤ limit := by
  rw [firedBindings]
  split
  · intro before value after ended
    cases ended
  · rename_i lists _
    have visited :
        (Success.barringErrors Error Source).Yields
          (Product.visit lists (rule.examine settings world rule.slots (some limit)) #[])
          (WithinLimit limit) := by
      apply Product.visit_yields
      · exact positive
      · intro nouns _ fired room
        exact examine_withinLimit rule settings world _ nouns room
    rw [limited]
    refine Success.bind _ visited ?_
    intro step within
    apply Success.pure
    rw [Array.length_toList]
    cases step with
    | done fired => exact within
    | yield fired => exact Nat.le_of_lt within

theorem test_le_limit {rule : Rule} {limit : Nat} (limited : rule.limit = some limit)
    (positive : 0 < limit) {settings : Settings} {before after : Stage} {count : Nat}
    (tested : rule.test settings before = .ok count after) : count ≤ limit := by
  rcases test_eq_ok.mp tested with ⟨bindings, lists, found, _, _, rfl⟩
  exact firedBindings_withinLimit limited positive settings before.world _ _ _ found

end Rule

namespace Script

/--
The limit of a rule is the least among the limits that its actions are written
with, and there is none if there is no such limit; subrules do not matter.  It
is never zero, and no test fires the rule more often.
-/
theorem limit_is_least_written {definition : List Char} {rule : Rule}
    (read : readRule definition = .ok rule) :
    (∀ limit, rule.limit = some limit ↔ IsLeast (writtenLimits definition) limit) ∧
      (rule.limit = none ↔ writtenLimits definition = ∅) ∧
      (∀ other otherRule, actionList other = actionList definition →
        readRule other = .ok otherRule → otherRule.limit = rule.limit) ∧
      ∀ limit, rule.limit = some limit →
        0 < limit ∧
          ∀ settings before count after, rule.test settings before = .ok count after →
            count ≤ limit := by
  have found := limit_readRule read
  have written :
      {limit | ∃ token ∈ (Text.parts ',' (actionList definition)).flatMap termTokens,
          tokenLimit token = some limit} = writtenLimits definition := by
    ext limit
    simp only [writtenLimits, Set.mem_ofPred_eq, List.mem_flatMap, tokenLimit_eq_some_iff]
    constructor
    · rintro ⟨token, ⟨text, inList, inText⟩, writes⟩
      exact ⟨text, inList, token, inText, writes⟩
    · rintro ⟨text, inList, token, inText, writes⟩
      exact ⟨token, ⟨text, inList, inText⟩, writes⟩
  have least : ∀ limit, rule.limit = some limit ↔ IsLeast (writtenLimits definition) limit := by
    intro limit
    rw [found.1, leastLimit_eq_some_iff, written]
  refine ⟨least, ?_, ?_, ?_⟩
  · rw [found.1, leastLimit_eq_none_iff, ← written, Set.eq_empty_iff_forall_notMem]
    simp only [Set.mem_ofPred_eq, not_exists, not_and, Option.eq_none_iff_forall_ne_some]
    constructor
    · intro unlimited limit token member
      exact unlimited token member limit
    · intro absent token member limit
      exact absent limit token member
  · intro other otherRule same readOther
    rw [(limit_readRule readOther).1, found.1, same]
  · intro limit limited
    have positive := found.2 limit ((least limit).mp limited).1
    exact ⟨positive, fun _ _ _ _ tested => Rule.test_le_limit limited positive tested⟩

/-- A rule that mentions its other character three times, at first without a limit. -/
def feastRule : List Char :=
  "X.PEOPLE LIKES Y.PEOPLE, Y.PEOPLE:3 ADMIRES X, X FEARS Y.PEOPLE:2; 10,0: [T > 1700]".toList

theorem limit_is_least_written_of_feast :
    ∃ rule, readRule feastRule = .ok rule ∧ IsLeast (writtenLimits feastRule) 2 ∧
      ∀ settings before count after, rule.test settings before = .ok count after →
        count ≤ 2 := by
  obtain ⟨rule, read⟩ : ∃ rule, readRule feastRule = .ok rule :=
    exists_of_isOk (by decide +kernel)
  have limited : (readRule feastRule).toOption.bind Rule.limit = some 2 := by
    decide +kernel
  rw [read] at limited
  have promised := limit_is_least_written read
  exact ⟨rule, read, (promised.1 2).mp limited, (promised.2.2.2 2 limited).2⟩

end Script

end Fabula
