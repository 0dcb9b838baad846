import Fabula.Proofs.Declaration

/-!
# Scopes and their children

Declarations, terms and children are all that happens to scopes.  What such a
call leaves behind is the scope it began with, or its child, or what one
declaration makes of it.  Therefore every scope is consistent, whatever calls
have led to it, and a child keeps what it has inherited: later declarations can
lower a limit, and change nothing else.
-/

namespace Fabula

/-- A variable is an earlier one, or differs from it by a limit that is lower or new. -/
structure Variable.Tightens (later earlier : Variable) : Prop where
  id : later.id = earlier.id
  name : later.name = earlier.name
  className : later.className = earlier.className
  limit : ∀ bound, earlier.limit = some bound → ∃ lower ≤ bound, later.limit = some lower

theorem Variable.Tightens.refl (v : Variable) : v.Tightens v :=
  ⟨rfl, rfl, rfl, fun bound limited => ⟨bound, Nat.le_refl bound, limited⟩⟩

theorem Variable.Tightens.trans {first second third : Variable}
    (later : third.Tightens second) (earlier : second.Tightens first) :
    third.Tightens first where
  id := later.id.trans earlier.id
  name := later.name.trans earlier.name
  className := later.className.trans earlier.className
  limit := by
    intro bound limited
    rcases earlier.limit bound limited with ⟨middle, middleLe, middleLimited⟩
    rcases later.limit middle middleLimited with ⟨lower, lowerLe, lowerLimited⟩
    exact ⟨lower, Nat.le_trans lowerLe middleLe, lowerLimited⟩

theorem Variable.tightens_minLimit (v : Variable) (limit : Option Nat) :
    { v with limit := Script.minLimit v.limit limit }.Tightens v where
  id := rfl
  name := rfl
  className := rfl
  limit := by
    intro bound limited
    rw [limited]
    cases limit with
    | none => exact ⟨bound, Nat.le_refl bound, rfl⟩
    | some other => exact ⟨min bound other, Nat.min_le_left bound other, rfl⟩

namespace Script

open Outcome Scope

namespace Scope

/-! ## Consistent scopes -/

/-- The variables, the table of their names and the mark between parent and child agree. -/
structure Consistent (scope : Scope) : Prop where
  numbered : ∀ (place : Nat) (v : Variable), scope.declared[place]? = some v → v.id = place
  tabled : ∀ (name : String) (id : Nat), scope.byName[name]? = some id ↔
    ∃ v, scope.declared[id]? = some v ∧ v.name = some name
  named : ∀ v ∈ scope.declared, ∀ w ∈ scope.declared, ∀ name,
    v.name = some name → w.name = some name → v = w
  inherited : scope.inherited ≤ scope.declared.size
  locals : scope.locals = scope.declared.toList.filter fun v => scope.inherited ≤ v.id

/-- The local variables are those that are numbered after the inherited ones. -/
theorem Numbered.locals_eq_filter {scope : Scope} (numbered : scope.Numbered) :
    scope.locals = scope.declared.toList.filter fun v => scope.inherited ≤ v.id := by
  have place {v : Variable} {place : Nat} (found : scope.declared.toList[place]? = some v) :
      v.id = place :=
    numbered.id_eq (Array.getElem?_toList.symm.trans found)
  have before : (scope.declared.toList.take scope.inherited).filter
      (fun v => scope.inherited ≤ v.id) = [] := by
    rw [List.filter_eq_nil_iff]
    intro v member
    rcases List.mem_iff_getElem?.mp member with ⟨index, found⟩
    rw [List.getElem?_take] at found
    split at found
    · rename_i inside
      simp [place found, inside]
    · cases found
  have after : (scope.declared.toList.drop scope.inherited).filter
      (fun v => scope.inherited ≤ v.id) = scope.locals := by
    refine List.filter_eq_self.mpr ?_
    intro v member
    rcases List.mem_iff_getElem?.mp member with ⟨index, found⟩
    rw [List.getElem?_drop] at found
    simp [place found]
  calc scope.locals
      = ((scope.declared.toList.take scope.inherited) ++
          scope.declared.toList.drop scope.inherited).filter
            (fun v => scope.inherited ≤ v.id) := by
        rw [List.filter_append, before, after, List.nil_append]
    _ = _ := by rw [List.take_append_drop]

theorem Regular.consistent {scope : Scope} (regular : scope.Regular)
    (inherited : scope.inherited ≤ scope.declared.size) : scope.Consistent where
  numbered _ _ found := regular.numbered.id_eq found
  tabled _ _ := regular.byName_eq_some_iff
  named := by
    intro v inScope w otherInScope name named otherNamed
    have looked {u : Variable} (member : u ∈ scope.declared) (named : u.name = some name) :
        scope.lookup name = some u := by
      rcases Array.mem_iff_getElem?.mp member with ⟨place, found⟩
      rw [← regular.numbered.id_eq found] at found
      exact regular.lookup_eq_some_iff.mpr ⟨found, named⟩
    have same := looked inScope named
    rw [looked otherInScope otherNamed] at same
    exact (Option.some.inj same).symm
  inherited := inherited
  locals := regular.numbered.locals_eq_filter

/-! ## Declarations -/

/-- A declaration fails exactly if its name is known with another class, and changes nothing. -/
theorem declare_eq_error {name : Option String} {className : String} {limit : Option Nat}
    {before after : Scope} {cause : Error} :
    declare name className limit before = .error cause after ↔
      after = before ∧ ∃ text old, name = some text ∧ before.lookup text = some old ∧
        old.className ≠ className ∧ cause = .conflictingClass text old.className className := by
  rw [declare]
  constructor
  · intro failed
    split at failed
    · cases failed
    · rename_i old found
      rcases Option.bind_eq_some_iff.mp found with ⟨text, rfl, looked⟩
      split at failed
      · cases failed
      · rename_i otherClass
        cases failed
        exact ⟨rfl, text, old, rfl, looked, by simpa using otherClass, rfl⟩
  · rintro ⟨rfl, text, old, rfl, looked, otherClass, rfl⟩
    have found : (some text).bind after.lookup = some old := looked
    rw [found]
    simp [otherClass]

/--
What a declaration makes of a scope.  It gives the variable with its name and
class, and leaves all others as they are.  A new variable comes last; one that
is known keeps all but its limit.
-/
structure Declares (before : Scope) (name : Option String) (className : String)
    (limit : Option Nat) (v : Variable) (after : Scope) : Prop where
  named : v.name = name
  classed : v.className = className
  listed : after.declared[v.id]? = some v
  others : ∀ place : Nat, place ≠ v.id → after.declared[place]? = before.declared[place]?
  inherited : after.inherited = before.inherited
  fresh : (∀ text, name = some text → before.byName[text]? = none) →
    v.id = before.declared.size ∧ v.limit = limit
  again : ∀ (text : String) (id : Nat), name = some text → before.byName[text]? = some id →
    v.id = id ∧ ∃ old, before.declared[id]? = some old ∧
      v = { old with limit := minLimit old.limit limit }

theorem Regular.byName_eq_none {scope : Scope} (regular : scope.Regular) {name : String}
    (unknown : scope.lookup name = none) : scope.byName[name]? = none := by
  rw [Option.eq_none_iff_forall_ne_some]
  intro id tabled
  rcases (regular.tabled name id).mp tabled with ⟨v, listed, named⟩
  exact regular.ne_name_of_lookup unknown (List.mem_of_getElem? listed) named

theorem Regular.declares {name : Option String} {className : String} {limit : Option Nat}
    {before after : Scope} {v : Variable} (regular : before.Regular)
    (declared : declare name className limit before = .ok v after) :
    Declares before name className limit v after := by
  rcases declare_cases declared with
    ⟨unknown, rfl, rfl⟩ | ⟨text, old, rfl, looked, sameClass, rfl, rfl⟩
  case inl =>
    have notTabled : ∀ text, name = some text → before.byName[text]? = none := by
      rintro text rfl
      exact regular.byName_eq_none unknown
    constructor
    case named => rfl
    case classed => rfl
    case listed => exact Array.getElem?_push_size
    case others =>
      intro place other
      have notLast : place ≠ before.declared.size := other
      exact Array.getElem?_push.trans (if_neg notLast)
    case inherited => rfl
    case fresh => exact fun _ => ⟨rfl, rfl⟩
    case again =>
      intro text id named tabled
      rw [notTabled text named] at tabled
      cases tabled
  case inr =>
    rcases regular.lookup_eq_some_iff.mp looked with ⟨found, named⟩
    have tabled := regular.byName_eq_some_iff.mpr ⟨old, found, named⟩
    have inside : old.id < before.declared.size := (Array.getElem?_eq_some_iff.mp found).1
    constructor
    case named => exact named
    case classed => exact sameClass
    case listed => exact Array.getElem?_setIfInBounds_self_of_lt inside
    case others =>
      intro place other
      exact Array.getElem?_setIfInBounds_ne other.symm
    case inherited => rfl
    case fresh =>
      intro notTabled
      rw [notTabled text rfl] at tabled
      cases tabled
    case again =>
      rintro _ id ⟨⟩ otherTabled
      rw [tabled] at otherTabled
      cases otherTabled
      exact ⟨rfl, old, found, rfl⟩

/-! ## Growth -/

/-- A scope and what declarations make of it: no variable is lost, and limits may be lowered. -/
structure Grows (before after : Scope) : Prop where
  inherited : after.inherited = before.inherited
  kept : ∀ (place : Nat) (v : Variable), before.declared[place]? = some v →
    ∃ w, after.declared[place]? = some w ∧ w.Tightens v

theorem Grows.refl (scope : Scope) : Grows scope scope where
  inherited := rfl
  kept _ v found := ⟨v, found, .refl v⟩

theorem Grows.trans {first second third : Scope} (earlier : Grows first second)
    (later : Grows second third) : Grows first third where
  inherited := later.inherited.trans earlier.inherited
  kept := by
    intro place v found
    rcases earlier.kept place v found with ⟨w, foundNext, tightens⟩
    rcases later.kept place w foundNext with ⟨u, foundLast, tightensNext⟩
    exact ⟨u, foundLast, tightensNext.trans tightens⟩

theorem Grows.size_le {before after : Scope} (grows : Grows before after) :
    before.declared.size ≤ after.declared.size := by
  by_contra less
  have inside : after.declared.size < before.declared.size := by omega
  rcases grows.kept _ _ (Array.getElem?_eq_getElem inside) with ⟨w, found, _⟩
  exact absurd (Array.getElem?_eq_some_iff.mp found).1 (Nat.lt_irrefl _)

/-- A declaration tightens a variable that is there, or adds one behind all others. -/
theorem Declares.grows {before after : Scope} {name : Option String} {className : String}
    {limit : Option Nat} {v : Variable}
    (declares : Declares before name className limit v after) : Grows before after where
  inherited := declares.inherited
  kept := by
    intro place w found
    by_cases same : place = v.id
    · subst same
      refine ⟨v, declares.listed, ?_⟩
      by_cases known : ∃ text id, name = some text ∧ before.byName[text]? = some id
      · rcases known with ⟨text, id, named, tabled⟩
        rcases declares.again text id named tabled with ⟨rfl, old, foundOld, rfl⟩
        rw [foundOld] at found
        cases found
        exact Variable.tightens_minLimit _ limit
      · have notTabled : ∀ text, name = some text → before.byName[text]? = none := by
          intro text named
          rw [Option.eq_none_iff_forall_ne_some]
          exact fun id tabled => known ⟨text, id, named, tabled⟩
        have last := (declares.fresh notTabled).1
        exact absurd (Array.getElem?_eq_some_iff.mp found).1 (by omega)
    · exact ⟨w, (declares.others place same).trans found, .refl w⟩

theorem Built.inherited_le {scope : Scope} (built : scope.Built) :
    scope.inherited ≤ scope.declared.size := by
  induction built with
  | empty => exact Nat.le_refl _
  | child _ _ => exact Nat.le_refl _
  | declare built declared inside =>
      have grows := (built.regular.declares declared).grows
      rw [grows.inherited]
      exact Nat.le_trans inside grows.size_le

end Scope

/-! ## Terms -/

theorem readName_error {name : List Char} {before after : Scope} {cause : Error}
    (failed : readName name before = .error cause after) : after = before := by
  rcases run_bind_eq_error.mp failed with got | ⟨scope, middle, got, resolved⟩
  · cases got
  · cases got
    rcases run_bind_eq_error.mp resolved with refused | ⟨v, last, _, returned⟩
    · exact (lift_eq_error.mp refused).2
    · cases returned

theorem readDeclaration_error {token className : List Char} {name : Option String}
    {limit : Option Nat} {before after : Scope} {cause : Error}
    (failed : readDeclaration token name className limit before = .error cause after) :
    after = before := by
  rw [readDeclaration] at failed
  split at failed
  · cases failed
    rfl
  · rcases run_bind_eq_error.mp failed with refused | ⟨v, last, _, returned⟩
    · exact (declare_eq_error.mp refused).1
    · cases returned

/-- A term that cannot be read declares nothing. -/
theorem readTerm_error {token : List Char} {before after : Scope} {cause : Error}
    (failed : readTerm token before = .error cause after) : after = before := by
  rcases readTerm_cases token with
    ⟨name, form⟩ | ⟨name, className, limit, form, _⟩ | ⟨other, form⟩ | ⟨_, form⟩
  · rw [form] at failed
    exact readName_error failed
  · rw [form] at failed
    exact readDeclaration_error failed
  · rw [form] at failed
    cases failed
    rfl
  · rw [form] at failed
    cases failed

/-! ## Calls -/

namespace Scope

/-- What is done with scopes: one declares a variable, reads a term, or goes on with a child. -/
inductive Call where
  | declare (name : Option String) (className : String) (limit : Option Nat)
  | term (token : List Char)
  | child
deriving DecidableEq, Repr

/-- The scope that a call leaves behind, whether it has failed or not. -/
def Call.perform (scope : Scope) : Call → Scope
  | .declare name className limit => endState (Scope.declare name className limit scope)
  | .term token => endState (readTerm token scope)
  | .child => scope.child

/-- The scope that several calls leave behind, one after the other. -/
def performAll (scope : Scope) (calls : List Call) : Scope :=
  calls.foldl Call.perform scope

theorem performAll_cons (scope : Scope) (call : Call) (calls : List Call) :
    scope.performAll (call :: calls) = (call.perform scope).performAll calls :=
  rfl

theorem performAll_append (scope : Scope) (earlier later : List Call) :
    scope.performAll (earlier ++ later) = (scope.performAll earlier).performAll later :=
  List.foldl_append

/-- A call makes a child, or it changes nothing, or it is one declaration. -/
theorem Call.perform_cases (call : Call) (scope : Scope) :
    call = .child ∨ call.perform scope = scope ∨
      ∃ name className limit v,
        Scope.declare name className limit scope = .ok v (call.perform scope) := by
  cases call with
  | child => exact .inl rfl
  | declare name className limit =>
      cases ended : Scope.declare name className limit scope with
      | ok v after =>
          have performed : (Call.declare name className limit).perform scope = after := by
            rw [perform, ended, endState]
          exact .inr (.inr ⟨name, className, limit, v, performed ▸ ended⟩)
      | error cause after =>
          refine .inr (.inl ?_)
          rw [perform, ended, endState]
          exact (declare_eq_error.mp ended).1
  | term token =>
      cases ended : readTerm token scope with
      | ok term after =>
          have performed : (Call.term token).perform scope = after := by
            rw [perform, ended, endState]
          rw [performed]
          rcases readTerm_eq_ok ended with same | ⟨name, className, limit, v, _, declared⟩
          · exact .inr (.inl same)
          · exact .inr (.inr ⟨name, className, limit, v, declared⟩)
      | error cause after =>
          refine .inr (.inl ?_)
          rw [perform, ended, endState]
          exact readTerm_error ended

theorem Built.perform {scope : Scope} (built : scope.Built) (call : Call) :
    (call.perform scope).Built := by
  rcases call.perform_cases scope with rfl | same | ⟨name, className, limit, v, declared⟩
  · exact built.child
  · rwa [same]
  · exact built.declare declared

theorem Built.performAll {scope : Scope} (built : scope.Built) (calls : List Call) :
    (scope.performAll calls).Built := by
  induction calls generalizing scope with
  | nil => exact built
  | cons call rest ih => exact ih (built.perform call)

/-- A call that makes no child keeps the variables of a scope. -/
theorem Regular.perform_grows {scope : Scope} (regular : scope.Regular) {call : Call}
    (noChild : call ≠ .child) : Grows scope (call.perform scope) := by
  rcases call.perform_cases scope with isChild | same | ⟨name, className, limit, v, declared⟩
  · exact absurd isChild noChild
  · rw [same]
    exact .refl scope
  · exact (regular.declares declared).grows

theorem Built.performAll_grows {scope : Scope} (built : scope.Built) {calls : List Call}
    (noChild : .child ∉ calls) : Grows scope (scope.performAll calls) := by
  induction calls generalizing scope with
  | nil => exact .refl scope
  | cons call rest ih =>
      rw [List.mem_cons, not_or] at noChild
      exact (built.regular.perform_grows (Ne.symm noChild.1)).trans
        (ih (built.perform call) noChild.2)

/-! ## All scopes -/

/-- A scope that began as a child of `parent` and has been used since. -/
structure Inherits (parent scope : Scope) : Prop where
  inherited : scope.inherited = parent.declared.size
  kept : ∀ (place : Nat) (v : Variable), parent.declared[place]? = some v →
    ∃ w, scope.declared[place]? = some w ∧ w.Tightens v

theorem Grows.inherits {parent scope : Scope} (grows : Grows parent.child scope) :
    Inherits parent scope where
  inherited := grows.inherited
  kept := grows.kept

/--
Every sequence of calls leads from the empty scope to a consistent one, whose
inherited variables are those that its parent had when it became a parent, up
to lower limits.  A call that fails changes nothing, and neither does a token
for a noun; a declaration changes no variable but its own, and of that one only
the limit.
-/
theorem scopes_stay_consistent :
    (∀ calls, (empty.performAll calls).Consistent) ∧
      (∀ calls, .child ∉ calls → (empty.performAll calls).inherited = 0) ∧
      (∀ earlier later, .child ∉ later →
        Inherits (empty.performAll earlier)
          (empty.performAll (earlier ++ .child :: later))) ∧
      (∀ calls name className limit v after,
        declare name className limit (empty.performAll calls) = .ok v after →
          Declares (empty.performAll calls) name className limit v after ∧
            Grows (empty.performAll calls) after) ∧
      (∀ scope name className limit cause after,
        declare name className limit scope = .error cause after → after = scope) ∧
      (∀ scope token cause after, readTerm token scope = .error cause after → after = scope) ∧
      (∀ scope token term after, readTerm token scope = .ok term after →
        after = scope ∨ ∃ name className limit v,
          term = .var v ∧ declare name className limit scope = .ok v after) ∧
      ∀ scope token noun after, readTerm token scope = .ok (.noun noun) after ↔
        IsLiteral token ∧ noun = String.ofList token ∧ after = scope := by
  have built (calls : List Call) : (empty.performAll calls).Built := Built.empty.performAll calls
  refine ⟨?consistent, ?root, ?nested, ?declared, ?refused, ?unread, ?read, ?literal⟩
  case consistent =>
    intro calls
    exact (built calls).regular.consistent (built calls).inherited_le
  case root =>
    intro calls noChild
    exact (Built.empty.performAll_grows noChild).inherited
  case nested =>
    intro earlier later noChild
    rw [performAll_append, performAll_cons]
    exact ((built earlier).child.performAll_grows noChild).inherits
  case declared =>
    intro calls name className limit v after declared
    have declares := (built calls).regular.declares declared
    exact ⟨declares, declares.grows⟩
  case refused =>
    intro scope name className limit cause after failed
    exact (declare_eq_error.mp failed).1
  case unread =>
    intro scope token cause after failed
    exact readTerm_error failed
  case read =>
    intro scope token term after read
    exact readTerm_eq_ok read
  case literal =>
    intro scope token noun after
    exact readTerm_eq_noun

/-- The calls for a header with the variables `X`, `Y` and one without a name. -/
def header : List Call :=
  [.declare (some "X") "PEOPLE" none, .term "Y.PEOPLE:3".toList, .term "#.ROOMS".toList]

/-- The calls for a subrule, which lowers a limit, fails to declare `X` again and declares `W`. -/
def subrule : List Call :=
  [.term "Y.PEOPLE:2".toList, .declare (some "X") "ROOMS" none, .term "#W.PEOPLE".toList,
    .term "MARTHA".toList]

theorem scopes_stay_consistent_in_subrule :
    (empty.performAll header).inherited = 0 ∧
      Inherits (empty.performAll header) (empty.performAll (header ++ .child :: subrule)) ∧
      (empty.performAll (header ++ .child :: subrule)).Consistent ∧
      (empty.performAll header).declared.toList.map (·.limit) = [none, some 3, none] ∧
      (empty.performAll (header ++ .child :: subrule)).declared.toList.map (·.limit) =
        [none, some 2, none, none] ∧
      (empty.performAll (header ++ .child :: subrule)).locals =
        [{ id := 3, name := some "W", className := "PEOPLE", limit := none }] ∧
      (∃ v after, declare (some "Y") "PEOPLE" (some 2) (empty.performAll header) = .ok v after ∧
        Declares (empty.performAll header) (some "Y") "PEOPLE" (some 2) v after) ∧
      declare (some "X") "ROOMS" none (empty.performAll header) =
        .error (.conflictingClass "X" "PEOPLE" "ROOMS") (empty.performAll header) := by
  rcases scopes_stay_consistent with ⟨consistent, root, nested, declared, refused, _⟩
  refine ⟨root header (by decide), nested header subrule (by decide), consistent _,
    ?_, ?_, ?_, ?again, ?conflict⟩
  · decide +kernel
  · decide +kernel
  · decide +kernel
  case again =>
    have ended : succeeded (declare (some "Y") "PEOPLE" (some 2) (empty.performAll header)) := by
      decide +kernel
    rcases exists_of_succeeded ended with ⟨v, after, ended⟩
    exact ⟨v, after, ended, (declared header _ _ _ _ _ ended).1⟩
  case conflict =>
    have failed := eq_error_of_failure?
      (show failure? (declare (some "X") "ROOMS" none (empty.performAll header)) =
        some (.conflictingClass "X" "PEOPLE" "ROOMS") by decide +kernel)
    have same := refused _ _ _ _ _ _ failed
    rwa [same] at failed

end Scope

end Script

end Fabula
