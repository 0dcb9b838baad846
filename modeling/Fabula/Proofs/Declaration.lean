import Fabula.Proofs.Closed

/-!
# What declarations preserve

Reading changes a scope by declarations and by nothing else.  So whatever every
declaration preserves is preserved by reading, be it a term, an action or a
whole list of sentences.  The invariant that matters is regularity: variables
are numbered by their places, and the table of names has each name with the
number of the one variable that carries it.
-/

namespace Fabula.Script

open Outcome Scope

/-! ## Regular scopes -/

namespace Scope

/-- The table of names has a name with a number if the variable with this number carries it. -/
def Tabled (scope : Scope) : Prop :=
  ∀ (name : String) (id : Nat), scope.byName[name]? = some id ↔
    ∃ v, scope.signature[id]? = some v ∧ v.name = some name

/-- Variables are numbered by their places and found by their names. -/
structure Regular (scope : Scope) : Prop where
  numbered : scope.Numbered
  tabled : scope.Tabled

theorem regular_empty : empty.Regular where
  numbered := numbered_empty
  tabled := by simp [Tabled, signature, empty]

theorem Regular.child {scope : Scope} (regular : scope.Regular) : scope.child.Regular where
  numbered := regular.numbered
  tabled := regular.tabled

/-- A name belongs to one variable. -/
theorem Regular.named {scope : Scope} (regular : scope.Regular) :
    ∀ v ∈ scope.signature, ∀ w ∈ scope.signature, ∀ name,
      v.name = some name → w.name = some name → v = w := by
  intro v inScope w otherInScope name named otherNamed
  have found := regular.numbered.getElem?_id inScope
  have otherFound := regular.numbered.getElem?_id otherInScope
  have tabled := (regular.tabled name v.id).mpr ⟨v, found, named⟩
  rw [(regular.tabled name w.id).mpr ⟨w, otherFound, otherNamed⟩] at tabled
  rw [← Option.some.inj tabled, otherFound] at found
  exact (Option.some.inj found).symm

theorem Regular.byName_eq_some_iff {scope : Scope} (regular : scope.Regular) {name : String}
    {id : Nat} :
    scope.byName[name]? = some id ↔ ∃ v, scope.declared[id]? = some v ∧ v.name = some name := by
  rw [regular.tabled name id]
  constructor
  · rintro ⟨_, listed, named⟩
    rcases getElem?_signature.mp listed with ⟨v, found, rfl⟩
    exact ⟨v, found, named⟩
  · rintro ⟨v, found, named⟩
    exact ⟨v.unlimited, getElem?_signature.mpr ⟨v, found, rfl⟩, named⟩

/-- The table finds every name that a variable carries, and nothing else. -/
theorem Regular.lookup_eq_some_iff {scope : Scope} (regular : scope.Regular) {name : String}
    {v : Variable} :
    scope.lookup name = some v ↔ scope.declared[v.id]? = some v ∧ v.name = some name := by
  rw [Scope.lookup_eq_some_iff]
  constructor
  · rintro ⟨id, tabled, found⟩
    rcases regular.byName_eq_some_iff.mp tabled with ⟨w, otherFound, named⟩
    rw [found] at otherFound
    cases otherFound
    have same : v.id = id := regular.numbered.id_eq found
    exact ⟨same ▸ found, named⟩
  · rintro ⟨found, named⟩
    exact ⟨v.id, regular.byName_eq_some_iff.mpr ⟨v, found, named⟩, found⟩

theorem Regular.name_of_lookup {scope : Scope} (regular : scope.Regular) {name : String}
    {v : Variable} (looked : scope.lookup name = some v) : v.name = some name :=
  (regular.lookup_eq_some_iff.mp looked).2

/-- A name finds its variable, up to the limit. -/
theorem Regular.lookup {scope : Scope} (regular : scope.Regular) {v : Variable}
    (known : v.unlimited ∈ scope.signature) {name : String} (named : v.name = some name) :
    ∃ w, scope.lookup name = some w ∧ w.unlimited = v.unlimited := by
  rcases getElem?_signature.mp (regular.numbered.getElem?_id known) with ⟨w, found, same⟩
  rcases Variable.unlimited_eq_iff.mp same with ⟨sameId, sameName, _⟩
  rw [Variable.unlimited_id, ← sameId] at found
  exact ⟨w, regular.lookup_eq_some_iff.mpr ⟨found, sameName.trans named⟩, same⟩

theorem Regular.ne_name_of_lookup {scope : Scope} (regular : scope.Regular) {name : String}
    (unknown : scope.lookup name = none) {v : Variable} (inScope : v ∈ scope.signature) :
    v.name ≠ some name := by
  rcases List.mem_map.mp inScope with ⟨w, _, rfl⟩
  intro named
  rcases regular.lookup inScope named with ⟨_, looked, _⟩
  rw [unknown] at looked
  cases looked

theorem getElem?_enter (byName : Std.TreeMap String Nat) (v : Variable) (name : String) :
    (enter byName v)[name]? = if v.name = some name then some v.id else byName[name]? := by
  cases named : v.name with
  | none => simp [enter, named]
  | some text => simp [enter, named, Std.TreeMap.getElem?_insert]

theorem Regular.add {scope : Scope} (regular : scope.Regular) {v : Variable}
    (next : v.id = scope.declared.size)
    (new : ∀ name, v.name = some name → scope.lookup name = none) :
    (scope.add v).Regular where
  numbered := regular.numbered.add next
  tabled := by
    intro name id
    have entered :
        (scope.add v).byName[name]? =
          if v.name = some name then some v.id else scope.byName[name]? :=
      getElem?_enter scope.byName v name
    simp only [entered, getElem?_signature_add]
    split
    · rename_i named
      constructor
      · rintro ⟨⟩
        exact ⟨v.unlimited, .inr ⟨next, rfl⟩, named⟩
      · rintro ⟨w, old | ⟨rfl, rfl⟩, sameName⟩
        · exact absurd sameName
            (regular.ne_name_of_lookup (new name named) (List.mem_of_getElem? old))
        · rw [next]
    · rename_i otherName
      rw [regular.tabled name id]
      constructor
      · rintro ⟨w, old, named⟩
        exact ⟨w, .inl old, named⟩
      · rintro ⟨w, old | ⟨_, rfl⟩, named⟩
        · exact ⟨w, old, named⟩
        · exact absurd named otherName

/-- Regularity depends on the signature and the table of names. -/
theorem Regular.congr {scope other : Scope} (regular : scope.Regular)
    (signature : other.signature = scope.signature) (byName : other.byName = scope.byName) :
    other.Regular where
  numbered := by
    rw [Numbered, signature]
    exact regular.numbered
  tabled := by
    rw [Tabled, signature, byName]
    exact regular.tabled

/-- A property of scopes that every declaration preserves. -/
def Lasting (invariant : Scope → Prop) : Prop :=
  ∀ name className limit,
    (Success.preserving invariant).Yields (declare name className limit) fun _ => True

theorem lasting_regular : Lasting Regular := by
  intro name className limit before regular v after declared
  refine ⟨?_, trivial⟩
  rcases declare_cases declared with ⟨new, rfl, rfl⟩ | ⟨text, old, _, looked, _, rfl, rfl⟩
  · apply regular.add rfl
    intro text named
    have same : name = some text := named
    rw [same] at new
    exact new
  · exact regular.congr (signature_lower regular.numbered looked _) rfl

/-- The scopes that there are: declarations and children lead to them from the empty scope. -/
inductive Built : Scope → Prop where
  | empty : Built Scope.empty
  | child {scope : Scope} (built : Built scope) : Built scope.child
  | declare {name : Option String} {className : String} {limit : Option Nat}
      {before after : Scope} {v : Variable} (built : Built before)
      (declared : declare name className limit before = .ok v after) : Built after

theorem Built.regular {scope : Scope} (built : scope.Built) : scope.Regular := by
  induction built with
  | empty => exact regular_empty
  | child _ regular => exact regular.child
  | declare _ declared regular =>
      exact (lasting_regular _ _ _ _ regular _ _ declared).1

end Scope

/-! ## Readers -/

section Lasting

variable {invariant : Scope → Prop}

theorem lift_preserves {α : Type} (computation : Except Error α) :
    (Success.preserving invariant).Yields (liftM computation : Scoped α) fun _ => True := by
  intro before kept value after ended
  rcases lift_eq_ok.mp ended with ⟨_, rfl⟩
  exact ⟨kept, trivial⟩

theorem throw_preserves {α : Type} (cause : Error) :
    (Success.preserving invariant).Yields (throw cause : Scoped α) fun _ => True := by
  intro before kept value after ended
  exact absurd ended throw_ne_ok

variable (lasting : Lasting invariant)

include lasting

theorem readTerm_preserves (token : List Char) :
    (Success.preserving invariant).Yields (readTerm token) fun _ => True := by
  intro before kept term after read
  rcases readTerm_eq_ok read with rfl | ⟨name, className, limit, v, _, declared⟩
  · exact ⟨kept, trivial⟩
  · exact ⟨(lasting name className limit before kept v after declared).1, trivial⟩

theorem readTerm?_preserves (token : Option (List Char)) :
    (Success.preserving invariant).Yields (readTerm? token) fun _ => True := by
  cases token with
  | none => exact Success.pure _ trivial
  | some token =>
      intro before kept term after read
      rcases run_map_eq_ok.mp read with ⟨value, read, _⟩
      exact ⟨(readTerm_preserves lasting token before kept value after read).1, trivial⟩

theorem readAction_preserves (text : List Char) :
    (Success.preserving invariant).Yields (readAction text) fun _ => True := by
  intro before kept action after read
  rcases readAction_parts read with
    ⟨subjectText, _, objectText, subject, _, object, middle, _, readSubject, _, readObject, _, _⟩
  have middleKept :=
    (readTerm_preserves lasting subjectText before kept subject middle readSubject).1
  exact ⟨(readTerm?_preserves lasting objectText middle middleKept object after readObject).1,
    trivial⟩

theorem readGroup_preserves (kind : GroupKind) (body : List Char) :
    (Success.preserving invariant).Yields (readGroup kind body) fun _ => True := by
  cases kind with
  | time => exact lift_preserves _
  | relational =>
      refine Success.bind _ (lift_preserves _) ?_
      rintro ⟨subjectText, relations, objectText⟩ _
      refine Success.bind _ (readTerm_preserves lasting subjectText) ?_
      intro subject _
      refine Success.bind _ (readTerm?_preserves lasting objectText) ?_
      intro object _
      exact Success.bind _ (lift_preserves _) fun _ _ => Success.pure _ trivial

theorem readTokens_preserves (text : List Char) (chain : Partial Condition)
    (tokens : List Token) :
    (Success.preserving invariant).Yields (readTokens text chain tokens) fun _ => True := by
  induction tokens generalizing chain with
  | nil => exact lift_preserves _
  | cons token rest ih =>
      cases token with
      | connective symbol => exact Success.bind _ (lift_preserves _) fun longer _ => ih longer
      | group kind body =>
          refine Success.bind _ (readGroup_preserves lasting kind body) ?_
          intro operand _
          exact Success.bind _ (lift_preserves _) fun longer _ => ih longer
      | bare bare => exact throw_preserves _

theorem readSentences_preserves (text : List Char) :
    (Success.preserving invariant).Yields (readSentences text) fun _ => True := by
  refine Success.bind _ (lift_preserves _) ?_
  intro tokens _
  exact Success.bind _ (readTokens_preserves lasting text _ tokens) fun _ _ =>
    Success.pure _ trivial

end Lasting

end Fabula.Script
