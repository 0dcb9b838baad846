import Fabula.Statement
import Std.Data.TreeMap

/-!
# The network

A fact holds of a subject, a relation and perhaps an object.  These three are
its key; besides, it knows when it was asserted.  The network has the facts that
hold, each filed under its key.  They can be listed in the order of their keys,
or in the order in which they were asserted.
-/

namespace Fabula

/-! ## Facts -/

/-- What a fact says.  The network has at most one fact for a key. -/
structure Fact.Key where
  subject : String
  relation : String
  object : Option String
deriving DecidableEq, Repr

namespace Fact.Key

/-- Keys are ordered by subject, then by relation, then by object; no object comes first. -/
instance : Ord Fact.Key where
  compare left right :=
    (compare left.subject right.subject).then
      ((compare left.relation right.relation).then (compare left.object right.object))

theorem compare_eq (left right : Fact.Key) :
    compare left right =
      (compare left.subject right.subject).then
        ((compare left.relation right.relation).then (compare left.object right.object)) :=
  rfl

instance : Std.TransOrd Fact.Key :=
  inferInstanceAs (Std.TransCmp (compareLex (compareOn subject)
    (compareLex (compareOn relation) (compareOn object))))

instance : Std.LawfulEqOrd Fact.Key where
  eq_of_compare {left right} same := by
    simp only [compare_eq, Ordering.then_eq_eq, Std.LawfulEqCmp.compare_eq_iff_eq] at same
    cases left
    cases right
    simpa using same

end Fact.Key

/-- A fact with its number, and the clock reading and minutes passed when it was asserted. -/
structure Fact where
  id : Nat
  key : Fact.Key
  assertedAt : Nat
  assertedElapsed : Nat
deriving DecidableEq, Repr

/-- The text of a key. -/
def Fact.Key.render (key : Fact.Key) : String :=
  renderTriple key.subject key.relation key.object

/-- The text of a fact. -/
def Fact.render (fact : Fact) : String :=
  fact.key.render

/-- The minutes for which a fact has held when `elapsed` minutes have passed. -/
def Fact.age (fact : Fact) (elapsed : Nat) : Nat :=
  elapsed - fact.assertedElapsed

/-- Whether a fact was asserted before any time passed. -/
def Fact.isInitial (fact : Fact) : Bool :=
  fact.assertedElapsed == 0

/-- The key of the fact that an effect asserts or removes. -/
def Statement.key (effect : Effect) : Fact.Key :=
  { subject := effect.subject, relation := effect.relation.name, object := effect.object }

/-! ## Facts under their keys -/

/-- The facts that hold; no two have one key. -/
structure Network where
  byKey : Std.TreeMap Fact.Key Fact
deriving Repr

namespace Network

/-- The network without facts. -/
def empty : Network := ⟨∅⟩

/-- The fact with a key. -/
def get? (network : Network) (key : Fact.Key) : Option Fact :=
  network.byKey[key]?

/-- The network without the fact with a key. -/
def erase (network : Network) (key : Fact.Key) : Network :=
  ⟨network.byKey.erase key⟩

/-- The network with a fact in the place of the one with its key. -/
def insert (network : Network) (fact : Fact) : Network :=
  ⟨network.byKey.insert fact.key fact⟩

@[simp]
theorem get?_empty (key : Fact.Key) : empty.get? key = none := by
  simp [empty, get?]

@[simp]
theorem get?_erase (network : Network) (key other : Fact.Key) :
    (network.erase key).get? other = if other = key then none else network.get? other := by
  simp [erase, get?, Std.TreeMap.getElem?_erase, eq_comm (a := other) (b := key)]

@[simp]
theorem get?_insert (network : Network) (fact : Fact) (key : Fact.Key) :
    (network.insert fact).get? key = if key = fact.key then some fact else network.get? key := by
  simp [insert, get?, Std.TreeMap.getElem?_insert, eq_comm (a := key) (b := fact.key)]

/-- The number of facts. -/
def size (network : Network) : Nat :=
  network.byKey.size

/-- The facts in the order of their keys. -/
def inKeyOrder (network : Network) : List Fact :=
  network.byKey.values

/-- The facts in the order in which they were asserted. -/
def facts (network : Network) : List Fact :=
  network.inKeyOrder.mergeSort fun left right => left.id ≤ right.id

end Network

end Fabula
