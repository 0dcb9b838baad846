import Fabula.Chronicle
import Fabula.Clock

/-!
# The world

The state on which rules act: the network of facts, the noun classes, the
clock, the effects that wait for the next tick, and the chronicle.

Facts are never changed.  Asserting a fact that holds already puts a new fact
in its place, with a new number and a duration that starts over.
-/

namespace Fabula

/-! ## Tables of names -/

/-- Names with their entries; a name may have no entries. -/
abbrev NameTable := Std.TreeMap String (List String)

namespace NameTable

/-- Add entries after those that a name has. -/
def extend (table : NameTable) (name : String) (entries : List String) : NameTable :=
  table.insert name (table.getD name [] ++ entries)

@[simp]
theorem getElem?_extend (table : NameTable) (name other : String) (entries : List String) :
    (table.extend name entries)[other]? =
      if other = name then some (table.getD name [] ++ entries) else table[other]? := by
  simp [extend, Std.TreeMap.getElem?_insert, eq_comm (a := other) (b := name)]

end NameTable

/-! ## Worlds -/

/-- The state of a story world. -/
structure World where
  clock : Clock
  network : Network
  classes : NameTable
  pending : Array Effect
  nextId : Nat
  chronicle : Chronicle
deriving Repr

/-- How many facts a round of effects asserted and removed. -/
structure Summary where
  asserted : Nat
  retracted : Nat
deriving DecidableEq, Repr

namespace World

/-- A world without facts and classes, its clock set to a time of day. -/
def start (time : Nat) : Except Error World :=
  (Clock.set time).map fun clock =>
    { clock
      network := .empty
      classes := ∅
      pending := #[]
      nextId := 0
      chronicle := ∅ }

/-! ## Noun classes -/

/-- Define a class, or add members to a class that exists. -/
def defineClass (world : World) (name : String) (members : List String) : World :=
  { world with classes := world.classes.extend name members }

/-- The members of a class, in the order of their definition. -/
def members (world : World) (className : String) : Except Error (List String) :=
  match world.classes[className]? with
  | some members => .ok members
  | none => .error (.unknownClass className)

theorem members_defineClass (world : World) (name other : String) (nouns : List String) :
    (world.defineClass name nouns).members other =
      if other = name then .ok (world.classes.getD name [] ++ nouns)
      else world.members other := by
  unfold members defineClass
  rw [NameTable.getElem?_extend]
  by_cases same : other = name <;> simp [same]

/-! ## Facts -/

/-- The fact that asserting a key now would make. -/
def newFact (world : World) (key : Fact.Key) : Fact :=
  { id := world.nextId
    key
    assertedAt := world.clock.time
    assertedElapsed := world.clock.elapsed }

/-- Assert a fact, in the place of the one with the same key. -/
def assertFact (world : World) (key : Fact.Key) : World :=
  { world with
    network := world.network.insert (world.newFact key)
    nextId := world.nextId + 1 }

/-- Remove the fact with a key, if there is one. -/
def retractFact (world : World) (key : Fact.Key) : World :=
  { world with network := world.network.erase key }

/-- The fact with a key. -/
def get? (world : World) (key : Fact.Key) : Option Fact :=
  world.network.get? key

@[simp]
theorem get?_retractFact (world : World) (key other : Fact.Key) :
    (world.retractFact key).get? other = if other = key then none else world.get? other :=
  Network.get?_erase world.network key other

@[simp]
theorem get?_assertFact (world : World) (key other : Fact.Key) :
    (world.assertFact key).get? other =
      if other = key then some (world.newFact key) else world.get? other :=
  Network.get?_insert world.network (world.newFact key) other

/-- Whether the fact of a statement holds, for as long as the relation demands. -/
def qualifies (world : World) (statement : Statement String) : Bool :=
  match world.get? statement.key with
  | none => false
  | some fact =>
      match statement.relation.duration with
      | none => true
      | some duration => duration.admits (fact.age world.clock.elapsed)

/-- Whether a statement is true of the world; a negated relation asks for the opposite. -/
def satisfies (world : World) (statement : Statement String) : Bool :=
  world.qualifies statement != statement.relation.negated

/-! ## Effects -/

/-- Let effects wait for the next tick, behind those that wait already. -/
def enqueue (world : World) (effects : List Effect) : World :=
  { world with pending := world.pending ++ effects }

/--
Apply one effect: remove the fact with its key, and unless the relation is
negated, assert it anew.
-/
def applyEffect (world : World) (effect : Effect) : World :=
  if effect.relation.negated then
    world.retractFact effect.key
  else
    (world.retractFact effect.key).assertFact effect.key

/-- What one effect adds to the summary of a round. -/
def effectSummary (world : World) (effect : Effect) (summary : Summary) : Summary :=
  if effect.relation.negated then
    if (world.get? effect.key).isSome then
      { summary with retracted := summary.retracted + 1 }
    else
      summary
  else
    { summary with asserted := summary.asserted + 1 }

/-- Apply effects one after another. -/
def applyEffects (world : World) (summary : Summary) : List Effect → World × Summary
  | [] => (world, summary)
  | effect :: rest =>
      applyEffects (world.applyEffect effect) (world.effectSummary effect summary) rest

theorem applyEffects_append (world : World) (summary : Summary) (first others : List Effect) :
    world.applyEffects summary (first ++ others) =
      (world.applyEffects summary first).1.applyEffects (world.applyEffects summary first).2
        others := by
  induction first generalizing world summary with
  | nil => rfl
  | cons effect rest ih => exact ih _ _

/-- Apply all effects that wait, in order; afterwards none waits. -/
def applyPending (world : World) : World × Summary :=
  applyEffects { world with pending := #[] } { asserted := 0, retracted := 0 } world.pending.toList

/-! ## Time -/

/-- Let some minutes pass. -/
def advance (world : World) (minutes : Nat) : World :=
  { world with clock := world.clock.advance minutes }

/-- File the network under the present clock reading. -/
def snapshot (world : World) : World :=
  { world with chronicle := world.chronicle.insert world.clock.time world.network.facts }

/-- What each snapshot adds to the one before. -/
def frames (world : World) : List Frame :=
  world.chronicle.frames

end World

end Fabula
