/-!
# Statements

A statement relates a subject to an object, or says something of a subject
alone.  Over nouns it is an effect on the network; over terms, which are nouns or
variables that stand for them, it is an action or a sentence of a rule.

In a condition a negated relation asks for the absence of a fact; in an effect
it removes one.  A relation of a condition may also constrain for how long a
fact has held, by a comparison with a number of minutes.  The same four
comparisons compare a clock reading with a time; the two uses write equality
differently.
-/

namespace Fabula

/-! ## Comparisons -/

/-- A comparison of two numbers. -/
inductive Comparison where
  | equal
  | notEqual
  | less
  | greater
deriving DecidableEq, Repr

namespace Comparison

/-- Whether `left` compares to `right` as stated. -/
def holds : Comparison → (left right : Nat) → Bool
  | equal, left, right => left == right
  | notEqual, left, right => left != right
  | less, left, right => left < right
  | greater, left, right => right < left

/-- How a comparison is written between the clock and a time. -/
def clockSymbol : Comparison → String
  | equal => "=="
  | notEqual => "!="
  | less => "<"
  | greater => ">"

/-- How a comparison is written between a relation and a number of minutes. -/
def durationSymbol : Comparison → String
  | equal => "="
  | notEqual => "!="
  | less => "<"
  | greater => ">"

/--
The comparisons in the order in which a relation is searched for them.  The
longer symbol comes before the one it ends in.
-/
def searchOrder : List Comparison :=
  [notEqual, equal, less, greater]

/-- The comparison that a symbol stands for beside the clock. -/
def ofClockSymbol? (symbol : String) : Option Comparison :=
  searchOrder.find? fun comparison => comparison.clockSymbol == symbol

/-- The comparison that a symbol stands for beside a relation. -/
def ofDurationSymbol? (symbol : String) : Option Comparison :=
  searchOrder.find? fun comparison => comparison.durationSymbol == symbol

end Comparison

/-! ## Relations -/

/-- A constraint on the number of minutes for which a fact has held. -/
structure Duration where
  comparison : Comparison
  minutes : Nat
deriving DecidableEq, Repr

/-- A named relation, possibly negated, possibly with a constraint on its duration. -/
structure Relation where
  name : String
  negated : Bool
  duration : Option Duration
deriving DecidableEq, Repr

/-- Whether a fact of this age meets the constraint. -/
def Duration.admits (duration : Duration) (age : Nat) : Bool :=
  duration.comparison.holds age duration.minutes

/-- The text of a constraint: its symbol, then its minutes. -/
def Duration.render (duration : Duration) : String :=
  duration.comparison.durationSymbol ++ toString duration.minutes

/-- The text of a relation: the negation mark, the name, the constraint. -/
def Relation.render (relation : Relation) : String :=
  (if relation.negated then "!=" else "") ++ relation.name ++
    (relation.duration.map Duration.render).getD ""

/-- A relation that is not negated and puts no constraint on duration. -/
def Relation.plain (name : String) : Relation :=
  { name, negated := false, duration := none }

/-! ## Statements -/

/-- A subject, a relation and perhaps an object. -/
structure Statement (α : Type) where
  subject : α
  relation : Relation
  object : Option α
deriving DecidableEq, Repr

/-- A change to the network that waits for the next tick. -/
abbrev Effect := Statement String

/-- A subject, a relation name and perhaps an object, separated by spaces. -/
def renderTriple (subject relation : String) : Option String → String
  | some object => subject ++ " " ++ relation ++ " " ++ object
  | none => subject ++ " " ++ relation

namespace Statement

variable {α : Type}

/-- The text of a statement whose parts are written by `render`. -/
def renderWith (render : α → String) (statement : Statement α) : String :=
  renderTriple (render statement.subject) statement.relation.render (statement.object.map render)

/-- The subject, then the object. -/
def parts (statement : Statement α) : List α :=
  statement.subject :: statement.object.toList

end Statement

/-- The text of an effect. -/
def Effect.render (effect : Effect) : String :=
  effect.renderWith id

/-! ## Terms -/

/--
A variable that ranges over a class.  Its identifier numbers it among the
variables of a rule; a limit bounds how often the rule may fire in one test.
Anonymous variables have no name.
-/
structure Variable where
  id : Nat
  name : Option String
  className : String
  limit : Option Nat
deriving DecidableEq, Repr

/-- The subject or the object of a statement. -/
inductive Term where
  | var (v : Variable)
  | noun (name : String)
deriving DecidableEq, Repr

/-- The text of a variable: its name, its class and its limit. -/
def Variable.render (v : Variable) : String :=
  v.name.getD "#" ++ "." ++ v.className ++
    match v.limit with
    | some limit => ":" ++ toString limit
    | none => ""

namespace Term

/-- The text of a term. -/
def render : Term → String
  | var v =>
      match v.name with
      | some name => name
      | none => "#." ++ v.className
  | noun name => name

/-- The variable that a term is, if it is one. -/
def asVariable : Term → Option Variable
  | var v => some v
  | noun _ => none

/-- Whether two terms share a slot of a binding: one variable, or one noun. -/
def sameSlot : Term → Term → Bool
  | var left, var right => left.id == right.id
  | noun left, noun right => left == right
  | _, _ => false

end Term

end Fabula
