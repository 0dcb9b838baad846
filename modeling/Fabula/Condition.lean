import Fabula.Error
import Fabula.Text.Numeral
import Fabula.World
import Std.Data.TreeMap

/-!
# Conditions

A binding gives nouns to variables.  Under a binding a term stands for a noun,
and a statement over terms becomes a statement over nouns.

A condition is built from sentences, which ask for a fact, and from time
sentences, which compare the clock, by conjunction and disjunction.  Truth under
a binding is evaluated from left to right and stops when the answer is known; a
variable without a noun is an error only if it is reached.
-/

namespace Fabula

/-! ## Bindings -/

/-- Nouns under the identifiers of variables. -/
abbrev Binding := Std.TreeMap Nat String

namespace Binding

/-- Give a noun to a variable, in the place of an earlier one. -/
def bind (binding : Binding) (id : Nat) (noun : String) : Binding :=
  binding.insert id noun

/-- Whether a variable has a noun. -/
def isBound (binding : Binding) (id : Nat) : Bool :=
  binding.contains id

@[simp]
theorem getElem?_bind (binding : Binding) (id other : Nat) (noun : String) :
    (binding.bind id noun)[other]? = if other = id then some noun else binding[other]? := by
  simp [bind, Std.TreeMap.getElem?_insert, eq_comm (a := other) (b := id)]

/-- The noun that a term stands for. -/
def resolve (binding : Binding) : Term → Except Error String
  | .noun name => .ok name
  | .var v =>
      match binding[v.id]? with
      | some noun => .ok noun
      | none => .error (.unbound v)

/-- The noun that an optional term stands for. -/
def resolve? (binding : Binding) : Option Term → Except Error (Option String)
  | none => .ok none
  | some term => (binding.resolve term).map some

/-- A statement over terms as a statement over nouns; the subject is resolved first. -/
def ground (binding : Binding) (statement : Statement Term) :
    Except Error (Statement String) := do
  let subject ← binding.resolve statement.subject
  let object ← binding.resolve? statement.object
  return { subject, relation := statement.relation, object }

/-- The text of a binding: identifiers and nouns in ascending order of the identifiers. -/
def render (binding : Binding) : String :=
  "[" ++ ", ".intercalate (binding.toList.map fun (id, noun) => toString id ++ "=" ++ noun) ++ "]"

end Binding

/-! ## Sentences and conditions -/

/-- A statement over terms that is to be true of the world. -/
abbrev Sentence := Statement Term

/-- The text of a sentence. -/
def Sentence.render (sentence : Sentence) : String :=
  "(" ++ sentence.renderWith Term.render ++ ")"

/-- A comparison of the clock reading with a time. -/
structure TimeSentence where
  comparison : Comparison
  time : Nat
deriving DecidableEq, Repr

/-- The text of a time sentence. -/
def TimeSentence.render (sentence : TimeSentence) : String :=
  "[T " ++ sentence.comparison.clockSymbol ++ " " ++ Text.padded 4 sentence.time ++ "]"

/-- Whether the clock compares as a time sentence says. -/
def TimeSentence.holds (sentence : TimeSentence) (world : World) : Bool :=
  sentence.comparison.holds world.clock.time sentence.time

/-- The two connectives; `and` binds tighter. -/
inductive Connective where
  | and
  | or
deriving DecidableEq, Repr

/-- The symbol of a connective. -/
def Connective.symbol : Connective → Char
  | and => '&'
  | or => '/'

/-- Texts in braces, with a connective between them. -/
def renderGroup (connective : Connective) (texts : List String) : String :=
  "\x7b" ++ (" " ++ connective.symbol.toString ++ " ").intercalate texts ++ "\x7d"

/-- A condition on a world and a binding. -/
inductive Condition where
  | sentence (statement : Sentence)
  | time (clause : TimeSentence)
  | all (operands : List Condition)
  | any (operands : List Condition)
deriving Repr

namespace Condition

mutual

/-- Whether a condition is true of a world under a binding. -/
def evaluate (world : World) (binding : Binding) : Condition → Except Error Bool
  | .sentence statement => (binding.ground statement).map world.satisfies
  | .time clause => .ok (clause.holds world)
  | .all operands => evaluateAll world binding operands
  | .any operands => evaluateAny world binding operands

/-- Whether all operands are true, up to the first that is not. -/
def evaluateAll (world : World) (binding : Binding) : List Condition → Except Error Bool
  | [] => .ok true
  | operand :: rest =>
      match operand.evaluate world binding with
      | .ok true => evaluateAll world binding rest
      | .ok false => .ok false
      | .error error => .error error

/-- Whether some operand is true, up to the first that is. -/
def evaluateAny (world : World) (binding : Binding) : List Condition → Except Error Bool
  | [] => .ok false
  | operand :: rest =>
      match operand.evaluate world binding with
      | .ok true => .ok true
      | .ok false => evaluateAny world binding rest
      | .error error => .error error

end

mutual

/-- The sentences of a condition, from left to right. -/
def sentences : Condition → List Sentence
  | .sentence statement => [statement]
  | .time _ => []
  | .all operands => sentencesOf operands
  | .any operands => sentencesOf operands

/-- The sentences of several conditions, from left to right. -/
def sentencesOf : List Condition → List Sentence
  | [] => []
  | operand :: rest => operand.sentences ++ sentencesOf rest

end

mutual

/-- The text of a condition; conjunctions and disjunctions stand in braces. -/
def render : Condition → String
  | .sentence statement => statement.render
  | .time clause => clause.render
  | .all operands => renderGroup .and (renderAll operands)
  | .any operands => renderGroup .or (renderAll operands)

/-- The texts of several conditions. -/
def renderAll : List Condition → List String
  | [] => []
  | operand :: rest => operand.render :: renderAll rest

end

/-- The conjunction of operands; a single operand is its own conjunction. -/
def conjunction : List Condition → Condition
  | [operand] => operand
  | operands => .all operands

/-- The disjunction of operands; a single operand is its own disjunction. -/
def disjunction : List Condition → Condition
  | [operand] => operand
  | operands => .any operands

end Condition

end Fabula
