import Fabula.Error
import Fabula.Text.Numeral
import Fabula.Text.Pieces
import Std.Data.TreeMap

/-!
# Scopes and terms

A scope holds the variables that have been declared so far, numbered in the
order of declaration, and a table from their names to these numbers.  The
condition of a subrule is read in a child of the scope of its rule: what it
declares is numbered after the variables of the rule and is gone when the child
is dropped.

Terms are read in a scope.  A term is `X` or `Y`, which are variables; `X.CLASS`,
`Y.CLASS` or `Y.CLASS:LIMIT`, which declare them; `#NAME`, `#NAME.CLASS` or
`#.CLASS`, for variables with other names and without a name; or else a noun.
-/

namespace Fabula.Script

open Fabula.Text

/-! ## Scopes -/

/--
The variables declared so far, the numbers of those that have names, and how
many variables come from the parent.
-/
structure Scope where
  declared : Array Variable
  byName : Std.TreeMap String Nat
  inherited : Nat
deriving Repr

/--
A computation that declares variables and may fail; what it declared before it
failed remains.
-/
abbrev Scoped := EStateM Error Scope

/-- A result that depends on no scope leaves the scope alone. -/
instance : MonadLift (Except Error) Scoped where
  monadLift
    | .ok value => fun scope => .ok value scope
    | .error error => fun scope => .error error scope

/-- The value of a computation that begins in a scope, with the scope in which it ends. -/
def Scoped.runFrom {α : Type} (computation : Scoped α) (scope : Scope) :
    Except Error (α × Scope) :=
  match computation scope with
  | .ok value final => .ok (value, final)
  | .error error _ => .error error

/-- The smaller of two limits; no limit is larger than every limit. -/
def minLimit : Option Nat → Option Nat → Option Nat
  | some left, some right => some (min left right)
  | none, limit => limit
  | limit, none => limit

namespace Scope

/-- The scope without variables. -/
def empty : Scope :=
  { declared := #[], byName := ∅, inherited := 0 }

/-- The scope of a subrule, which begins with all variables declared so far. -/
def child (scope : Scope) : Scope :=
  { scope with inherited := scope.declared.size }

/-- The variable with a name. -/
def lookup (scope : Scope) (name : String) : Option Variable :=
  scope.byName[name]?.bind (scope.declared[·]?)

/-- The variable with a name, which must have been declared. -/
def resolve (scope : Scope) (name : String) : Except Error Variable :=
  match scope.lookup name with
  | some v => .ok v
  | none => .error (.undeclared name)

/-- The variables that were not inherited. -/
def locals (scope : Scope) : List Variable :=
  scope.declared.toList.drop scope.inherited

/-- A table of names with that of a variable, if it has one. -/
def enter (byName : Std.TreeMap String Nat) (v : Variable) : Std.TreeMap String Nat :=
  match v.name with
  | some name => byName.insert name v.id
  | none => byName

/-- A scope with a further variable. -/
def add (scope : Scope) (v : Variable) : Scope :=
  { scope with
    declared := scope.declared.push v
    byName := enter scope.byName v }

/-- A scope in which the variable with the identifier of `v` is `v`. -/
def replace (scope : Scope) (v : Variable) : Scope :=
  { scope with declared := scope.declared.setIfInBounds v.id v }

/-- The variable that a declaration without an earlier one makes. -/
def newVariable (scope : Scope) (name : Option String) (className : String)
    (limit : Option Nat) : Variable :=
  { id := scope.declared.size, name, className, limit }

/--
Declare a variable.  A name that has been declared keeps its variable, if the
class is the same; of two limits the smaller one counts.  A failure declares
nothing.
-/
def declare (name : Option String) (className : String) (limit : Option Nat) :
    Scoped Variable := fun scope =>
  match name.bind scope.lookup with
  | none =>
      let v := scope.newVariable name className limit
      .ok v (scope.add v)
  | some v =>
      if v.className == className then
        let v := { v with limit := minLimit v.limit limit }
        .ok v (scope.replace v)
      else
        .error (.conflictingClass (name.getD "") v.className className) scope

end Scope

/-! ## Reading terms -/

/-- The error for a malformed variable. -/
def malformedVariable (token : List Char) (flaw : Flaw) : Error :=
  .malformed .variableToken (String.ofList token) flaw

/-- The variable with a name, as a term. -/
def readName (name : List Char) : Scoped Term := do
  let v ← (← get).resolve (String.ofList name)
  return .var v

/-- Declare a variable that is written as `token`, as a term. -/
def readDeclaration (token : List Char) (name : Option String) (className : List Char)
    (limit : Option Nat) : Scoped Term :=
  if className.isEmpty then
    throw (malformedVariable token .noClassName)
  else do
    return .var (← Scope.declare name (String.ofList className) limit)

/-- Read a limit, which must be positive. -/
def readLimit (token limit : List Char) : Except Error Nat :=
  match readNat? wordBound limit with
  | some (limit + 1) => .ok (limit + 1)
  | _ => .error (malformedVariable token .limitNotPositive)

/-- Read a term, and declare it if a class stands with it. -/
def readTerm (token : List Char) : Scoped Term :=
  match token with
  | ['X'] | ['Y'] => readName token
  | 'X' :: '.' :: className =>
      if className.contains ':' then
        throw (malformedVariable token .limitOnSubject)
      else
        readDeclaration token (some "X") className none
  | 'Y' :: '.' :: rest =>
      match cut? [':'] rest with
      | none => readDeclaration token (some "Y") rest none
      | some (className, limit) => do
          let limit ← readLimit token limit
          readDeclaration token (some "Y") className (some limit)
  | '#' :: rest =>
      match cut? ['.'] rest with
      | some (name, className) =>
          let name := if name.isEmpty then none else some (String.ofList name)
          readDeclaration token name className none
      | none =>
          if rest.isEmpty then
            throw (malformedVariable token .anonymousWithoutClass)
          else
            readName rest
  | _ => pure (.noun (String.ofList token))

/-- Read a term if there is one. -/
def readTerm? : Option (List Char) → Scoped (Option Term)
  | none => pure none
  | some token => some <$> readTerm token

end Fabula.Script
