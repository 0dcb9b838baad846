import Fabula.Rule
import Fabula.Script.Sentence
import Fabula.Text.Decimal
import Fabula.Text.Upper

/-!
# Reading rules

Rules texts and lexicons are written line by line, with blank lines and
comments between the lines that count.  A rules text is read in a normal
form: one line of capital letters, with single spaces, in which every rule
begins with a keyword.  The definition of a rule is a list of actions, separated
by commas, and then its subrules, each after a semicolon:

    X.PEOPLE LIKES Y.PEOPLE:1, Y ADMIRES X;
    0.4, 0: (X LIKES #W.PEOPLE) & (#W LIKES Y);
    -10, 0: (X HATES Y) / [T > 2200]

A subrule has two increments, a colon, and a sentence list.
-/

namespace Fabula.Script

open Fabula.Text

/-! ## The layout of texts -/

/-- Whether a trimmed line counts: it is not empty and not a comment. -/
def isContent (line : List Char) : Bool :=
  !line.isEmpty && line.head? != some '%'

/-- The lines of a text that count, trimmed and in capital letters, numbered from one. -/
def contentLines (text : List Char) : List (Nat × List Char) :=
  ((lines text).zipIdx 1).filterMap fun (line, number) =>
    if isContent (trim line) then some (number, upper (trim line)) else none

/--
How a character is spelt in the normal form: emphasis is dropped, and the
signs for inequality and for an arrow are spelt out.
-/
def spellChar : Char → List Char
  | '*' => []
  | '≠' => ['!', '=']
  | '←' => ['<', '-']
  | c => [c]

/-- The normal form of a rules text. -/
def normalize (text : List Char) : List Char :=
  let joined := join [' '] ((contentLines text).map Prod.snd)
  join [' '] (words (joined.flatMap spellChar))

/-- The keyword with which a rule begins. -/
def ruleMark : List Char :=
  "$RULE".toList

/-- The rule definitions of a normal form, without the keyword, in order. -/
def definitions (normal : List Char) : List (List Char) :=
  ((pieces ruleMark normal).map trim).filter (!·.isEmpty)

/-! ## Definitions -/

/-- The error for a malformed action. -/
def malformedAction (text : List Char) (flaw : Flaw) : Error :=
  .malformed .action (String.ofList text) flaw

/-- The error for a malformed subrule. -/
def malformedSubrule (text : List Char) (flaw : Flaw) : Error :=
  .malformed .subrule (String.ofList text) flaw

/-- The subject, the relation and the object of an action. -/
def splitAction (text : List Char) : Except Error (List Char × List Char × Option (List Char)) :=
  match words text with
  | [subject, relation] => .ok (subject, relation, none)
  | [subject, relation, object] => .ok (subject, relation, some object)
  | _ => .error (malformedAction text .actionShape)

/-- Read an action: the subject, the relation, then the object. -/
def readAction (text : List Char) : Scoped Action := do
  let (subject, relation, object) ← splitAction text
  let subject ← readTerm subject
  let directed ← readRelation relation
  let object ← readTerm? object
  if directed.relation.duration.isSome then
    throw (malformedAction text .durationInAction)
  match directed.statement? subject object with
  | some statement => return { statement, text := String.ofList text }
  | none => throw (malformedAction text .leftWithoutObject)

/-- Read an increment of the subrule `definition`: a finite number. -/
def readIncrement (definition increment : List Char) : Except Error Float :=
  let increment := trim increment
  let refused := Except.error (malformedSubrule definition (.notANumber (String.ofList increment)))
  match Decimal.read? increment with
  | none => refused
  | some decimal => if decimal.toFloat.isFinite then .ok decimal.toFloat else refused

/-- Read a subrule in a child of the scope of its rule: the sentences, then the increments. -/
def readSubrule (definition : List Char) (scope : Scope) : Except Error Subrule := do
  let some (increments, sentences) := cut? [':'] definition
    | throw (malformedSubrule definition .noIncrements)
  let some (whenTrue, whenFalse) := cut? [','] increments
    | throw (malformedSubrule definition .incrementShape)
  let (condition, inner) ← (readSentences sentences).runFrom scope.child
  let whenTrue ← readIncrement definition whenTrue
  let whenFalse ← readIncrement definition whenFalse
  return {
    whenTrue
    whenFalse
    condition
    locals := inner.locals
    text := String.ofList definition }

/-- Read a rule definition: the actions from left to right, then each subrule on its own. -/
def readRule (definition : List Char) : Except Error Rule := do
  let segments := (definition.splitOn ';').map trim
  let (actions, scope) ←
    ((parts ',' (segments.headD [])).mapM readAction).runFrom Scope.empty
  if actions.isEmpty then
    throw (malformedAction definition .noActions)
  let subrules ← (segments.tail.filter (!·.isEmpty)).mapM (readSubrule · scope)
  return {
    actions
    subrules
    parameters := scope.declared.toList
    text := String.ofList definition }

/-- Read a rules text, its definitions in order. -/
def readRules (text : String) : Except Error (List Rule) :=
  (definitions (normalize text.toList)).mapM readRule

end Fabula.Script
