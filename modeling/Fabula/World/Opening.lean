import Fabula.Text.Pieces
import Fabula.Text.Upper
import Fabula.World

/-!
# Opening conditions

The classes and facts with which a story begins, one line for each class or
subject, a tab after the name:

    CLASS.PEOPLE    GEORGE, MARTHA
    CLASS.ANIMATE   CLASS.PEOPLE, DOG
    GEORGE          LIKES MARTHA, HUNGRY

Lines are loaded from the first to the last, and the clauses of a line from
left to right.  A text that cannot be read leaves the world as it is before
the first line or clause that is at fault.
-/

namespace Fabula.World

open Fabula.Text

/-- What precedes the name of a class. -/
def classMark : List Char :=
  "CLASS.".toList

/-- Whether a line says nothing: it is blank, or a comment that begins with a percent sign. -/
def isSilent (line : List Char) : Bool :=
  (trim line).isEmpty || (trimStart line).head? == some '%'

/-- The nouns that a member of a class line stands for; a class stands for its members. -/
def resolveMember (world : World) (member : List Char) : Except Error (List String) :=
  match classMark.isPrefixOf? member with
  | some className => world.members (String.ofList (trim className))
  | none => .ok [String.ofList member]

/-- The nouns that the members of a class line stand for, in order. -/
def resolveMembers (world : World) (members : List (List Char)) : Except Error (List String) := do
  return (← members.mapM world.resolveMember).flatten

/-- Load the line of a class. -/
def loadClass (line : Nat) (name body : List Char) : EStateM Error World Unit := fun world =>
  if name.isEmpty then
    .error (.malformedOpening line .noClassName (String.ofList body)) world
  else
    match world.resolveMembers (parts ',' body) with
    | .ok members => .ok () (world.defineClass (String.ofList name) members)
    | .error error => .error error world

/-- Load one clause of a line of facts; `body` is all that stands behind the tab. -/
def loadClause (line : Nat) (subject body clause : List Char) : EStateM Error World Unit :=
  let assertWith (relation : List Char) (object : Option (List Char)) : World → World :=
    (·.assertFact
      { subject := String.ofList subject
        relation := String.ofList relation
        object := object.map String.ofList })
  match words clause with
  | [] => throw (.malformedOpening line .noRelation (String.ofList body))
  | [relation] => modify (assertWith relation none)
  | [relation, object] => modify (assertWith relation (some object))
  | _ => throw (.malformedOpening line .clauseShape (String.ofList (trim clause)))

/-- Load a line of facts, its clauses from left to right. -/
def loadFacts (line : Nat) (subject body : List Char) : EStateM Error World Unit :=
  if subject.isEmpty then
    throw (.malformedOpening line .noSubject (String.ofList body))
  else
    (body.splitOn ',').forM (loadClause line subject body)

/-- Load the line with a given number. -/
def loadLine (line : Nat) (raw : List Char) : EStateM Error World Unit :=
  if isSilent raw then
    pure ()
  else
    match cut? ['\t'] (upper raw) with
    | none => throw (.malformedOpening line .noTab (String.ofList raw))
    | some (head, body) =>
        match classMark.isPrefixOf? (trim head) with
        | some className => loadClass line (trim className) body
        | none => loadFacts line (trim head) body

/-- Load a text of opening conditions, its lines from the first to the last. -/
def load (text : String) : EStateM Error World Unit :=
  ((lines text.toList).zipIdx 1).forM fun (raw, line) => loadLine line raw

end Fabula.World
