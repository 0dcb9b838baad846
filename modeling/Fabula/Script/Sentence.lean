import Fabula.Script.Chain
import Fabula.Script.Scope
import Fabula.Script.Token

/-!
# Reading relations and sentence lists

A relation is written `NAME`, possibly with a duration behind it, as in
`NAME>30`; a negation mark `!=` and an arrow `<-` may stand before it, in this
order.  The arrow lets subject and object change places.

A sentence list is a chain of groups.  A time group is itself a chain of time
sentences, and a relational group a chain of relations between one subject
and one object.
-/

namespace Fabula.Script

open Fabula.Text

/-! ## Relations -/

/-- A relation as it is written: with or without the arrow that exchanges its sides. -/
structure DirectedRelation where
  relation : Relation
  leftDirected : Bool
deriving DecidableEq, Repr

/-- Whether a mark stands at the beginning of a text, and what follows it. -/
def readMark (mark text : List Char) : Bool × List Char :=
  match mark.isPrefixOf? text with
  | some rest => (true, rest)
  | none => (false, text)

/-- Cut a text at the first comparison, in the order of search, whose symbol occurs in it. -/
def cutDuration? (text : List Char) : List Comparison → Option (List Char × Comparison × List Char)
  | [] => none
  | comparison :: rest =>
      match cut? comparison.durationSymbol.toList text with
      | some (name, value) => some (name, comparison, value)
      | none => cutDuration? text rest

/-- Read a name with an optional duration; `token` is the whole relation as it is written. -/
def readDuration (token text : List Char) : Except Error (List Char × Option Duration) :=
  match cutDuration? text Comparison.searchOrder with
  | none => .ok (text, none)
  | some (name, comparison, value) =>
      if value.isEmpty then
        .error (.missingDuration (String.ofList token))
      else
        match readNat? wordBound value with
        | some minutes => .ok (name, some { comparison, minutes })
        | none =>
            .error (.malformed .relation (String.ofList token)
              (.durationValue (String.ofList value)))

/-- Read a relation. -/
def readRelation (token : List Char) : Except Error DirectedRelation := do
  let (negated, rest) := readMark ['!', '='] token
  let (leftDirected, rest) := readMark ['<', '-'] rest
  let (name, duration) ← readDuration token rest
  if name.isEmpty then
    throw (.malformed .relation (String.ofList token) .noRelationName)
  return { relation := { name := String.ofList name, negated, duration }, leftDirected }

/--
The statement of a subject, a relation as it is written, and an object.  An
arrow exchanges subject and object, and needs an object for this.
-/
def DirectedRelation.statement? {α : Type} (directed : DirectedRelation) (subject : α)
    (object : Option α) : Option (Statement α) :=
  match directed.leftDirected, object with
  | false, object => some { subject, relation := directed.relation, object }
  | true, some object =>
      some { subject := object, relation := directed.relation, object := some subject }
  | true, none => none

/-! ## Sentence lists -/

/-- The error for a malformed sentence. -/
def malformedSentence (text : List Char) (flaw : Flaw) : Error :=
  .malformed .sentence (String.ofList text) flaw

/-- A result whose flaw is a flaw of the sentence `text`. -/
def flawIn {α : Type} (text : List Char) : Except Flaw α → Except Error α
  | .ok value => .ok value
  | .error flaw => .error (malformedSentence text flaw)

/-- Read a time sentence: `T`, a comparison, and a time. -/
def readTimeSentence (text : List Char) : Except Error TimeSentence :=
  match words text with
  | [clock, symbol, time] =>
      if clock != ['T'] then
        .error (malformedSentence text .timeSubject)
      else
        match Comparison.ofClockSymbol? (String.ofList symbol) with
        | none => .error (malformedSentence text (.timeOperator (String.ofList symbol)))
        | some comparison =>
            match readNat? wordBound time with
            | some time => .ok { comparison, time }
            | none => .error (malformedSentence text (.timeValue (String.ofList time)))
  | _ => .error (malformedSentence text .timeShape)

/--
Read pieces as a chain that goes on from a partial one.  `readOperand` reads
what stands between connectives, and `body` is the text that the pieces make.
-/
def readPieces {α : Type} (body : List Char) (readOperand : List Char → Except Error α) :
    Partial α → List Piece → Except Error (Chain α)
  | chain, [] => flawIn body chain.finish
  | chain, .connective connective :: rest => do
      let chain ← flawIn body (chain.connective connective)
      readPieces body readOperand chain rest
  | chain, .text text :: rest => do
      let operand ← readOperand text
      let chain ← flawIn body (chain.operand operand)
      readPieces body readOperand chain rest

/-- Read the text of a time group. -/
def readTimeGroup (body : List Char) : Except Error Condition := do
  let chain ← readPieces body (fun text => Condition.time <$> readTimeSentence text) .nothing
    (groupPieces body)
  return .ofChain chain

/-- The subject, the relations and the object of the text of a relational group. -/
def splitGroup (body : List Char) :
    Except Error (List Char × List Char × Option (List Char)) :=
  match words body with
  | [] | [_] => .error (malformedSentence body .sentenceShape)
  | [subject, relation] => .ok (subject, relation, none)
  | subject :: rest => .ok (subject, join [' '] rest.dropLast, rest.getLast?)

/-- Read one relation of the relational group `body`. -/
def readGroupRelation (body : List Char) (subject : Term) (object : Option Term)
    (text : List Char) : Except Error Condition := do
  if text.any isBlank then
    throw (malformedSentence body .adjacentRelations)
  let directed ← readRelation text
  match directed.statement? subject object with
  | some statement => return .sentence statement
  | none => throw (malformedSentence body .leftWithoutObject)

/-- Read the text of a relational group: the subject, the object, then the relations. -/
def readRelationalGroup (body : List Char) : Scoped Condition := do
  let (subject, relations, object) ← splitGroup body
  let subject ← readTerm subject
  let object ← readTerm? object
  let chain ← readPieces body (readGroupRelation body subject object) .nothing
    (groupPieces relations)
  return .ofChain chain

/-- Read the text of a group. -/
def readGroup : GroupKind → List Char → Scoped Condition
  | .time, body => readTimeGroup body
  | .relational, body => readRelationalGroup body

/-- Read tokens as a chain that goes on from a partial one; `text` is the whole list. -/
def readTokens (text : List Char) : Partial Condition → List Token → Scoped (Chain Condition)
  | chain, [] => flawIn text chain.finish
  | chain, .connective connective :: rest => do
      let chain ← flawIn text (chain.connective connective)
      readTokens text chain rest
  | chain, .group kind body :: rest => do
      let operand ← readGroup kind body
      let chain ← flawIn text (chain.operand operand)
      readTokens text chain rest
  | _, .bare bare :: _ => throw (malformedSentence text (.bareText (String.ofList bare)))

/-- Read a sentence list. -/
def readSentences (text : List Char) : Scoped Condition := do
  let tokens ← flawIn text (scan text)
  return .ofChain (← readTokens text .nothing tokens)

end Fabula.Script
