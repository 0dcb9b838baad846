import Fabula.Condition
import Fabula.Text.Pieces

/-!
# The tokens of a sentence list

A sentence list consists of groups in brackets, in parentheses or in double
quotes, and of connectives between them; what else stands in it is bare text.
The scanner goes through the characters once, and knows for each of them
whether it stands in a group, in bare text or between tokens.
-/

namespace Fabula.Script

open Fabula.Text

/-- The two kinds of groups: comparisons of the clock, and relations of terms. -/
inductive GroupKind where
  | time
  | relational
deriving DecidableEq, Repr

/-- A token of a sentence list; the text of a group is trimmed. -/
inductive Token where
  | group (kind : GroupKind) (body : List Char)
  | connective (connective : Connective)
  | bare (text : List Char)
deriving DecidableEq, Repr

/-- The connective that a character writes. -/
def connectiveOf? : Char → Option Connective
  | '&' => some .and
  | '/' => some .or
  | _ => none

/-- The kind of the group that a character opens, and the character that closes it. -/
def groupOf? : Char → Option (GroupKind × Char)
  | '[' => some (.time, ']')
  | '(' => some (.relational, ')')
  | '"' => some (.relational, '"')
  | _ => none

/-- Whether a character ends bare text. -/
def endsBare (c : Char) : Bool :=
  isBlank c || (connectiveOf? c).isSome || (groupOf? c).isSome

/-- Where the scanner stands; texts that are not complete yet are kept backwards. -/
inductive Position where
  | between
  | inBare (text : List Char)
  | inGroup (opening : Char) (kind : GroupKind) (closing : Char) (body : List Char)
deriving DecidableEq, Repr

namespace Position

/-- Read a character between tokens. -/
def start (c : Char) : List Token × Position :=
  match connectiveOf? c, groupOf? c with
  | some connective, _ => ([.connective connective], between)
  | none, some (kind, closing) => ([], inGroup c kind closing [])
  | none, none => ([], if isBlank c then between else inBare [c])

/-- Read a character: the tokens that it completes, and where the scanner stands then. -/
def step (c : Char) : Position → List Token × Position
  | between => start c
  | inBare text =>
      if endsBare c then
        let (tokens, position) := start c
        (.bare text.reverse :: tokens, position)
      else
        ([], inBare (c :: text))
  | inGroup opening kind closing body =>
      if c == closing then
        ([.group kind (trim body.reverse)], between)
      else
        ([], inGroup opening kind closing (c :: body))

/-- The tokens that the end of the text completes; an open group has no end. -/
def finish : Position → Except Flaw (List Token)
  | between => .ok []
  | inBare text => .ok [.bare text.reverse]
  | inGroup opening _ _ _ => .error (.unterminated opening)

end Position

/-- The scanner: the tokens that are complete, the last one first, and where it stands. -/
structure Scanner where
  tokens : List Token
  position : Position
deriving DecidableEq, Repr

namespace Scanner

/-- The scanner at the beginning of a text. -/
def initial : Scanner :=
  { tokens := [], position := .between }

/-- Read a character. -/
def step (scanner : Scanner) (c : Char) : Scanner :=
  let (tokens, position) := scanner.position.step c
  { tokens := tokens.reverse ++ scanner.tokens, position }

/-- The tokens of the whole text, if it ends here. -/
def finish (scanner : Scanner) : Except Flaw (List Token) :=
  scanner.position.finish.map (scanner.tokens.reverse ++ ·)

end Scanner

/-- The tokens of a text. -/
def scan (text : List Char) : Except Flaw (List Token) :=
  (text.foldl Scanner.step .initial).finish

/-- A part of the text of a group: a connective, or what stands between connectives. -/
inductive Piece where
  | text (text : List Char)
  | connective (connective : Connective)
deriving DecidableEq, Repr

/-- The piece that a text makes, unless it is blank. -/
def Piece.ofText (text : List Char) : List Piece :=
  if (trim text).isEmpty then [] else [.text (trim text)]

/-- Put a character before a text that is cut into its first stretch and the pieces after it. -/
def prependChar (c : Char) : List Char × List Piece → List Char × List Piece
  | (stretch, pieces) =>
      match connectiveOf? c with
      | some connective => ([], .connective connective :: (Piece.ofText stretch ++ pieces))
      | none => (c :: stretch, pieces)

/-- The pieces of the text of a group. -/
def groupPieces (text : List Char) : List Piece :=
  let (stretch, pieces) := text.foldr prependChar ([], [])
  Piece.ofText stretch ++ pieces

end Fabula.Script
