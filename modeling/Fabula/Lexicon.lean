import Fabula.Script.Definition
import Fabula.World

/-!
# The lexicon and the report

The lexicon has the phrases with which nouns and relations are rendered, one name
on a line, as in `LIKES: likes, is fond of`.  A later line for a name replaces an
earlier one.

The report is the story as prose: for each frame of the chronicle its time, and a
sentence for each fact that the frame adds.
-/

namespace Fabula

open Fabula.Text

/-- Names with their phrases. -/
abbrev Lexicon := NameTable

namespace Lexicon

/-- Read a line: a name, the only colon of the line, and phrases between commas. -/
def readLine (number : Nat) (line : List Char) : Except Error (String × List String) :=
  let refused := Except.error (.malformedLexicon number (String.ofList line))
  match cut? [':'] line with
  | none => refused
  | some (name, phrases) =>
      if phrases.contains ':' then
        refused
      else
        .ok (String.ofList (trim name), (parts ',' phrases).map String.ofList)

/-- Read a numbered line into a lexicon. -/
def addLine (lexicon : Lexicon) (numbered : Nat × List Char) : Except Error Lexicon := do
  let (name, phrases) ← readLine numbered.1 numbered.2
  return lexicon.insert name phrases

/-- Read a lexicon. -/
def read (text : String) : Except Error Lexicon :=
  (Script.contentLines text.toList).foldlM addLine ∅

/-- The first phrase of a name, which is the one that reports use. -/
def firstPhrase (lexicon : Lexicon) (name : String) : Option String :=
  lexicon[name]?.bind (·.head?)

end Lexicon

/-! ## The report -/

namespace Report

/-- The phrase of a noun; a noun without one stands for itself. -/
def nounPhrase (lexicon : Lexicon) (noun : String) : String :=
  (lexicon.firstPhrase noun).getD noun

/-- The sentence of a fact, with two spaces behind it.  A relation must have a phrase. -/
def sentence (lexicon : Lexicon) (fact : Fact) : Except Error String :=
  match lexicon.firstPhrase fact.key.relation with
  | none => .error (.missingPhrase .relation fact.key.relation fact.render)
  | some relation =>
      .ok (renderTriple (nounPhrase lexicon fact.key.subject) relation
        (fact.key.object.map (nounPhrase lexicon)) ++ ".  ")

/-- The paragraph of a frame: its time, and the sentences of its facts one after another. -/
def paragraph (lexicon : Lexicon) (frame : Frame) : Except Error String := do
  let sentences ← frame.asserted.mapM (sentence lexicon)
  return "\n\n\t" ++ Text.padded 4 frame.time ++ "\n\n" ++ String.join sentences

/-- The report of a world: the paragraphs of its frames one after another. -/
def render (lexicon : Lexicon) (world : World) : Except Error String := do
  return String.join (← world.frames.mapM (paragraph lexicon))

end Report

end Fabula
