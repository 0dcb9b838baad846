import Fabula.Statement

/-!
# Errors

Everything that can go wrong, by cause.  The last functions give the wording
of each cause.
-/

namespace Fabula

/-- The parts of a rules text that can be malformed. -/
inductive Construct where
  | action
  | subrule
  | sentence
  | relation
  | variableToken
deriving DecidableEq, Repr

/-- What is wrong with a malformed part of a rules text. -/
inductive Flaw where
  | noActions
  | actionShape
  | durationInAction
  | leftWithoutObject
  | noIncrements
  | incrementShape
  | notANumber (text : String)
  | unterminated (opening : Char)
  | bareText (text : String)
  | adjacentSentences
  | adjacentRelations
  | noLeftOperand (connective : Char)
  | noRightOperand (connective : Char)
  | emptySentence
  | sentenceShape
  | timeShape
  | timeSubject
  | timeOperator (symbol : String)
  | timeValue (text : String)
  | durationValue (text : String)
  | noRelationName
  | noClassName
  | limitOnSubject
  | limitNotPositive
  | anonymousWithoutClass
deriving DecidableEq, Repr

/-- What is wrong with a line of opening conditions. -/
inductive OpeningFlaw where
  | noTab
  | noClassName
  | noSubject
  | noRelation
  | clauseShape
deriving DecidableEq, Repr

/-- What is wrong with a configuration. -/
inductive ConfigurationFlaw where
  | noTimestep
  | badStart (time : Nat)
  | badThreshold
deriving DecidableEq, Repr

/-- The two kinds of words that a report has to phrase. -/
inductive WordKind where
  | noun
  | relation
deriving DecidableEq, Repr

/-- The causes of failure. -/
inductive Error where
  /-- A class was used that was never defined. -/
  | unknownClass (name : String)
  /-- A line of opening conditions could not be read. -/
  | malformedOpening (line : Nat) (flaw : OpeningFlaw) (content : String)
  /-- A clock was to start at something that is no clock time. -/
  | invalidClock (time : Nat)
  /-- A part of a rules text could not be read. -/
  | malformed (construct : Construct) (text : String) (flaw : Flaw)
  /-- A relation ended after the symbol of its duration. -/
  | missingDuration (token : String)
  /-- A variable was used that has no class yet. -/
  | undeclared (name : String)
  /-- A variable was given a second class. -/
  | conflictingClass (name declared requested : String)
  /-- A line of a lexicon could not be read. -/
  | malformedLexicon (line : Nat) (content : String)
  /-- A word of an action or of a fact has no phrase. -/
  | missingPhrase (kind : WordKind) (name statement : String)
  /-- A variable had no value. -/
  | unbound (v : Variable)
  /-- A configuration has an unusable value. -/
  | unusableConfiguration (flaw : ConfigurationFlaw)
  /-- A configuration text could not be read, or has a value of the wrong type. -/
  | unreadableConfiguration
  /-- A file could not be read. -/
  | unreadableFile
deriving DecidableEq, Repr

/-- A text between apostrophes. -/
def quoted (text : String) : String :=
  "'" ++ text ++ "'"

/-- How a part of a rules text is named in messages. -/
def Construct.describe : Construct → String
  | action => "action definition"
  | subrule => "subrule"
  | sentence => "sentence"
  | relation => "relation"
  | variableToken => "variable"

/-- The wording of a flaw in a rules text. -/
def Flaw.message : Flaw → String
  | noActions => "rule has no actions"
  | actionShape => "expected 'subject relation [object]'"
  | durationInAction => "duration modifiers only apply to sentences"
  | leftWithoutObject => "a left-directed relation needs an object"
  | noIncrements => "missing ':' after the increments"
  | incrementShape => "expected 'TRUE,FALSE' increments"
  | notANumber text => quoted text ++ " is not a number"
  | unterminated opening => "unterminated " ++ quoted opening.toString ++ " group"
  | bareText text => quoted text ++ " is outside any sentence group"
  | adjacentSentences => "missing '&' or '/' between sentences"
  | adjacentRelations => "missing '&' or '/' between relations"
  | noLeftOperand connective => quoted connective.toString ++ " has no left operand"
  | noRightOperand connective => quoted connective.toString ++ " has no right operand"
  | emptySentence => "empty sentence"
  | sentenceShape => "expected 'subject relation [object]'"
  | timeShape => "expected 'T <op> <time>'"
  | timeSubject => "time sentences compare against T"
  | timeOperator symbol => "unknown time operator " ++ quoted symbol
  | timeValue text => quoted text ++ " is not a clock time"
  | durationValue text => quoted text ++ " is not a duration in minutes"
  | noRelationName => "missing relation name"
  | noClassName => "missing class name"
  | limitOnSubject => "only Y may carry a y-restriction"
  | limitNotPositive => "y-restriction must be a positive integer"
  | anonymousWithoutClass => "anonymous variable needs a class"

/-- The wording of a flaw in opening conditions. -/
def OpeningFlaw.message : OpeningFlaw → String
  | noTab => "expected a tab after the subject"
  | noClassName => "class name is empty"
  | noSubject => "subject is empty"
  | noRelation => "relation is empty"
  | clauseShape => "expected RELATION [OBJECT]"

/-- The wording of a flaw in a configuration. -/
def ConfigurationFlaw.message : ConfigurationFlaw → String
  | noTimestep => "timestep must be at least one minute"
  | badStart time => "start_time " ++ toString time ++ " is not a valid HHMM clock time"
  | badThreshold => "short_circuit_threshold must be positive"

/-- How a kind of word is named in messages. -/
def WordKind.describe : WordKind → String
  | noun => "noun"
  | relation => "relation"

/-- The wording of an error. -/
def Error.message : Error → String
  | unknownClass name => "unknown class: " ++ name
  | malformedOpening line flaw content =>
      "malformed initial condition on line " ++ toString line ++
        " (" ++ flaw.message ++ "): " ++ content
  | invalidClock time =>
      "invalid clock time " ++ toString time ++ ": expected HHMM with minutes below 60"
  | malformed construct text flaw =>
      "malformed " ++ construct.describe ++ " " ++ quoted text ++ ": " ++ flaw.message
  | missingDuration token =>
      "relation " ++ quoted token ++ " has a duration operator but no duration value"
  | undeclared name =>
      "variable " ++ quoted name ++ " referenced before it was declared with a class"
  | conflictingClass name declared requested =>
      "variable " ++ quoted name ++ " already declared with class " ++ declared ++
        ", cannot redeclare as " ++ requested
  | malformedLexicon line content =>
      "malformed lexical-expression definition: line " ++ toString line ++ ": " ++ content
  | missingPhrase kind name statement =>
      "no lexical expression for " ++ kind.describe ++ " " ++ name ++
        " referenced in action " ++ statement
  | unbound v => "variable " ++ v.render ++ " has no value in the current binding"
  | unusableConfiguration flaw => "config error: " ++ flaw.message
  | unreadableConfiguration => "config error"
  | unreadableFile => "io error"

end Fabula
