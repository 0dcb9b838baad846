import Fabula.Text.Decimal
import Fabula.Toml.Document

/-!
# Reading TOML

A reader takes something off the beginning of a text, or refuses the text.
The grammar is that of TOML 1.0; nested arrays, inline tables and keys with
dots may be 79 levels deep.
-/

namespace Fabula.Toml

open Fabula.Text

/-- A computation that reads from the beginning of a text, or refuses it. -/
abbrev Reader := StateT (List Char) Option

namespace Reader

/-! ## Characters -/

/-- Whether a character may stand in a comment: a tab, or anything but a control character. -/
def isPrintable (c : Char) : Bool :=
  c == '\t' || (0x20 ≤ c.toNat && c.toNat != 0x7F)

/-- Whether a character may stand in a key without quotes. -/
def isKeyChar (c : Char) : Bool :=
  c.isAlphanum || c == '-' || c == '_'

/-- Whether a character is a space or a tab. -/
def isSpace (c : Char) : Bool :=
  c == ' ' || c == '\t'

/-- The value of a digit in a base up to sixteen. -/
def digitIn? (base : Nat) (c : Char) : Option Nat :=
  let value :=
    if c.isDigit then
      digitValue c
    else if 'a' ≤ c && c ≤ 'f' then
      c.toNat - 'a'.toNat + 10
    else if 'A' ≤ c && c ≤ 'F' then
      c.toNat - 'A'.toNat + 10
    else
      base
  if value < base then some value else none

/-- The number that digits in a base stand for, which must stay below `bound`. -/
def numberIn? (base bound : Nat) (digits : List Char) : Option Nat :=
  let append (value : Nat) (c : Char) : Option Nat := do
    let value := base * value + (← digitIn? base c)
    if value < bound then some value else none
  digits.foldlM append 0

/-! ## Elementary readers -/

/-- The character before which the reader stands. -/
def peek : Reader (Option Char) := fun text =>
  some (text.head?, text)

/-- Read any character. -/
def next : Reader Char
  | [] => none
  | c :: rest => some (c, rest)

/-- Read these characters if they stand here; the result is whether they do. -/
def accept (expected : String) : Reader Bool := fun text =>
  match expected.toList.isPrefixOf? text with
  | some rest => some (true, rest)
  | none => some (false, text)

/-- Read these characters. -/
def expect (expected : String) : Reader Unit := do
  if !(← accept expected) then failure

/-- Read the longest run of certain characters. -/
def run (belongs : Char → Bool) : Reader (List Char) := fun text =>
  some (text.takeWhile belongs, text.dropWhile belongs)

/-- Read a given number of certain characters. -/
def times (belongs : Char → Bool) : Nat → Reader (List Char)
  | 0 => return []
  | count + 1 => do
      let c ← next
      if belongs c then
        return c :: (← times belongs count)
      else
        failure

/--
Repeat a reader as often as it says that there is more, but not more often
than `fuel` has characters.  `read` are the results so far, backwards.
-/
def repeatFrom {α : Type} (reader : Reader (List α × Bool)) (read : List α)
    (fuel : List Char) : Reader (List α) := do
  let (values, more) ← reader
  let read := values.reverse ++ read
  if more then
    match fuel with
    | [] => failure
    | _ :: fuel => repeatFrom reader read fuel
  else
    return read.reverse

/--
Repeat a reader as often as it says that there is more, and put its results
together.  As long as there is more, the reader must read something.
-/
def repeatWhile {α : Type} (reader : Reader (List α × Bool)) : Reader (List α) := fun text =>
  repeatFrom reader [] text text

/-! ## Spaces, comments and lines -/

/-- Read spaces and tabs. -/
def spaces : Reader Unit := do
  let _ ← run isSpace

/-- Read the end of a line if it stands here. -/
def newline : Reader Bool := do
  if ← accept "\n" then return true else accept "\r\n"

/-- Read a comment if it stands here. -/
def comment : Reader Unit := do
  if ← accept "#" then
    let _ ← run isPrintable

/-- Read the rest of a line on which nothing may follow but a comment. -/
def lineEnd : Reader Unit := do
  spaces
  comment
  if !(← newline) && (← peek).isSome then failure

/-- Read what may stand between the values of an array: spaces, comments and line ends. -/
def gap : Reader Unit := do
  let _ ← repeatWhile (α := Unit) do
    spaces
    let before ← peek
    comment
    if ← newline then
      return ([], true)
    else if before == some '#' then
      failure
    else
      return ([], false)

/-! ## Strings -/

/-- The character with a given number, if there is one. -/
def scalar (code : Nat) : Reader Char :=
  if code.isValidChar then return Char.ofNat code else failure

/-- Read a character that is given by some hexadecimal digits. -/
def codePoint (digits : Nat) : Reader Char := do
  match numberIn? 16 0x100000000 (← times (fun c => (digitIn? 16 c).isSome) digits) with
  | some code => scalar code
  | none => failure

/-- Read what follows on the backslash of an escape. -/
def escape : Reader Char := do
  match ← next with
  | 'b' => return '\x08'
  | 't' => return '\t'
  | 'n' => return '\n'
  | 'f' => return '\x0c'
  | 'r' => return '\r'
  | '"' => return '"'
  | '\\' => return '\\'
  | 'u' => codePoint 4
  | 'U' => codePoint 8
  | _ => failure

/-- Read one character of a string within a line, and say whether the string goes on. -/
def stringPart (quote : Char) (escapes : Bool) : Reader (List Char × Bool) := do
  let c ← next
  if c == quote then
    return ([], false)
  else if c == '\\' && escapes then
    return ([← escape], true)
  else if isPrintable c then
    return ([c], true)
  else
    failure

/-- Read the line end that a backslash hides, with all spaces and line ends after it. -/
def hiddenLineEnd : Reader Unit := do
  spaces
  if !(← newline) then failure
  let _ ← repeatWhile (α := Unit) do
    spaces
    return ([], ← newline)

/--
Read one part of a string over several lines, and say whether the string goes
on.  Up to two quotes may stand right before the three that end it.
-/
def linesPart (quote : Char) (escapes : Bool) : Reader (List Char × Bool) := do
  if ← newline then
    return (['\n'], true)
  let quotes ← run (· == quote)
  if !quotes.isEmpty then
    if quotes.length < 3 then
      return (quotes, true)
    else if quotes.length ≤ 5 then
      return (quotes.drop 3, false)
    else
      failure
  let c ← next
  if c == '\\' && escapes then
    match ← peek with
    | some ' ' | some '\t' | some '\n' | some '\r' =>
        hiddenLineEnd
        return ([], true)
    | _ => return ([← escape], true)
  else if isPrintable c then
    return ([c], true)
  else
    failure

/-- Read a string within a line, behind its first quote. -/
def lineString (quote : Char) (escapes : Bool) : Reader String := do
  return String.ofList (← repeatWhile (stringPart quote escapes))

/-- Read a string over several lines, behind its first three quotes. -/
def linesString (quote : Char) (escapes : Bool) : Reader String := do
  let _ ← newline
  return String.ofList (← repeatWhile (linesPart quote escapes))

/-- Read a string in quotes of either kind. -/
def string : Reader String := do
  if ← accept "\"\"\"" then
    linesString '"' true
  else if ← accept "\"" then
    lineString '"' true
  else if ← accept "\x27\x27\x27" then
    linesString '\x27' false
  else do
    expect "\x27"
    lineString '\x27' false

/-! ## Numbers -/

/-- Read digits in a base; single underscores may stand between them. -/
def digits (base : Nat) : Reader (List Char) := do
  let written ← run fun c => (digitIn? base c).isSome || c == '_'
  let groups := written.splitOn '_'
  if groups.any (·.isEmpty) then
    failure
  else
    return groups.flatten

/-- An integer of 64 bits, from its sign and its digits in a base. -/
def integer (negative : Bool) (base : Nat) (digits : List Char) : Reader Value :=
  let bound := if negative then 0x8000000000000001 else 0x8000000000000000
  match numberIn? base bound digits with
  | some number => return .integer (if negative then -Int.ofNat number else Int.ofNat number)
  | none => failure

/-- Read an integer in another base, behind the letter that tells the base. -/
def basedInteger (base : Nat) : Reader Value := do
  integer false base (← digits base)

/-- Read an exponent if it stands here. -/
def exponent : Reader (List Char) := do
  match ← peek with
  | some 'e' | some 'E' => do
      let _ ← next
      let negative ← accept "-"
      let _ ← if negative then pure true else accept "+"
      let written ← digits 10
      return 'e' :: (if negative then ['-'] else []) ++ written
  | _ => return []

/--
The floating-point number that a decimal stands for.  A positive number
beyond the range is refused, and a negative one is taken as minus infinity.
-/
def float (negative : Bool) (text : List Char) : Reader Value :=
  match Decimal.read? ((if negative then ['-'] else []) ++ text) with
  | none => failure
  | some decimal =>
      if !negative && decimal.toFloat.isInf then
        failure
      else
        return .float decimal.toFloat.toBits

/-- The bits of infinity, and of the number that is none. -/
def specialFloat (negative : Bool) (magnitude : UInt64) : Value :=
  .float (if negative then magnitude ||| 0x8000000000000000 else magnitude)

/-- Read a number behind its sign. -/
def unsignedNumber (signed negative : Bool) : Reader Value := do
  if ← accept "inf" then
    return specialFloat negative 0x7FF0000000000000
  if ← accept "nan" then
    return specialFloat negative 0x7FF8000000000000
  if !signed then
    if ← accept "0x" then return ← basedInteger 16
    if ← accept "0o" then return ← basedInteger 8
    if ← accept "0b" then return ← basedInteger 2
  let whole ← digits 10
  if whole.head? == some '0' && whole.length != 1 then
    failure
  let fraction ← if ← accept "." then some <$> digits 10 else pure none
  let exponent ← exponent
  match fraction, exponent with
  | none, [] => integer negative 10 whole
  | none, exponent => float negative (whole ++ exponent)
  | some fraction, exponent => float negative (whole ++ '.' :: fraction ++ exponent)

/-- Read a number. -/
def number : Reader Value := do
  if ← accept "-" then
    unsignedNumber true true
  else
    unsignedNumber (← accept "+") false

/-! ## Dates -/

/-- Read a number with a fixed count of digits that lies between two bounds. -/
def field (count least greatest : Nat) : Reader Nat := do
  let value := digitsValue (← times Char.isDigit count)
  if least ≤ value && value ≤ greatest then return value else failure

/-- The number of days in a month. -/
def daysIn (year month : Nat) : Nat :=
  if month == 2 then
    if year % 4 == 0 && (year % 100 != 0 || year % 400 == 0) then 29 else 28
  else if month == 4 || month == 6 || month == 9 || month == 11 then
    30
  else
    31

/-- Read a time of day. -/
def timeOfDay : Reader Unit := do
  let _ ← field 2 0 23
  expect ":"
  let _ ← field 2 0 59
  expect ":"
  let _ ← field 2 0 60
  if ← accept "." then
    if (← run Char.isDigit).isEmpty then failure

/-- Read a date. -/
def date : Reader Unit := do
  let year ← field 4 0 9999
  expect "-"
  let month ← field 2 1 12
  expect "-"
  let _ ← field 2 1 (daysIn year month)

/-- Read the distance of a time from the universal time. -/
def offset : Reader Unit := do
  if !(← accept "Z") && !(← accept "z") then
    if !(← accept "+") then expect "-"
    let _ ← field 2 0 23
    expect ":"
    let _ ← field 2 0 59

/-- Read a time after a date, and its distance from the universal time if it is given. -/
def timeAfterDate : Reader Unit := do
  match ← next with
  | 'T' | 't' | ' ' => timeOfDay
  | _ => failure
  offset <|> pure ()

/-- Read a date, a time of day, or both. -/
def moment : Reader Value := do
  (do date; timeAfterDate <|> pure ()) <|> timeOfDay
  return .compound

/-! ## Keys and values -/

/-- How deep values and keys may be nested. -/
def depthLimit : Nat := 79

/-- Read a key without dots. -/
def simpleKey : Reader String := do
  if ← accept "\"" then
    lineString '"' true
  else if ← accept "\x27" then
    lineString '\x27' false
  else
    let name ← run isKeyChar
    if name.isEmpty then failure else return String.ofList name

/-- Read a key, with spaces around it and around its dots. -/
def key : Reader (List String) := do
  let parts ← repeatWhile do
    spaces
    let name ← simpleKey
    spaces
    return ([name], ← accept ".")
  if parts.length ≤ depthLimit then return parts else failure

/-- Read the values of an array, behind its opening bracket. -/
def array (element : Reader Value) : Reader Value := do
  let _ ← repeatWhile (α := Unit) do
    gap
    if ← accept "]" then
      return ([], false)
    let _ ← element
    gap
    if ← accept "," then
      return ([], true)
    expect "]"
    return ([], false)
  return .compound

/-- Read a key, an equals sign, and a value. -/
def pair (value : Reader Value) : Reader (List String × Value) := do
  let name ← key
  expect "="
  spaces
  return (name, ← value)

/-- Enter keys with their values into a table. -/
def enterPairs : List (List String × Value) → Entries → Reader Entries
  | [], entries => return entries
  | (name, value) :: rest, entries =>
      match entries.insertKey name value with
      | some entries => enterPairs rest entries
      | none => failure

/-- Read the pairs of an inline table, behind its opening brace. -/
def inlineTable (value : Reader Value) : Reader Value := do
  spaces
  if ← accept "\x7d" then
    return .compound
  let pairs ← repeatWhile do
    let entry ← pair value
    spaces
    if ← accept "," then
      return ([entry], true)
    expect "\x7d"
    return ([entry], false)
  let _ ← enterPairs pairs []
  return .compound

/-- Read a value; without a reader for elements, arrays and inline tables are refused. -/
def valueWith (element : Option (Reader Value)) : Reader Value := do
  match ← peek, element with
  | some '"', _ | some '\x27', _ => return .text (← string)
  | some '[', some element => do
      expect "["
      array element
  | some '\x7b', some element => do
      expect "\x7b"
      inlineTable element
  | some 't', _ => do
      expect "true"
      return .boolean true
  | some 'f', _ => do
      expect "false"
      return .boolean false
  | _, _ => moment <|> number

/-- Read a value in which arrays and inline tables are nested to a given depth. -/
def value : (depth : Nat) → Reader Value
  | 0 => valueWith none
  | depth + 1 => valueWith (some (value depth))

/-! ## Documents -/

/-- Read a table header, and open what it names. -/
def header (document : Document) : Reader Document := do
  let several ← accept "[["
  if !several then expect "["
  let name ← key
  expect (if several then "]]" else "]")
  lineEnd
  match if several then document.openElement name else document.openTable name with
  | some document => return document
  | none => failure

/-- Read a key with its value, and enter it. -/
def entry (document : Document) : Reader Document := do
  let (name, value) ← pair (value depthLimit)
  lineEnd
  match document.insert name value with
  | some document => return document
  | none => failure

/-- Read lines into a document, not more than `fuel` of them. -/
def documentLines : (fuel : Nat) → Document → Reader Document
  | 0, _ => failure
  | fuel + 1, document => do
      spaces
      match ← peek with
      | none => return document
      | some '[' => documentLines fuel (← header document)
      | some '#' | some '\n' | some '\r' => do
          lineEnd
          documentLines fuel document
      | some _ => documentLines fuel (← entry document)

end Reader

/-- The document that a text describes; a byte order mark may precede it. -/
def read? (text : String) : Option Document :=
  let text :=
    match text.toList with
    | '\ufeff' :: rest => rest
    | text => text
  (Reader.documentLines (text.length + 1) Document.empty).run' text

end Fabula.Toml
