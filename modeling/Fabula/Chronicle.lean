import Fabula.Network
import Std.Data.HashSet

/-!
# The chronicle

Snapshots of the network, filed under the clock readings at which they were
taken, and the frames that tell what each snapshot adds to the one before.

As JSON a chronicle is an object with a member for each clock reading, in
ascending order; its value lists the facts of the snapshot.  Every level is
indented by two spaces.
-/

namespace Fabula

/-- Snapshots of the network under clock readings; each lists its facts by assertion. -/
abbrev Chronicle := Std.TreeMap Nat (List Fact)

/-- The facts that a snapshot has and the one before it had not. -/
structure Frame where
  time : Nat
  asserted : List Fact
deriving DecidableEq, Repr

namespace Chronicle

/-- The facts of a snapshot whose numbers do not occur in the previous one. -/
def added (previous snapshot : List Fact) : List Fact :=
  let known := Std.HashSet.ofList (previous.map (·.id))
  snapshot.filter fun fact => !known.contains fact.id

theorem mem_added {previous snapshot : List Fact} {fact : Fact} :
    fact ∈ added previous snapshot ↔
      fact ∈ snapshot ∧ ∀ earlier ∈ previous, earlier.id ≠ fact.id := by
  simp [added]

/-- The frames of snapshots in order, the first of which comes after `previous`. -/
def framesAfter (previous : List Fact) : List (Nat × List Fact) → List Frame
  | [] => []
  | (time, snapshot) :: rest =>
      { time, asserted := added previous snapshot } :: framesAfter snapshot rest

/-- One frame for each snapshot; the first lists all its facts. -/
def frames (chronicle : Chronicle) : List Frame :=
  framesAfter [] chronicle.toList

/-! ## JSON -/

/-- A digit of a hexadecimal number. -/
def hexDigit (value : Nat) : Char :=
  Nat.digitChar value

/-- How a character is written in a JSON string. -/
def escapeChar (c : Char) : List Char :=
  if c == '"' then
    ['\\', '"']
  else if c == '\\' then
    ['\\', '\\']
  else if c == '\x08' then
    ['\\', 'b']
  else if c == '\x09' then
    ['\\', 't']
  else if c == '\x0a' then
    ['\\', 'n']
  else if c == '\x0c' then
    ['\\', 'f']
  else if c == '\x0d' then
    ['\\', 'r']
  else if c.toNat < 0x20 then
    ['\\', 'u', '0', '0', hexDigit (c.toNat / 16), hexDigit (c.toNat % 16)]
  else
    [c]

/-- A JSON string. -/
def jsonString (text : String) : String :=
  "\"" ++ String.ofList (text.toList.flatMap escapeChar) ++ "\""

/-- A JSON string, or `null`. -/
def jsonString? : Option String → String
  | some text => jsonString text
  | none => "null"

/-- Several items between an opening and a closing sign, each on a line of its own. -/
def jsonBlock (opening closing indentation : String) (items : List String) : String :=
  if items.isEmpty then
    opening ++ closing
  else
    opening ++ "\n" ++ ",\n".intercalate (items.map (indentation ++ "  " ++ ·)) ++
      "\n" ++ indentation ++ closing

/-- A member of a JSON object. -/
def jsonMember (name value : String) : String :=
  jsonString name ++ ": " ++ value

/-- A fact as a JSON object. -/
def jsonFact (fact : Fact) : String :=
  jsonBlock "\x7b" "\x7d" "    " [
    jsonMember "id" (toString fact.id),
    jsonMember "subject" (jsonString fact.key.subject),
    jsonMember "relation" (jsonString fact.key.relation),
    jsonMember "object" (jsonString? fact.key.object),
    jsonMember "asserted_at" (toString fact.assertedAt),
    jsonMember "asserted_elapsed" (toString fact.assertedElapsed)]

/-- A chronicle as a JSON object. -/
def toJson (chronicle : Chronicle) : String :=
  jsonBlock "\x7b" "\x7d" "" (chronicle.toList.map fun (time, facts) =>
    jsonMember (toString time) (jsonBlock "[" "]" "  " (facts.map jsonFact)))

end Chronicle

end Fabula
