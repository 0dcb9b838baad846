/-!
# TOML documents

The tree of tables that a TOML text describes, and the rules by which keys
and table headers build it.  A table can be opened once by its header, keys
with dots make tables that only such keys extend, and no key is given twice.
-/

namespace Fabula.Toml

/-- A value.  Dates, arrays and inline tables are told apart from other values only. -/
inductive Value where
  | text (text : String)
  | integer (number : Int)
  /-- A floating-point number, by its bits, so that every not-a-number keeps its sign. -/
  | float (bits : UInt64)
  | boolean (truth : Bool)
  | compound
deriving DecidableEq, Repr

/--
What a key stands for.  A table is implicit until its own header opens it,
and dotted if it was made by a key with dots.  Of several tables under one
header the last one counts, as no key can reach the others any more.
-/
inductive Node where
  | value (value : Value)
  | table (implicit dotted : Bool) (entries : List (String × Node))
  | tables (last : List (String × Node))
deriving Repr

/-- The keys of a table with what they stand for, the latest first. -/
abbrev Entries := List (String × Node)

namespace Entries

/-- Entries in which a key stands for something else than before. -/
def replace (entries : Entries) (key : String) (node : Node) : Entries :=
  entries.map fun entry => if entry.1 == key then (key, node) else entry

/--
Enter a value under a key, after the keys of `path` that stand before its
last dot.  `dotted` tells of the table itself, and `direct` whether the whole
key is without dots.
-/
def insert (dotted direct : Bool) (key : String) (value : Value) :
    (path : List String) → Entries → Option Entries
  | [], entries =>
      if dotted == direct || (entries.lookup key).isSome then
        none
      else
        some ((key, .value value) :: entries)
  | step :: path, entries =>
      match entries.lookup step with
      | none =>
          (insert true direct key value path []).map fun inner =>
            (step, .table true true inner) :: entries
      | some (.table true dotted inner) =>
          (insert dotted direct key value path inner).map fun inner =>
            entries.replace step (.table true dotted inner)
      | some (.tables last) =>
          (insert false direct key value path last).map fun last =>
            entries.replace step (.tables last)
      | some _ => none

/-- Enter a value under a key with dots, which is given by its parts. -/
def insertKey (entries : Entries) (parts : List String) (value : Value) : Option Entries :=
  match parts.getLast? with
  | none => none
  | some key => insert false parts.dropLast.isEmpty key value parts.dropLast entries

/-- Open the table of a header. -/
def openTable : List String → Entries → Option Entries
  | [], _ => none
  | [key], entries =>
      match entries.lookup key with
      | none => some ((key, .table false false []) :: entries)
      | some (.table true false inner) => some (entries.replace key (.table false false inner))
      | some _ => none
  | step :: path, entries =>
      match entries.lookup step with
      | none =>
          (openTable path []).map fun inner => (step, .table true false inner) :: entries
      | some (.table implicit dotted inner) =>
          (openTable path inner).map fun inner =>
            entries.replace step (.table implicit dotted inner)
      | some (.tables last) =>
          (openTable path last).map fun last => entries.replace step (.tables last)
      | some (.value _) => none

/-- Open the next of several tables with one header. -/
def openElement : List String → Entries → Option Entries
  | [], _ => none
  | [key], entries =>
      match entries.lookup key with
      | none => some ((key, .tables []) :: entries)
      | some (.tables _) => some (entries.replace key (.tables []))
      | some _ => none
  | step :: path, entries =>
      match entries.lookup step with
      | none =>
          (openElement path []).map fun inner => (step, .table true false inner) :: entries
      | some (.table implicit dotted inner) =>
          (openElement path inner).map fun inner =>
            entries.replace step (.table implicit dotted inner)
      | some (.tables last) =>
          (openElement path last).map fun last => entries.replace step (.tables last)
      | some (.value _) => none

/-- Change the table of a header that is open. -/
def changeAt (change : Entries → Option Entries) : List String → Entries → Option Entries
  | [], entries => change entries
  | step :: path, entries =>
      match entries.lookup step with
      | some (.table implicit dotted inner) =>
          (changeAt change path inner).map fun inner =>
            entries.replace step (.table implicit dotted inner)
      | some (.tables last) =>
          (changeAt change path last).map fun last => entries.replace step (.tables last)
      | _ => none

end Entries

/-- A document under construction: its entries, and the header under which keys stand. -/
structure Document where
  entries : Entries
  header : List String
deriving Repr

namespace Document

/-- The document without entries. -/
def empty : Document :=
  { entries := [], header := [] }

/-- Enter a value under the present header. -/
def insert (document : Document) (key : List String) (value : Value) : Option Document :=
  (Entries.changeAt (·.insertKey key value) document.header document.entries).map fun entries =>
    { document with entries }

/-- Go on under the header of a table. -/
def openTable (document : Document) (header : List String) : Option Document :=
  (Entries.openTable header document.entries).map fun entries => { entries, header }

/-- Go on under the header of the next of several tables. -/
def openElement (document : Document) (header : List String) : Option Document :=
  (Entries.openElement header document.entries).map fun entries => { entries, header }

end Document

end Fabula.Toml
