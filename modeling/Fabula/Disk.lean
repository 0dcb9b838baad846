import Fabula.Project

/-!
# Disks in memory

A small disk as a value: files in folders, one folder from which relative paths
are taken, and the devices that stand for what a program reads and prints.  It
serves as a host on which programs run without touching a real disk.
-/

namespace Fabula

/-- A disk: its files, and what has been written to the device of printed output. -/
structure Disk where
  /-- Files by the names that lead to them from the root; one without a text holds other bytes. -/
  files : List (List String × Option String)
  /-- The text that has been written to the device of printed output. -/
  printed : String
deriving Repr

namespace Disk

/-! ## Names -/

/--
The names that lead to the folder from which relative paths are taken.  It
stands in the folder of temporary files, under a name that no path can spell.
-/
def home : List String := ["tmp", ""]

/-- Where a segment of a path leads.  The root is its own parent. -/
def step (names : List String) (segment : String) : List String :=
  if Path.isIdle segment.toList then names
  else if segment == ".." then names.dropLast
  else names ++ [segment]

/-- The segments of a path. -/
def segments (path : String) : List String :=
  (path.toList.splitOn '/').map String.ofList

/-- The names at which a path begins. -/
def start (path : String) : List String :=
  if Path.isRelative path then home else []

/-! ## Devices -/

/-- The devices of a disk. -/
inductive Device where
  /-- A file that is always empty, whatever is written into it. -/
  | empty
  /-- What is printed. -/
  | output
  /-- What is said about errors. -/
  | complaints
deriving DecidableEq, Repr

/-- The folder of the devices. -/
def deviceFolder : List String := ["dev"]

/-- The device that has certain names; nobody types, so that input is empty. -/
def device? (names : List String) : Option Device :=
  [(["dev", "null"], .empty), (["dev", "stdin"], .empty), (["dev", "stdout"], .output),
    (["dev", "stderr"], Device.complaints)].lookup names

/-! ## Files -/

/-- The disk with a text, or other bytes, in the file with given names. -/
def put (disk : Disk) (names : List String) (text : Option String) : Disk :=
  { disk with files := disk.files.filter (fun (file, _) => file != names) ++ [(names, text)] }

/-- The disk that holds files with given paths; a later one replaces an earlier one. -/
def ofList (files : List (String × Option String)) : Disk :=
  files.foldl (fun disk (path, text) => disk.put ((segments path).foldl step (start path)) text)
    ⟨[], ""⟩

/-- Whether names lead to a folder. -/
def isFolder (disk : Disk) (names : List String) : Bool :=
  names.isPrefixOf home || names == deviceFolder || disk.files.any fun (file, _) =>
    names.isPrefixOf file && names.length < file.length

/-- Follow the segments of a path through folders that exist; the last name may be new. -/
def follow (disk : Disk) (names : List String) : List String → Option (List String)
  | [] => some names
  | segment :: rest =>
      if disk.isFolder names then disk.follow (step names segment) rest else none

/-- The greatest length of a name, in bytes. -/
def nameLimit : Nat := 255

/-- The greatest length of a path, in bytes. -/
def pathLimit : Nat := 4095

/-- Whether neither a path nor a name in it is too long. -/
def isUsable (path : String) : Bool :=
  path.utf8ByteSize ≤ pathLimit &&
    (segments path).all fun name => name.utf8ByteSize ≤ nameLimit

/-- The names to which a path leads. -/
def resolve (disk : Disk) (path : String) : Option (List String) :=
  if isUsable path then disk.follow (start path) (segments path) else none

/-- The text of the file to which a path leads. -/
def read (disk : Disk) (path : String) : Option String := do
  let names ← disk.resolve path
  match device? names with
  | some .empty => some ""
  | some _ => none
  | none => (disk.files.lookup names).join

/-- Whether a file may be made with given names: in the folder of temporary files, or below. -/
def mayHold (disk : Disk) (names : List String) : Bool :=
  home.dropLast.isPrefixOf names && !disk.isFolder names

/-- The disk with a text in the file to which a path leads. -/
def write (disk : Disk) (path text : String) : Option Disk := do
  let names ← disk.resolve path
  match device? names with
  | some .output => some { disk with printed := disk.printed ++ text }
  | some _ => some disk
  | none => if disk.mayHold names then some (disk.put names (some text)) else none

/-- A disk as a host, at the beginning of time. -/
def host : Host (StateM Disk) where
  read path := fun disk => (disk.read path, disk)
  write path text := fun disk =>
    match disk.write path text with
    | some disk => (true, disk)
    | none => (false, disk)
  now := pure 0

/-- The size, in bytes, from which on a part of a line is printed before the line is complete. -/
def heldSize : Nat := 1024

/--
A printed text, cut into what is seen at once and what is seen at the end.  A
line is seen as soon as it is complete, and what follows the last one is held
back until the program ends, unless it is long.
-/
def heldBack (output : String) : String × String :=
  let unfinished := (output.toList.reverse.takeWhile fun c => c != '\n').reverse
  let complete := output.toList.take (output.toList.length - unfinished.length)
  let rest := String.ofList unfinished
  if rest.utf8ByteSize < heldSize then (String.ofList complete, rest) else (output, "")

/--
All that is seen of the output of a program that prints a text and writes to
the device of printed output afterwards.
-/
def shown (disk : Disk) (output : String) : String :=
  let (seen, held) := heldBack output
  seen ++ disk.printed ++ held

end Disk

end Fabula
