import Fabula.Configuration
import Fabula.Script.Definition
import Fabula.Simulation
import Fabula.World.Opening

/-!
# Projects

A project is a configuration file with the three texts that it names: rules,
opening conditions and a lexicon.  It is read from a host, which is all that a
program needs of the system on which it runs.  Paths in a configuration are taken
from the folder in which its file stands, as that folder is seen from the one of
the host.
-/

namespace Fabula

/-! ## Hosts -/

/-- A system with files and a clock. -/
structure Host (m : Type → Type) where
  /-- The text of a file; nothing if it cannot be read, or holds no text. -/
  read : String → m (Option String)
  /-- Write a text into a file; the result is whether it could be written. -/
  write : String → String → m Bool
  /-- The present time, in seconds. -/
  now : m Nat

/-! ## Paths -/

namespace Path

/-- Whether a path is taken from wherever one stands. -/
def isRelative (path : String) : Bool :=
  path.toList.head? != some '/'

/-- Whether a segment of a path leads nowhere: an empty one, or a single dot. -/
def isIdle (segment : List Char) : Bool :=
  segment.isEmpty || segment == ['.']

/--
The segments of a path, last first, without those at the end that lead
nowhere: empty ones and single dots.  The first segment of a path always
leads somewhere.
-/
def dropIdle : List (List Char) → List (List Char)
  | [] => []
  | [first] => [first]
  | segment :: rest =>
      if isIdle segment then dropIdle rest else segment :: rest

/-- The folder in which a file stands; it is empty if the path is a single name. -/
def parent (path : String) : String :=
  let segments := dropIdle (path.toList.splitOn '/').reverse
  let above := dropIdle segments.tail
  if above == [[]] then "/" else String.ofList (['/'].intercalate above.reverse)

/-- A relative path, taken from a folder. -/
def join (folder path : String) : String :=
  if folder.isEmpty || !isRelative path then
    path
  else if folder.toList.getLast? == some '/' then
    folder ++ path
  else
    folder ++ "/" ++ path

/--
A path as it is seen from the folder in which it is taken: without the idle
segments that it begins with; nothing if it is not taken from there.
-/
def seenFromHere (path : String) : Option String :=
  if isRelative path then
    some (String.ofList (['/'].intercalate ((path.toList.splitOn '/').dropWhile isIdle)))
  else
    none

end Path

/-! ## Projects -/

namespace Project

variable {m : Type → Type} [Monad m]

/-- The text of a file that must be there. -/
def readFile (host : Host m) (path : String) : ExceptT Error m String := do
  match ← host.read path with
  | some text => return text
  | none => throw .unreadableFile

/-- A configuration whose relative paths are taken from a folder. -/
def relocate (folder : String) (configuration : Configuration) : Configuration :=
  configuration.mapPaths (Path.join folder)

/-- Read a configuration file; the relative paths in it are taken from a folder. -/
def readConfigurationFor (host : Host m) (folder path : String) :
    ExceptT Error m Configuration := do
  let text ← readFile host path
  let configuration ← liftM (Configuration.read text)
  return relocate folder configuration

/-- Read a configuration file; the paths in it are taken from its folder. -/
def readConfiguration (host : Host m) (path : String) : ExceptT Error m Configuration :=
  readConfigurationFor host (Path.parent path) path

/--
Read a configuration file; the paths in it are taken from its folder, as that
folder is seen from the one of the host.
-/
def readConfigurationHere (host : Host m) (path : String) : ExceptT Error m Configuration :=
  readConfigurationFor host (Path.parent ((Path.seenFromHere path).getD path)) path

/-- A world that begins at a time with a text of opening conditions. -/
def openWorld (time : Nat) (text : String) : Except Error World := do
  let world ← World.start time
  match World.load text world with
  | .ok () world => return world
  | .error error _ => throw error

/-- The seed of a configuration, or the present time. -/
def chooseSeed (host : Host m) (configuration : Configuration) : m Nat :=
  match configuration.seed with
  | some seed => pure seed
  | none => host.now

/-- Read all that a configuration names, and set up its simulation. -/
def prepare (host : Host m) (configuration : Configuration) : ExceptT Error m Simulation := do
  liftM configuration.validate
  let rules ← liftM (Script.readRules (← readFile host configuration.rules))
  let opening ← readFile host configuration.openingConditions
  let world ← liftM (openWorld configuration.startTime opening)
  let lexicon ← liftM (Lexicon.read (← readFile host configuration.lexicon))
  let seed ← liftM (chooseSeed host configuration)
  liftM (Simulation.create rules world lexicon configuration (.ofSeed (UInt64.ofNat seed)))

end Project

end Fabula
