import Fabula.Rule
import Fabula.Toml.Reader

/-!
# Configurations

What a simulation needs to know besides its texts, with a default for every
value.  A configuration is written as a TOML document.  Keys that mean nothing are
ignored, and values that are not given keep their defaults; a value of the wrong
type, or a number that is out of range, makes the whole text unreadable.
-/

namespace Fabula

/-- The values that configure a simulation. -/
structure Configuration where
  /-- The clock reading of the first frame. -/
  startTime : Nat
  /-- The minutes that pass in a tick. -/
  timestep : Nat
  /-- The number of ticks. -/
  frames : Nat
  /-- The seed of the random source; without one, the present time. -/
  seed : Option Nat
  /-- The bits of the threshold at which an increment decides by itself. -/
  thresholdBits : UInt64
  /-- Whether two slots of a rule may have the same noun. -/
  allowDuplicates : Bool
  /-- The path of the rules. -/
  rules : String
  /-- The path of the opening conditions. -/
  openingConditions : String
  /-- The path of the lexicon. -/
  lexicon : String
deriving DecidableEq, Repr

namespace Configuration

/-- The configuration that says nothing. -/
def default : Configuration :=
  { startTime := 1700
    timestep := 10
    frames := 30
    seed := none
    thresholdBits := (10.0 : Float).toBits
    allowDuplicates := true
    rules := "content/rules.txt"
    openingConditions := "content/initial_conditions.txt"
    lexicon := "content/lexicon.txt" }

/-- The configuration with a change made to each of its three paths. -/
def mapPaths (change : String → String) (configuration : Configuration) : Configuration :=
  { configuration with
    rules := change configuration.rules
    openingConditions := change configuration.openingConditions
    lexicon := change configuration.lexicon }

/-- The threshold as a number. -/
def threshold (configuration : Configuration) : Float :=
  Float.ofBits configuration.thresholdBits

/-- How rules are evaluated under a configuration. -/
def settings (configuration : Configuration) : Settings :=
  { threshold := configuration.threshold
    allowDuplicates := configuration.allowDuplicates }

/--
Refuse a step of no minutes, a start that is no clock time, and a threshold
that is not positive.
-/
def validate (configuration : Configuration) : Except Error Unit :=
  if configuration.timestep == 0 then
    .error (.unusableConfiguration .noTimestep)
  else if !isClockTime configuration.startTime then
    .error (.unusableConfiguration (.badStart configuration.startTime))
  else if !(0.0 < configuration.threshold) then
    .error (.unusableConfiguration .badThreshold)
  else
    .ok ()

/-! ## Reading configurations -/

open Fabula.Toml

/-- The value of a key: what `read` makes of it, or a default if the key is not given. -/
def field {α : Type} (entries : Entries) (key : String) (default : α)
    (read : Value → Option α) : Option α :=
  match entries.lookup key with
  | none => some default
  | some (.value value) => read value
  | some _ => none

/-- A value as a number below a bound. -/
def natBelow (bound : Nat) : Value → Option Nat
  | .integer number => if 0 ≤ number && number < bound then some number.toNat else none
  | _ => none

/-- A value as the bits of a floating-point number; integers are rounded to one. -/
def floatBits : Value → Option UInt64
  | .float bits => some bits
  | .integer number => some (Float.ofInt number).toBits
  | _ => none

/-- A value as a truth value. -/
def truth : Value → Option Bool
  | .boolean truth => some truth
  | _ => none

/-- A value as a path. -/
def path : Value → Option String
  | .text text => some text
  | _ => none

/-- The configuration that entries describe. -/
def ofEntries (entries : Entries) : Option Configuration := do
  let startTime ← field entries "start_time" default.startTime (natBelow Text.wordBound)
  let timestep ← field entries "timestep" default.timestep (natBelow Text.wordBound)
  let frames ← field entries "frames" default.frames (natBelow Text.wordBound)
  let seed ← field entries "seed" default.seed fun value =>
    (natBelow Text.seedBound value).map some
  let thresholdBits ←
    field entries "short_circuit_threshold" default.thresholdBits floatBits
  let allowDuplicates ← field entries "allow_duplicate_bindings" default.allowDuplicates truth
  let rules ← field entries "rules" default.rules path
  let openingConditions ← field entries "initial_conditions" default.openingConditions path
  let lexicon ← field entries "lexicon" default.lexicon path
  return {
    startTime
    timestep
    frames
    seed
    thresholdBits
    allowDuplicates
    rules
    openingConditions
    lexicon }

/-- Read a configuration. -/
def read (text : String) : Except Error Configuration :=
  match (Toml.read? text).bind fun document => ofEntries document.entries with
  | some configuration => .ok configuration
  | none => .error .unreadableConfiguration

end Configuration

end Fabula
