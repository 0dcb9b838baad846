import Fabula.Chronicle
import Fabula.CommandLine
import Fabula.Lexicon
import Fabula.Project

/-!
# The program

The program reads a project, runs its simulation, and writes the report and,
if it is asked to, the chronicle.
-/

namespace Fabula.Program

open Fabula.CommandLine (Options Request)

variable {m : Type → Type} [Monad m]

/-- How a run of the program ends. -/
structure Outcome where
  status : Nat
  output : String
  complaint : Option String
deriving DecidableEq, Repr

/-- A run that ends well. -/
def Outcome.success (output : String) : Outcome :=
  { status := 0, output, complaint := none }

/-- A run that ends with a complaint. -/
def Outcome.failure (output complaint : String) : Outcome :=
  { status := 1, output, complaint := some ("Error: " ++ complaint) }

/-- A computation whose failure is reported as a complaint. -/
def complainOf {α : Type} (complaint : Error → String) (computation : ExceptT Error m α) :
    ExceptT String m α := do
  match ← computation.run with
  | .ok value => return value
  | .error error => throw (complaint error)

/-- A configuration in which the values of a command line replace others. -/
def override (options : Options) (configuration : Configuration) : Configuration :=
  { configuration with
    rules := options.rules.getD configuration.rules
    openingConditions := options.openingConditions.getD configuration.openingConditions
    lexicon := options.lexicon.getD configuration.lexicon
    frames := options.frames.getD configuration.frames
    seed := options.seed <|> configuration.seed }

/-- The configuration of a run: from its file, or else the default, and from the command line. -/
def configure (host : Host m) (options : Options) : ExceptT String m Configuration := do
  let configuration ←
    match options.config with
    | none => pure Configuration.default
    | some path =>
        complainOf (fun _ => "failed to load config " ++ path)
          (Project.readConfiguration host path)
  let configuration := override options configuration
  complainOf Error.message (liftM configuration.validate)
  return configuration

/-- Run the simulation of a project: the report, and the world in which it ends. -/
def simulate (host : Host m) (options : Options) : ExceptT String m (String × World) := do
  let configuration ← configure host options
  let simulation ←
    complainOf (fun _ => "failed to prepare simulation") (Project.prepare host configuration)
  match Simulation.run configuration.frames simulation with
  | .error _ _ => throw "simulation aborted"
  | .ok _ simulation =>
      match Report.render simulation.lexicon simulation.world with
      | .error _ => throw "failed to render report"
      | .ok report => return (report, simulation.world)

/-- Write the chronicle, if it is asked for; `output` has been written before. -/
def writeHistory (host : Host m) (options : Options) (world : World) (output : String) :
    m Outcome := do
  match options.history with
  | none => return .success output
  | some path =>
      if ← host.write path world.chronicle.toJson then
        return .success output
      else
        return .failure output ("failed to write history to " ++ path)

/-- Run the program with options. -/
def runOptions (host : Host m) (options : Options) : m Outcome := do
  match ← (simulate host options).run with
  | .error complaint => return .failure "" complaint
  | .ok (report, world) =>
      match options.output with
      | none => writeHistory host options world report
      | some path =>
          if ← host.write path report then
            writeHistory host options world ""
          else
            return .failure "" ("failed to write report to " ++ path)

/-- Run the program with a command line. -/
def run (host : Host m) (arguments : List String) : m Outcome :=
  match CommandLine.read arguments with
  | .refused => return { status := 2, output := "", complaint := none }
  | .help => return .success CommandLine.helpText
  | .version => return .success CommandLine.versionText
  | .run options => runOptions host options

end Fabula.Program
