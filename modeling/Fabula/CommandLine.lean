import Fabula.Text.Numeral
import Fabula.Text.Pieces

/-!
# The command line

Options are written as `--name VALUE`, as `--name=VALUE`, or with a single
letter as `-n VALUE`, `-nVALUE` or `-n=VALUE`; letters without values can be
written together.  No option is given twice, and nothing but options is given.
-/

namespace Fabula.CommandLine

open Fabula.Text

/-- The options that take a value. -/
inductive Switch where
  | config
  | rules
  | openingConditions
  | lexicon
  | frames
  | seed
  | output
  | history
deriving DecidableEq, Repr

/-- The values that were given. -/
structure Options where
  config : Option String
  rules : Option String
  openingConditions : Option String
  lexicon : Option String
  frames : Option Nat
  seed : Option Nat
  output : Option String
  history : Option String
deriving DecidableEq, Repr

/-- What a command line asks for. -/
inductive Request where
  | run (options : Options)
  | help
  | version
  | refused
deriving DecidableEq, Repr

/-- The options of an empty command line. -/
def Options.none : Options :=
  { config := .none
    rules := .none
    openingConditions := .none
    lexicon := .none
    frames := .none
    seed := .none
    output := .none
    history := .none }

/-- The names of the options that take a value. -/
def longNames : List (String × Switch) :=
  [("config", .config), ("rules", .rules), ("initial-conditions", .openingConditions),
    ("lexicon", .lexicon), ("frames", .frames), ("seed", .seed), ("output", .output),
    ("history-json", .history)]

/-- The letters of the options that take a value. -/
def letters : List (Char × Switch) :=
  [('c', .config), ('f', .frames), ('s', .seed), ('o', .output)]

/-- Set an option that must not be set already. -/
def setOnce {α : Type} (old new : Option α) : Option (Option α) :=
  if old.isSome || new.isNone then none else some new

/-- A path, which must not be empty. -/
def readPath (text : String) : Option String :=
  if text.isEmpty then none else some text

/-- A count; zero may be written with a minus sign. -/
def readCount (text : String) : Option Nat :=
  match text.toList with
  | '-' :: digits => readDigits? 1 digits
  | digits => readNat? wordBound digits

/-- Options with one more value, unless the value is unusable or given already. -/
def Options.set (options : Options) (switch : Switch) (text : String) : Option Options :=
  match switch with
  | .config =>
      (setOnce options.config (readPath text)).map fun config => { options with config }
  | .rules =>
      (setOnce options.rules (readPath text)).map fun rules => { options with rules }
  | .openingConditions =>
      (setOnce options.openingConditions (readPath text)).map fun openingConditions =>
        { options with openingConditions }
  | .lexicon =>
      (setOnce options.lexicon (readPath text)).map fun lexicon => { options with lexicon }
  | .frames =>
      (setOnce options.frames (readCount text)).map fun frames => { options with frames }
  | .seed =>
      (setOnce options.seed (readNat? seedBound text.toList)).map fun seed =>
        { options with seed }
  | .output =>
      (setOnce options.output (readPath text)).map fun output => { options with output }
  | .history =>
      (setOnce options.history (readPath text)).map fun history => { options with history }

/-- What one argument comes to. -/
inductive Step where
  /-- The argument is complete. -/
  | next (options : Options)
  /-- The next argument is the value of an option. -/
  | awaiting (switch : Switch)
  /-- The command line needs no further reading. -/
  | done (request : Request)
deriving DecidableEq, Repr

/-- Set an option to a value. -/
def Step.ofValue (options : Options) (switch : Switch) (text : String) : Step :=
  match options.set switch text with
  | some options => .next options
  | none => .done .refused

/-- Read an argument behind its two dashes. -/
def readLong (options : Options) (argument : List Char) : Step :=
  let (name, value) :=
    match cut? ['='] argument with
    | some (name, value) => (String.ofList name, some (String.ofList value))
    | none => (String.ofList argument, none)
  match longNames.lookup name, value with
  | some switch, some value => .ofValue options switch value
  | some switch, none => .awaiting switch
  | none, some _ => .done .refused
  | none, none =>
      if name == "verbose" then
        .next options
      else if name == "help" then
        .done .help
      else if name == "version" then
        .done .version
      else
        .done .refused

/-- Read an argument behind its single dash, letter by letter. -/
def readShort (options : Options) : List Char → Step
  | [] => .next options
  | letter :: rest =>
      match letters.lookup letter, rest with
      | some switch, [] => .awaiting switch
      | some switch, '=' :: value => .ofValue options switch (String.ofList value)
      | some switch, value => .ofValue options switch (String.ofList value)
      | none, rest =>
          if letter == 'v' then
            readShort options rest
          else if letter == 'h' then
            .done .help
          else if letter == 'V' then
            .done .version
          else
            .done .refused

/-- Read one argument. -/
def readArgument (options : Options) (argument : String) : Step :=
  match argument.toList with
  | '-' :: '-' :: long => readLong options long
  | '-' :: letter :: rest => readShort options (letter :: rest)
  | _ => .done .refused

/-- Whether an argument can be the value of the option before it. -/
def isValue (argument : String) : Bool :=
  argument == "-" || argument.toList.head? != some '-'

/-- Read arguments, the first of which may be the value of an option. -/
def readArguments (options : Options) : Option Switch → List String → Request
  | none, [] => .run options
  | some _, [] => .refused
  | some switch, argument :: rest =>
      if isValue argument then
        match options.set switch argument with
        | some options => readArguments options none rest
        | none => .refused
      else
        .refused
  | none, argument :: rest =>
      if argument == "--" then
        if rest.isEmpty then .run options else .refused
      else
        match readArgument options argument with
        | .next options => readArguments options none rest
        | .awaiting switch => readArguments options (some switch) rest
        | .done request => request

/-- Read a command line. -/
def read (arguments : List String) : Request :=
  readArguments Options.none none arguments

/-- What the program answers when it is asked for its version. -/
def versionText : String :=
  "simulator 0.1.0\n"

/-- What the program answers when it is asked for help. -/
def helpText : String :=
  "Run a stochastic rule-language simulation over a semantic network\n\n" ++
  "Usage: simulator [OPTIONS]\n\n" ++
  "Options:\n" ++
  "  -c, --config <CONFIG>\n          Simulation config file (TOML)\n" ++
  "      --rules <RULES>\n          Rules file\n" ++
  "      --initial-conditions <INITIAL_CONDITIONS>\n          Initial-conditions file\n" ++
  "      --lexicon <LEXICON>\n          Lexical-expressions file\n" ++
  "  -f, --frames <FRAMES>\n          Number of ticks to simulate\n" ++
  "  -s, --seed <SEED>\n          Random seed (default: current time)\n" ++
  "  -o, --output <OUTPUT>\n          Write the narrative report here instead of stdout\n" ++
  "      --history-json <HISTORY_JSON>\n          Also dump the per-tick history as JSON\n" ++
  "  -v, --verbose...\n" ++
  "          Log more (-v for rule firings, -vv for probability accounting)\n" ++
  "  -h, --help\n          Print help\n" ++
  "  -V, --version\n          Print version\n"

end Fabula.CommandLine
