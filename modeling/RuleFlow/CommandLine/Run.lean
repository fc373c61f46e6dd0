import RuleFlow.CommandLine.Effective
import RuleFlow.Diagnostic.File
import RuleFlow.Graph.Json
import RuleFlow.Graph.Render
import RuleFlow.Reader.Diagnosis
import RuleFlow.Settings.Document

/-!
# Running the program

`CommandLine.run` is the whole program over a host, which reads and writes files, knows the
environment and has a standard input. The program compiles rules and writes the wired graph; it
can also write a new configuration, show its settings, or list the profiles. What it tells its
caller is the `Outcome`: texts for both outputs and an exit status.
-/

namespace RuleFlow

/-- What the program needs from the machine that it runs on. -/
structure Host (m : Type → Type) where
  /-- The text of a file. -/
  load : String → m (Except FileError String)
  /-- Gives a file a new text. -/
  store : String → String → m (Except FileError Unit)
  /-- The text of the standard input. -/
  input : m (Except FileError String)
  /-- The value of a name in the environment. -/
  environment : String → m (Option String)

/-- What a run leaves to its caller. -/
structure Outcome where
  /-- The exit status. -/
  status : Nat := 0
  /-- The text for the standard output. -/
  output : String := ""
  /-- The text for the standard error output. -/
  errors : String := ""
  deriving DecidableEq, Inhabited

namespace CommandLine

/-- Why a run fails. -/
inductive Failure where
  /-- A part of the program has a diagnostic. -/
  | diagnosed (d : Diagnostic)
  /-- A file cannot be used. -/
  | file (doing : String) (error : FileError)

namespace Failure

/-- The failure in words. -/
def message : Failure → String
  | .diagnosed d => d.display
  | .file doing error => doing ++ ": " ++ error.message

/-- The exit status of a run that fails. -/
def status : Failure → Nat
  | .diagnosed d => d.code.exitStatus
  | .file .. => 1

/-- The line that tells of the failure. A diagnostic is written as JSON when a report was
asked for. -/
def line (a : Arguments) : Failure → String
  | .diagnosed d => (if a.report then d.jsonText else "error: " ++ d.display) ++ "\n"
  | f => "error: " ++ f.message ++ "\n"

/-- The outcome of a run that fails. -/
def outcome (a : Arguments) (f : Failure) : Outcome :=
  { status := f.status, errors := f.line a }

end Failure

/-- The failure of settings. -/
def ofSettings (e : SettingsError) : Failure := .diagnosed e.diagnostic

/-! ## The configuration -/

/-- A path made of a directory and a name in it. -/
def inDirectory (directory name : String) : String :=
  if directory.toList.getLast? = some '/' then directory ++ name else directory ++ "/" ++ name

/-- The directory of the user's configurations: the one that is named, when its path begins at
the root, else the one below the home directory. -/
def configDirectory? (named home : Option String) : Option String :=
  match named with
  | some directory =>
    if directory.toList.head? = some '/' then some directory
    else home.map (inDirectory · ".config")
  | none => home.map (inDirectory · ".config")

/-- The files that may hold the configuration; the first that there is holds it. -/
def configPaths (named home : Option String) : List String :=
  ["./rete-topology.toml"] ++
  ((configDirectory? named home).map fun directory =>
    inDirectory (inDirectory directory "rete-topology") "config.toml").toList ++
  (home.map fun directory =>
    inDirectory (inDirectory directory ".rete-topology") "config.toml").toList ++
  ["/etc/rete-topology/config.toml"]

/-- The settings of a file that was read. -/
def settingsOf (path : String) : Except FileError String → Except SettingsError Settings
  | .ok text => Settings.ofText path text
  | .error e => .error (.unreadable path e.message)

section

variable {m : Type → Type} [Monad m]

/-- The settings of the first file that there is, or the defaults. -/
def searchSettings (host : Host m) : List String → m (Except SettingsError Settings)
  | [] => pure (.ok {})
  | path :: paths => do
    match ← host.load path with
    | .ok text => pure (Settings.ofText path text)
    | .error e =>
      if e.isAbsent then searchSettings host paths
      else pure (.error (.unreadable path e.message))

/-- A name of the environment that has a value, and not the empty one. -/
def nonempty (value : Option String) : Option String := value.filter (!·.isEmpty)

/-- The settings of the configuration. -/
def baseSettings (host : Host m) (a : Arguments) : m (Except SettingsError Settings) := do
  match a.config with
  | some path => return settingsOf path (← host.load path)
  | none =>
    let named ← host.environment "XDG_CONFIG_HOME"
    let home ← host.environment "HOME"
    searchSettings host (configPaths named (nonempty home))

/-- The settings of a run. -/
def loadSettings (host : Host m) (a : Arguments) : m (Except SettingsError Settings) := do
  match ← baseSettings host a with
  | .error e => return .error e
  | .ok base =>
    let values ← Settings.environmentNames.mapM fun name => do
      return (name, ← host.environment name)
    return a.effective (fun name => (values.lookup name).join) base

/-! ## The rules -/

/-- The rules of files in order. Prefixes of a file are known in the files behind it. -/
def readFiles (host : Host m) (ps : Prefixes) : List String → m (Except Failure (List Rule))
  | [] => pure (.ok [])
  | path :: paths => do
    match ← host.load path with
    | .error e => return .error (.file ("Failed to read file: " ++ path) e)
    | .ok text =>
      match Reader.document ps text with
      | (_, .error e) => return .error (.diagnosed (e.diagnostic.withLocation path))
      | (ps, .ok rules) => return (← readFiles host ps paths).map (rules ++ ·)

/-- The rules of a run, from its files or from the standard input. -/
def readRules (host : Host m) (a : Arguments) (s : Settings) : m (Except Failure (List Rule)) := do
  if a.inputs.isEmpty then
    match ← host.input with
    | .error e => return .error (.file "Failed to read from stdin" e)
    | .ok text =>
      match (Reader.document s.rulePrefixes text).2 with
      | .error e => return .error (.diagnosed e.diagnostic)
      | .ok rules => return .ok rules
  else readFiles host s.rulePrefixes a.inputs

/-! ## The output -/

/-- What is told about a compilation: the report as JSON when it was asked for, else a line for
every warning and every rule that is left out, unless only errors are told. -/
def notes (a : Arguments) (r : Report) : String :=
  if a.report then r.toJson.pretty ++ "\n"
  else if a.quiet then ""
  else
    Text.concat (r.warnings.map fun w => "warning: " ++ w.message ++ "\n") ++
    Text.concat (r.skipped.map fun s =>
      "skipped " ++ s.rule ++ ": " ++ s.diagnostic.display ++ "\n")

/-- The graph in a format. -/
def written (g : Graph) : OutputFormat → String
  | .summary => g.summary
  | .json => g.jsonText ++ "\n"
  | .dot => g.dot

/-- Writes a text where the arguments want it. -/
def deliver (host : Host m) (a : Arguments) (text : String) : m Outcome := do
  match a.output with
  | none => return { output := text }
  | some path =>
    match ← host.store path text with
    | .ok () => return {}
    | .error e => return (Failure.file ("Failed to write output: " ++ path) e).outcome a

/-- Compiles rules, wires them and writes the graph. -/
def process (host : Host m) (a : Arguments) (s : Settings) (rules : List Rule) : m Outcome := do
  match Network.compile s.compiling rules with
  | .error e => return (Failure.diagnosed e.diagnostic).outcome a
  | .ok network =>
    let told := notes a network.report
    let outcome ← match network.wire s.wiring s.graph with
      | .error e => pure ((Failure.diagnosed e.diagnostic).outcome a)
      | .ok g => deliver host a (written g s.format)
    return { outcome with errors := told ++ outcome.errors }

/-- The profiles, one a line. -/
def profileLines (s : Settings) : String :=
  Text.concat (s.availableProfiles.map fun (name, description) =>
    Text.padRight 12 name ++ " " ++ description ++ "\n")

/-- Does what the arguments ask for. -/
def execute (host : Host m) (a : Arguments) : m Outcome := do
  if a.initConfig then deliver host a Settings.defaultText
  else
    match ← loadSettings host a with
    | .error e => return (ofSettings e).outcome a
    | .ok s =>
      if a.printConfig then
        match s.toText with
        | .error e => return (ofSettings e).outcome a
        | .ok text => deliver host a text
      else if a.listProfiles then return { output := profileLines s }
      else
        match ← readRules host a s with
        | .error f => return f.outcome a
        | .ok rules => process host a s rules

/-- The overview of the options. -/
def usage : String :=
  Text.concat (["Compile forward-chaining rules into a dataflow topology", "",
    "Usage: rete-topology [OPTIONS] [FILE]...", "",
    "  -f, --format <summary|json|dot>", "  -o, --output <PATH>", "  -c, --config <PATH>",
    "  -p, --profile <NAME>", "      --name <NAME>", "      --source <NAME>",
    "      --axiom-source <NAME>", "      --workers <N>", "      --parallelism <N>",
    "      --max-parallelism <N>", "      --feedback <shuffle|all>", "      --report",
    "      --init-config", "      --print-config", "      --list-profiles", "  -v, --verbose",
    "  -q, --quiet", "  -h, --help", "  -V, --version"].map (· ++ "\n"))

/-- Runs the program with the arguments of its command line. -/
def run (host : Host m) (arguments : List String) : m Outcome :=
  match Arguments.ofList arguments with
  | .ok a => execute host a
  | .error .version => pure { output := "rete-topology 0.1.0\n" }
  | .error .help => pure { output := usage }
  | .error .misuse => pure { status := 2, errors := usage }

end

end CommandLine
end RuleFlow
