import RuleFlow.Settings.Basic
import RuleFlow.Settings.Error
import RuleFlow.Toml.Reader
import RuleFlow.Toml.Writer

/-!
# Settings as TOML

A configuration has a table for each area of the settings. What a configuration leaves out has
its default, and names that mean nothing are passed over.
-/

namespace RuleFlow.Settings

/-! ## Reading -/

/-- A field whose absence leaves the value as it is. -/
def orElse? {α : Type} (value : α) (read? : Toml → Option α) : Option Toml → Option α
  | none => some value
  | some t => read? t

/-- A field whose absence stands for no value. -/
def optional? {α : Type} (read? : Toml → Option α) : Option Toml → Option (Option α)
  | none => some none
  | some t => (read? t).map some

/-- The choice among named values. -/
def choice? {α : Type} (ofName? : String → Option α) (t : Toml) : Option α :=
  t.choice?.bind ofName?

/-- Reads the general area. -/
def readGeneral? (s : Settings) (t : Toml) : Option Settings := do
  let [format, logLevel] ← t.record? ["format", "log_level"] | none
  some { s with
    format := ← orElse? s.format (choice? OutputFormat.ofName?) format
    logLevel := ← orElse? s.logLevel (choice? LogLevel.ofName?) logLevel }

/-- Reads the area of the topology. -/
def readTopology? (s : Settings) (t : Toml) : Option Settings := do
  let [name, source, axiomSource, conflictSet, workers, maxParallelism, feedback] ← t.record?
    ["name", "source", "axiom_source", "conflict_set", "workers", "max_parallelism", "feedback"]
    | none
  some { s with
    name := ← orElse? s.name Toml.string? name
    workers := ← orElse? s.workers Toml.natural? workers
    compiling := { s.compiling with
      source := ← orElse? s.compiling.source Toml.string? source
      axiomSource := ← orElse? s.compiling.axiomSource Toml.string? axiomSource
      conflictSet := ← orElse? s.compiling.conflictSet Toml.string? conflictSet }
    wiring := { s.wiring with
      maxParallelism := ← orElse? s.wiring.maxParallelism Toml.natural? maxParallelism
      feedback := ← orElse? s.wiring.feedback (choice? Feedback.ofName?) feedback } }

/-- Reads the area of the numbers of instances. -/
def readParallelism? (s : Settings) (t : Toml) : Option Settings := do
  let [parallelism, filters, joins, terminals] ←
    t.record? ["default", "filter", "join", "terminal"] | none
  some { s with
    wiring := { s.wiring with
      parallelism := ← orElse? s.wiring.parallelism Toml.natural? parallelism
      filters := ← optional? Toml.natural? filters
      joins := ← optional? Toml.natural? joins
      terminals := ← optional? Toml.natural? terminals } }

/-- Reads the area of the joins. -/
def readJoin? (s : Settings) (t : Toml) : Option Settings := do
  let [capacity, seconds] ← t.record? ["window_capacity", "window_range_secs"] | none
  let window := s.compiling.window
  some { s with
    compiling := { s.compiling with
      window := {
        capacity := ← orElse? window.capacity Toml.natural? capacity
        seconds := ← orElse? window.seconds Toml.natural? seconds } } }

/-- Reads the area of the compiler. -/
def readCompiler? (s : Settings) (t : Toml) : Option Settings := do
  let [bound, builtins] ← t.record? ["search_bound", "unsupported_builtins"] | none
  some { s with
    compiling := { s.compiling with
      searchBound := ← orElse? s.compiling.searchBound Toml.natural? bound
      unsupportedBuiltins :=
        ← orElse? s.compiling.unsupportedBuiltins Toml.strings? builtins } }

/-- The values of a table under their names. -/
def tableOf? {α : Type} (read? : Toml → Option α) (t : Toml) : Option (Table α) := do
  let members ← t.members?
  let pairs ← members.mapM fun (name, value) => (read? value).map (name, ·)
  some (Table.ofList pairs)

/-- Reads a profile. -/
def profile? (t : Toml) : Option Profile := do
  let [workers, parallelism, maxParallelism, description] ←
    t.record? ["workers", "parallelism", "max_parallelism", "description"] | none
  some {
    workers := ← optional? Toml.natural? workers
    parallelism := ← optional? Toml.natural? parallelism
    maxParallelism := ← optional? Toml.natural? maxParallelism
    description := ← optional? Toml.string? description }

/-- The settings that a document gives. -/
def ofDocument? (document : Toml.Members) : Option Settings := do
  let [general, topology, parallelism, join, compiler, prefixes, profiles] ←
    (Toml.table .header document).record?
      ["general", "topology", "parallelism", "join", "compiler", "prefixes", "profiles"]
    | none
  let s : Settings := {}
  let s ← orElse? s s.readGeneral? general
  let s ← orElse? s s.readTopology? topology
  let s ← orElse? s s.readParallelism? parallelism
  let s ← orElse? s s.readJoin? join
  let s ← orElse? s s.readCompiler? compiler
  some { s with
    prefixes := ← orElse? s.prefixes (tableOf? Toml.string?) prefixes
    profiles := ← orElse? s.profiles (tableOf? profile?) profiles }

/-- The settings that the text of a file gives. -/
def ofText (path text : String) : Except SettingsError Settings :=
  match (Toml.ofText? text).bind ofDocument? with
  | some s => .ok s
  | none => .error (.badText path)

/-! ## Writing -/

/-- A member for a value that may be missing. -/
def ifGiven {α : Type} (name : String) (write : α → Toml) : Option α → Toml.Members
  | none => []
  | some value => [(name, write value)]

/-- A natural number. -/
def natural (n : Nat) : Toml := .integer n

/-- A profile as a table. -/
def ofProfile (p : Profile) : Toml :=
  .table .header (ifGiven "workers" natural p.workers ++
    ifGiven "parallelism" natural p.parallelism ++
    ifGiven "max_parallelism" natural p.maxParallelism ++
    ifGiven "description" .string p.description)

/-- The settings as a document. -/
def toDocument (s : Settings) : Toml.Members :=
  let area (members : Toml.Members) : Toml := .table .header members
  [("general", area [("format", .string s.format.name), ("log_level", .string s.logLevel.name)]),
    ("topology", area [("name", .string s.name), ("source", .string s.compiling.source),
      ("axiom_source", .string s.compiling.axiomSource),
      ("conflict_set", .string s.compiling.conflictSet), ("workers", natural s.workers),
      ("max_parallelism", natural s.wiring.maxParallelism),
      ("feedback", .string s.wiring.feedback.name)]),
    ("parallelism", area ([("default", natural s.wiring.parallelism)] ++
      ifGiven "filter" natural s.wiring.filters ++ ifGiven "join" natural s.wiring.joins ++
      ifGiven "terminal" natural s.wiring.terminals)),
    ("join", area [("window_capacity", natural s.compiling.window.capacity),
      ("window_range_secs", natural s.compiling.window.seconds)]),
    ("compiler", area [("search_bound", natural s.compiling.searchBound),
      ("unsupported_builtins", .array (s.compiling.unsupportedBuiltins.map .string))]),
    ("prefixes", area (s.prefixes.map Toml.string).entries),
    ("profiles", area (s.profiles.map ofProfile).entries)]

/-- The numbers in the settings. -/
def numbers (s : Settings) : List Nat :=
  [s.workers, s.wiring.maxParallelism, s.wiring.parallelism] ++ s.wiring.filters.toList ++
  s.wiring.joins.toList ++ s.wiring.terminals.toList ++
  [s.compiling.window.capacity, s.compiling.window.seconds, s.compiling.searchBound] ++
  s.profiles.values.flatMap fun p =>
    p.workers.toList ++ p.parallelism.toList ++ p.maxParallelism.toList

/-- The settings as a text, unless one of the numbers is too large for a whole number. -/
def toText (s : Settings) : Except SettingsError String :=
  if s.numbers.all fun n => (n : Int) < Toml.Lexeme.integerLimit then
    .ok (Toml.write s.toDocument)
  else .error .tooLarge

/-! ## The text of a new configuration -/

/-- The lines of a new configuration. -/
def defaultLines : List String :=
  ["# rete-topology configuration file",
    "",
    "[general]",
    "# Output format: summary, json, dot",
    "format = \"summary\"",
    "# Logging level: quiet, normal, verbose, debug",
    "log_level = \"normal\"",
    "",
    "[topology]",
    "# Topology name handed to the engine",
    "name = \"rete-topology\"",
    "# Raw-fact source and axiom source identifiers",
    "source = \"source\"",
    "axiom_source = \"axioms\"",
    "# Name of the global conflict-set operator",
    "conflict_set = \"conflict_set\"",
    "# Engine workers",
    "workers = 2",
    "# Ceiling applied to every operator's parallelism",
    "max_parallelism = 4",
    "# Conflict set -> filter feedback grouping: shuffle, all",
    "feedback = \"shuffle\"",
    "",
    "[parallelism]",
    "default = 2",
    "# filter = 2",
    "# join = 4",
    "# terminal = 1",
    "",
    "[join]",
    "# Tuples retained per join side",
    "window_capacity = 5000",
    "# Maximum tuple age (seconds)",
    "window_range_secs = 900",
    "",
    "[compiler]",
    "# Tie-break orderings tried per canonicalized clause list",
    "search_bound = 720",
    "# Builtins reported as unsupported in a streaming topology",
    "unsupported_builtins = [\"drop\", \"table\", \"tableAll\", \"remove\", \"hide\"]",
    "",
    "[prefixes]",
    "# ex = \"http://example.org/\"",
    "",
    "# Custom profiles can be defined like this:",
    "# [profiles.staging]",
    "# workers = 3",
    "# parallelism = 3",
    "# max_parallelism = 6",
    "# description = \"Staging cluster\""]

/-- The text of a new configuration, which says what the defaults are. -/
def defaultText : String := Text.concat (defaultLines.map (· ++ "\n"))

end RuleFlow.Settings
