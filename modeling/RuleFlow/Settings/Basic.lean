import RuleFlow.Graph.Wiring
import RuleFlow.Reader.Prefixes

/-!
# Settings

The settings say how rules are compiled and wired and how the graph is written. They also give
prefixes to rule texts, and profiles: named sets of sizes for a deployment, of which two are
built in.
-/

namespace RuleFlow

/-- How a graph is written. -/
inductive OutputFormat where
  /-- In words. -/
  | summary
  /-- As JSON. -/
  | json
  /-- In the DOT language. -/
  | dot
  deriving DecidableEq, Inhabited

namespace OutputFormat

/-- The formats. -/
def all : List OutputFormat := [.summary, .json, .dot]

/-- The name of a format. -/
def name : OutputFormat → String
  | .summary => "summary"
  | .json => "json"
  | .dot => "dot"

/-- The format of a name. -/
def ofName? (text : String) : Option OutputFormat := all.find? (·.name = text)

/-- The format that a text in small or capital letters means. -/
def ofText? (text : String) : Option OutputFormat :=
  match Text.lowerAscii text with
  | "text" | "txt" => some .summary
  | "graphviz" | "gv" => some .dot
  | name => ofName? name

end OutputFormat

/-- How much the program says about its work. -/
inductive LogLevel where
  /-- Errors only. -/
  | quiet
  /-- Warnings too. -/
  | normal
  /-- What is done. -/
  | verbose
  /-- Every step. -/
  | debug
  deriving DecidableEq, Inhabited

namespace LogLevel

/-- The levels, from silence on. -/
def all : List LogLevel := [.quiet, .normal, .verbose, .debug]

/-- The name of a level. -/
def name : LogLevel → String
  | .quiet => "quiet"
  | .normal => "normal"
  | .verbose => "verbose"
  | .debug => "debug"

/-- The level of a name. -/
def ofName? (text : String) : Option LogLevel := all.find? (·.name = text)

/-- The level that a text in small or capital letters means: a name, its first letter, or its
number. -/
def ofText? (text : String) : Option LogLevel :=
  match Text.lowerAscii text with
  | "q" | "0" => some .quiet
  | "n" | "1" => some .normal
  | "v" | "2" => some .verbose
  | "d" | "3" => some .debug
  | name => ofName? name

/-- The least severity of the messages of a level. -/
def severity : LogLevel → String
  | .quiet => "ERROR"
  | .normal => "WARN"
  | .verbose => "INFO"
  | .debug => "DEBUG"

end LogLevel

/-- The sizes of a deployment, as far as they are given. -/
structure Profile where
  /-- The number of workers. -/
  workers : Option Nat := none
  /-- The number of instances of operators. -/
  parallelism : Option Nat := none
  /-- The most instances that an operator may have. -/
  maxParallelism : Option Nat := none
  /-- The profile in words. -/
  description : Option String := none
  deriving DecidableEq, Inhabited

namespace Profile

/-- The profile of a single machine. -/
def single : Profile :=
  ⟨some 1, some 1, some 1, some "Single worker, parallelism 1"⟩

/-- The profile of several machines. -/
def cluster : Profile :=
  ⟨some 4, some 4, some 16, some "Four workers, parallelism 4, ceiling 16"⟩

/-- The built-in profile that a name in small or capital letters means. -/
def builtIn? (name : String) : Option Profile :=
  match Text.lowerAscii name with
  | "local" | "dev" => some single
  | "cluster" | "prod" => some cluster
  | _ => none

/-- The profile in words. -/
def inWords (p : Profile) : String := p.description.getD "Custom profile"

end Profile

/-- All settings. -/
structure Settings where
  /-- How the graph is written. -/
  format : OutputFormat := .summary
  /-- How much the program says. -/
  logLevel : LogLevel := .normal
  /-- The name of the topology. -/
  name : String := "rete-topology"
  /-- The number of workers. -/
  workers : Nat := 2
  /-- How rules are compiled. -/
  compiling : CompileOptions := {}
  /-- How networks are wired. -/
  wiring : WiringOptions := {}
  /-- Prefixes for rule texts. -/
  prefixes : Table String := {}
  /-- The profiles that are not built in. -/
  profiles : Table Profile := {}
  deriving DecidableEq, Inhabited

namespace Settings

/-- The prefixes that rule texts begin with. -/
def rulePrefixes (s : Settings) : Prefixes := Prefixes.withDeclared s.prefixes.entries

/-- The empty graph of these settings. -/
def graph (s : Settings) : Graph :=
  { name := s.name, workers := s.workers, maxParallelism := s.wiring.maxParallelism }

/-- All profiles in words: the built-in ones and then the others by name. -/
def availableProfiles (s : Settings) : List (String × String) :=
  [("local", Profile.single.inWords), ("cluster", Profile.cluster.inWords)] ++
  (s.profiles.entries.map fun (name, p) => (name, p.inWords)).mergeSort
    fun a b => decide (a.1 ≤ b.1)

end Settings
end RuleFlow
