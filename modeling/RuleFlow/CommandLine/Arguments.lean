import RuleFlow.Settings.Basic

/-!
# Arguments of the command line

Arguments are read from left to right. An option has a long name and perhaps a letter; one that
takes a value takes it from the same argument, behind an equals sign or right behind the letter,
or from the next one, which may not look like an option. Letters of options without values may
stand together. Every option is given at most once, except that asking for more words may be
repeated. Behind two dashes, and wherever no option stands, arguments name files of rules.
-/

namespace RuleFlow

/-- What the command line asks for. -/
structure Arguments where
  /-- The files of rules. -/
  inputs : List String := []
  /-- How the graph is written. -/
  format : Option OutputFormat := none
  /-- The file that the output goes to. -/
  output : Option String := none
  /-- The file of the configuration. -/
  config : Option String := none
  /-- The name of a profile. -/
  profile : Option String := none
  /-- The name of the topology. -/
  name : Option String := none
  /-- The name of the source of facts. -/
  source : Option String := none
  /-- The name of the source of axioms. -/
  axiomSource : Option String := none
  /-- The number of workers. -/
  workers : Option Nat := none
  /-- The number of instances of operators. -/
  parallelism : Option Nat := none
  /-- The most instances that an operator may have. -/
  maxParallelism : Option Nat := none
  /-- How derived facts flow back. -/
  feedback : Option Feedback := none
  /-- Whether the report is written as JSON. -/
  report : Bool := false
  /-- Whether the text of a new configuration is wanted. -/
  initConfig : Bool := false
  /-- Whether the settings are wanted. -/
  printConfig : Bool := false
  /-- Whether the profiles are wanted. -/
  listProfiles : Bool := false
  /-- How often more words were asked for. -/
  verbosity : Nat := 0
  /-- Whether only errors are told. -/
  quiet : Bool := false
  deriving DecidableEq, Inhabited

namespace Arguments

/-- The options with a value. -/
inductive Valued where
  /-- How the graph is written. -/
  | format
  /-- The file that the output goes to. -/
  | output
  /-- The file of the configuration. -/
  | config
  /-- The name of a profile. -/
  | profile
  /-- The name of the topology. -/
  | name
  /-- The name of the source of facts. -/
  | source
  /-- The name of the source of axioms. -/
  | axiomSource
  /-- The number of workers. -/
  | workers
  /-- The number of instances of operators. -/
  | parallelism
  /-- The most instances that an operator may have. -/
  | maxParallelism
  /-- How derived facts flow back. -/
  | feedback
  deriving DecidableEq

/-- The options without a value. -/
inductive Switch where
  /-- The report is written as JSON. -/
  | report
  /-- The text of a new configuration is wanted. -/
  | initConfig
  /-- The settings are wanted. -/
  | printConfig
  /-- The profiles are wanted. -/
  | listProfiles
  /-- More words are wanted. -/
  | verbose
  /-- Only errors are told. -/
  | quiet
  /-- The version is wanted. -/
  | version
  /-- An overview of the options is wanted. -/
  | help
  deriving DecidableEq

/-- What ends the reading of arguments early. -/
inductive Halt where
  /-- The version is wanted. -/
  | version
  /-- An overview of the options is wanted. -/
  | help
  /-- The arguments are wrong. -/
  | misuse
  deriving DecidableEq

/-- An option. -/
abbrev Opt := Valued ⊕ Switch

/-- The option of a long name. -/
def ofLong? : String → Option Opt
  | "format" => some (.inl .format)
  | "output" => some (.inl .output)
  | "config" => some (.inl .config)
  | "profile" => some (.inl .profile)
  | "name" => some (.inl .name)
  | "source" => some (.inl .source)
  | "axiom-source" => some (.inl .axiomSource)
  | "workers" => some (.inl .workers)
  | "parallelism" => some (.inl .parallelism)
  | "max-parallelism" => some (.inl .maxParallelism)
  | "feedback" => some (.inl .feedback)
  | "report" => some (.inr .report)
  | "init-config" => some (.inr .initConfig)
  | "print-config" => some (.inr .printConfig)
  | "list-profiles" => some (.inr .listProfiles)
  | "verbose" => some (.inr .verbose)
  | "quiet" => some (.inr .quiet)
  | "version" => some (.inr .version)
  | "help" => some (.inr .help)
  | _ => none

/-- The option of a letter. -/
def ofLetter? : Char → Option Opt
  | 'f' => some (.inl .format)
  | 'o' => some (.inl .output)
  | 'c' => some (.inl .config)
  | 'p' => some (.inl .profile)
  | 'v' => some (.inr .verbose)
  | 'q' => some (.inr .quiet)
  | 'V' => some (.inr .version)
  | 'h' => some (.inr .help)
  | _ => none

/-- A value that is given for the first time and can be read. -/
def fresh {α : Type} (old : Option α) (new : Option α) : Except Halt (Option α) :=
  match old, new with
  | none, some a => .ok (some a)
  | _, _ => .error .misuse

/-- A path, which may not be empty. -/
def path? (text : String) : Option String := if text.isEmpty then none else some text

/-- Gives an option its value. -/
def set (a : Arguments) (o : Valued) (text : String) : Except Halt Arguments := do
  match o with
  | .format => return { a with format := ← fresh a.format (OutputFormat.ofName? text) }
  | .output => return { a with output := ← fresh a.output (path? text) }
  | .config => return { a with config := ← fresh a.config (path? text) }
  | .profile => return { a with profile := ← fresh a.profile (some text) }
  | .name => return { a with name := ← fresh a.name (some text) }
  | .source => return { a with source := ← fresh a.source (some text) }
  | .axiomSource => return { a with axiomSource := ← fresh a.axiomSource (some text) }
  | .workers => return { a with workers := ← fresh a.workers (Text.word? text) }
  | .parallelism => return { a with parallelism := ← fresh a.parallelism (Text.word? text) }
  | .maxParallelism =>
    return { a with maxParallelism := ← fresh a.maxParallelism (Text.word? text) }
  | .feedback => return { a with feedback := ← fresh a.feedback (Feedback.ofName? text) }

/-- A switch that is turned for the first time. -/
def turn (isOn : Bool) : Except Halt Bool := if isOn then .error .misuse else .ok true

/-- Turns a switch. -/
def press (a : Arguments) (s : Switch) : Except Halt Arguments := do
  match s with
  | .report => return { a with report := ← turn a.report }
  | .initConfig => return { a with initConfig := ← turn a.initConfig }
  | .printConfig => return { a with printConfig := ← turn a.printConfig }
  | .listProfiles => return { a with listProfiles := ← turn a.listProfiles }
  | .verbose => return { a with verbosity := a.verbosity + 1 }
  | .quiet => return { a with quiet := ← turn a.quiet }
  | .version => throw .version
  | .help => throw .help

/-- Names a file of rules. -/
def addInput (a : Arguments) (text : String) : Except Halt Arguments :=
  match path? text with
  | some path => .ok { a with inputs := a.inputs ++ [path] }
  | none => .error .misuse

/-- Reads letters that stand together. When the last option lacks its value, it is given
too. -/
def readLetters (a : Arguments) : List Char → Except Halt (Arguments × Option Valued)
  | [] => .ok (a, none)
  | c :: cs =>
    match ofLetter? c with
    | none => .error .misuse
    | some (.inr s) => do readLetters (← a.press s) cs
    | some (.inl o) =>
      match cs with
      | [] => .ok (a, some o)
      | '=' :: value => do return (← a.set o (String.ofList value), none)
      | value => do return (← a.set o (String.ofList value), none)

/-- Reads a long option, without its dashes. When it lacks its value, it is given too. -/
def readLong (a : Arguments) (text : List Char) : Except Halt (Arguments × Option Valued) :=
  let name := String.ofList (text.takeWhile (· ≠ '='))
  let value := match text.dropWhile (· ≠ '=') with
    | _ :: value => some (String.ofList value)
    | [] => none
  match ofLong? name, value with
  | some (.inl o), some value => do return (← a.set o value, none)
  | some (.inl o), none => .ok (a, some o)
  | some (.inr s), none => do return (← a.press s, none)
  | some (.inr _), some _ => .error .misuse
  | none, _ => .error .misuse

/-- Whether an argument looks like an option: a dash and more. -/
def isOptionLike (text : String) : Bool :=
  match text.toList with
  | '-' :: _ :: _ => true
  | _ => false

/-- Reads one argument that is not behind two dashes. -/
def readOne (a : Arguments) (text : String) : Except Halt (Arguments × Option Valued) :=
  match text.toList with
  | '-' :: '-' :: cs => a.readLong cs
  | '-' :: c :: cs => a.readLetters (c :: cs)
  | _ => do return (← a.addInput text, none)

/-- Reads the arguments after what was read already. An option that lacks its value takes the
next argument for it. -/
def readFrom (a : Arguments) (pending : Option Valued) : List String → Except Halt Arguments
  | [] =>
    match pending with
    | some _ => .error .misuse
    | none => .ok a
  | text :: rest =>
    match pending with
    | some o =>
      if isOptionLike text then .error .misuse
      else do readFrom (← a.set o text) none rest
    | none =>
      if text = "--" then rest.foldlM addInput a
      else do
        let (a, pending) ← a.readOne text
        readFrom a pending rest

/-- The arguments in order. -/
def ofList (texts : List String) : Except Halt Arguments := readFrom {} none texts

end Arguments
end RuleFlow
