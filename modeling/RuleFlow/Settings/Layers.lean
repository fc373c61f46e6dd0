import RuleFlow.Settings.Basic
import RuleFlow.Settings.Error

/-!
# Layers of settings

The environment and a profile lie above a configuration: what they give replaces what the
configuration says, and the rest shows through. A value of the environment that cannot be read
counts as not given.

A profile is entered in place, one size after another (`enterProfile`). What this does to the
settings, also when the profile is unknown, is said by `run_enterProfile`.
-/

namespace RuleFlow.Settings

/-- The names of the environment that settings depend on. -/
def environmentNames : List String :=
  ["RETE_LOG_LEVEL", "RETE_FORMAT", "RETE_TOPOLOGY_NAME", "RETE_SOURCE", "RETE_AXIOM_SOURCE",
    "RETE_WORKERS", "RETE_PARALLELISM", "RETE_MAX_PARALLELISM", "RETE_FEEDBACK",
    "RETE_WINDOW_CAPACITY", "RETE_WINDOW_RANGE_SECS"]

/-- The settings under the values of an environment. -/
def withEnvironment (value? : String → Option String) (s : Settings) : Settings :=
  let given {α : Type} (name : String) (read? : String → Option α) (old : α) : α :=
    ((value? name).bind read?).getD old
  { s with
    format := given "RETE_FORMAT" OutputFormat.ofText? s.format
    logLevel := given "RETE_LOG_LEVEL" LogLevel.ofText? s.logLevel
    name := given "RETE_TOPOLOGY_NAME" some s.name
    workers := given "RETE_WORKERS" Text.word? s.workers
    compiling := { s.compiling with
      source := given "RETE_SOURCE" some s.compiling.source
      axiomSource := given "RETE_AXIOM_SOURCE" some s.compiling.axiomSource
      window := {
        capacity := given "RETE_WINDOW_CAPACITY" Text.word? s.compiling.window.capacity
        seconds := given "RETE_WINDOW_RANGE_SECS" Text.word? s.compiling.window.seconds } }
    wiring := { s.wiring with
      parallelism := given "RETE_PARALLELISM" Text.word? s.wiring.parallelism
      maxParallelism := given "RETE_MAX_PARALLELISM" Text.word? s.wiring.maxParallelism
      feedback := given "RETE_FEEDBACK" Feedback.ofText? s.wiring.feedback } }

/-- The settings under the sizes of a profile. -/
def withProfile (p : Profile) (s : Settings) : Settings :=
  { s with
    workers := p.workers.getD s.workers
    wiring := { s.wiring with
      parallelism := p.parallelism.getD s.wiring.parallelism
      maxParallelism := p.maxParallelism.getD s.wiring.maxParallelism } }

/-- The profile of a name. A built-in one comes before one of the configuration. -/
def profileOf? (s : Settings) (name : String) : Option Profile :=
  (Profile.builtIn? name).or (s.profiles.find? name)

/-- What changes settings in place and may fail. What was changed before a failure stays so. -/
abbrev InPlace := ExceptT SettingsError (StateM Settings)

/-- Changes a setting in place when there is a value for it. -/
def setIfGiven (value? : Option Nat) (change : Nat → Settings → Settings) : InPlace Unit :=
  match value? with
  | some n => modify (change n)
  | none => pure ()

/-- Puts the settings under the sizes of a profile, one after another. -/
def enterSizes (p : Profile) : InPlace Unit := do
  setIfGiven p.workers fun n s => { s with workers := n }
  setIfGiven p.parallelism fun n s => { s with wiring := { s.wiring with parallelism := n } }
  setIfGiven p.maxParallelism fun n s => { s with wiring := { s.wiring with maxParallelism := n } }

/-- Puts the settings under the profile of a name. -/
def enterProfile (name : String) : InPlace Unit := do
  match (← get).profileOf? name with
  | some p => enterSizes p
  | none => throw (.unknownProfile name)

/-- The settings under the profile of a name. -/
def applyProfile (s : Settings) (name : String) : Except SettingsError Settings :=
  match (enterProfile name).run.run s with
  | (.ok (), t) => .ok t
  | (.error e, _) => .error e

/-- The sizes of a profile are entered without a failure. -/
theorem run_enterSizes (p : Profile) (s : Settings) :
    (enterSizes p).run.run s = (.ok (), s.withProfile p) := by
  obtain ⟨workers, parallelism, maxParallelism, description⟩ := p
  cases workers <;> cases parallelism <;> cases maxParallelism <;> rfl

/-- A profile that is known gives its sizes. A profile that is unknown changes nothing. -/
theorem run_enterProfile (s : Settings) (name : String) :
    (enterProfile name).run.run s = match s.profileOf? name with
      | some p => (.ok (), s.withProfile p)
      | none => (.error (.unknownProfile name), s) := by
  show (match s.profileOf? name with
    | some p => enterSizes p
    | none => throw (.unknownProfile name) : InPlace Unit).run.run s = _
  cases s.profileOf? name with
  | none => rfl
  | some p => exact run_enterSizes p s

/-- The settings come under a profile that is known, and a profile that is unknown is refused. -/
theorem applyProfile_eq (s : Settings) (name : String) :
    s.applyProfile name = match s.profileOf? name with
      | some p => .ok (s.withProfile p)
      | none => .error (.unknownProfile name) := by
  unfold applyProfile
  rw [run_enterProfile]
  cases s.profileOf? name with
  | none => rfl
  | some p => rfl

/-- The names that have to be distinct. -/
def fixedNames (s : Settings) : List String :=
  [s.compiling.source, s.compiling.axiomSource, s.compiling.conflictSet]

/-- The first fault of the settings. -/
def fault? (s : Settings) : Option SettingFault :=
  if s.workers = 0 then some .noWorkers
  else if s.wiring.maxParallelism = 0 then some .noMaxParallelism
  else if s.wiring.parallelism = 0 then some .noParallelism
  else if "" ∈ s.fixedNames then some .unnamed
  else if ¬ s.fixedNames.Nodup then some .indistinct
  else if s.compiling.window.capacity = 0 then some .noCapacity
  else none

/-- The settings, unless they have a fault. -/
def validate (s : Settings) : Except SettingsError Settings :=
  match s.fault? with
  | some fault => .error (.invalid fault)
  | none => .ok s

end RuleFlow.Settings
