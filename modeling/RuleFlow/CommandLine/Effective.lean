import RuleFlow.CommandLine.Arguments
import RuleFlow.Settings.Layers

/-!
# Effective settings

The arguments lie above a profile, the profile above the environment, and the environment above
the configuration. The settings that come out are checked once, at the end.
-/

namespace RuleFlow.Arguments

/-- How much the program says when the arguments ask for it. -/
def logLevel? (a : Arguments) : Option LogLevel :=
  if a.quiet then some .quiet
  else if 1 < a.verbosity then some .debug
  else if a.verbosity = 1 then some .verbose
  else none

/-- The settings under the arguments. -/
def applyTo (a : Arguments) (s : Settings) : Settings :=
  { s with
    format := a.format.getD s.format
    logLevel := a.logLevel?.getD s.logLevel
    name := a.name.getD s.name
    workers := a.workers.getD s.workers
    compiling := { s.compiling with
      source := a.source.getD s.compiling.source
      axiomSource := a.axiomSource.getD s.compiling.axiomSource }
    wiring := { s.wiring with
      parallelism := a.parallelism.getD s.wiring.parallelism
      maxParallelism := a.maxParallelism.getD s.wiring.maxParallelism
      feedback := a.feedback.getD s.wiring.feedback } }

/-- The settings under the profile that the arguments name. -/
def applyProfile (a : Arguments) (s : Settings) : Except SettingsError Settings :=
  match a.profile with
  | some name => s.applyProfile name
  | none => .ok s

/-- The settings that a configuration, an environment and arguments give together. -/
def effective (a : Arguments) (value? : String → Option String) (base : Settings) :
    Except SettingsError Settings := do
  let s ← a.applyProfile (base.withEnvironment value?)
  (a.applyTo s).validate

end RuleFlow.Arguments
