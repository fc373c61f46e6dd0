import RuleFlow.Diagnostic.Basic

/-!
# Faults of settings
-/

namespace RuleFlow

/-- A value that settings may not have. -/
inductive SettingFault where
  /-- There are no workers. -/
  | noWorkers
  /-- No operator may have an instance. -/
  | noMaxParallelism
  /-- Operators get no instance. -/
  | noParallelism
  /-- A source or the conflict set has no name. -/
  | unnamed
  /-- Two of the sources and the conflict set have one name. -/
  | indistinct
  /-- Joins remember nothing. -/
  | noCapacity
  deriving DecidableEq

/-- The fault in words. -/
def SettingFault.message : SettingFault → String
  | .noWorkers => "topology.workers must be at least 1"
  | .noMaxParallelism => "topology.max_parallelism must be at least 1"
  | .noParallelism => "parallelism.default must be at least 1"
  | .unnamed => "source, axiom_source and conflict_set must be named"
  | .indistinct => "source, axiom_source and conflict_set must be distinct"
  | .noCapacity => "join.window_capacity must be at least 1"

/-- Why settings cannot be had or used. -/
inductive SettingsError where
  /-- The file cannot be read. -/
  | unreadable (path message : String)
  /-- The text is no configuration. -/
  | badText (path : String)
  /-- A number is too large to be written. -/
  | tooLarge
  /-- There is no profile of the name. -/
  | unknownProfile (name : String)
  /-- A value is wrong. -/
  | invalid (fault : SettingFault)
  deriving DecidableEq

namespace SettingsError

/-- The error in words. -/
def message : SettingsError → String
  | .unreadable path message => "cannot read " ++ path ++ ": " ++ message
  | .badText path => "invalid TOML in " ++ path ++ ": the text is no configuration"
  | .tooLarge => "cannot serialize configuration: out-of-range value for u64 type"
  | .unknownProfile name => "unknown profile '" ++ name ++ "' (built in: local, cluster)"
  | .invalid fault => "invalid configuration value: " ++ fault.message

/-- The code of the error. -/
def code : SettingsError → Code
  | .unreadable .. => .configNotFound
  | .badText _ => .invalidConfigSyntax
  | .tooLarge => .configError
  | .unknownProfile _ => .unknownProfile
  | .invalid _ => .invalidConfigValue

/-- The diagnostic of the error. -/
def diagnostic (e : SettingsError) : Diagnostic :=
  let d : Diagnostic := ⟨e.code, e.message, none, none⟩
  match e with
  | .unreadable path _ => d.withLocation path
  | .badText path => d.withLocation path
  | .unknownProfile _ => d.withHint "Define it under [profiles.<name>] or use local or cluster"
  | _ => d

end SettingsError
end RuleFlow
