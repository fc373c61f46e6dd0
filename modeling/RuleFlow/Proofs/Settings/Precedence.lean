import Mathlib.Data.Nat.Notation
import Mathlib.Tactic.Lemma
import RuleFlow.CommandLine.Run

/-!
# Which layer decides

Settings come from layers: the arguments above a profile, the profile above the environment, and
the environment above the configuration. A `Layer` is what one of the first three sets. `Highest`
says that a value comes from the highest layer that sets it, `Decided` says so of all settings,
and that the others are as the configuration has them.

Laying one layer over settings decides them if they were decided by the layers below
(`Decided.cons`), and layers decide in one way only, so they decide just what comes out when they
are laid one over another (`decided_iff`). A run takes its configuration from the file that its
arguments name, or from the first that there is (`CommandLine.Configured`). It finds its settings by
laying three layers over the configuration and checking the result
(`Arguments.effective_eq_ok_iff`), which is what `CommandLine.loadSettings_eq_ok_iff` states.
-/

namespace RuleFlow

namespace Settings

/-! ## Layers -/

/-- What a layer sets. -/
structure Layer where
  /-- How the graph is written. -/
  format : Option OutputFormat := none
  /-- How much the program says. -/
  logLevel : Option LogLevel := none
  /-- The name of the topology. -/
  name : Option String := none
  /-- The name of the source of facts. -/
  source : Option String := none
  /-- The name of the source of axioms. -/
  axiomSource : Option String := none
  /-- The number of workers. -/
  workers : Option ℕ := none
  /-- The number of instances of operators. -/
  parallelism : Option ℕ := none
  /-- The most instances that an operator may have. -/
  maxParallelism : Option ℕ := none
  /-- How derived facts flow back. -/
  feedback : Option Feedback := none
  /-- How many tuples joins remember. -/
  capacity : Option ℕ := none
  /-- For how many seconds joins remember tuples. -/
  seconds : Option ℕ := none

namespace Layer

/-- What an environment sets. A value that cannot be read sets nothing. -/
def ofEnvironment (value? : String → Option String) : Layer where
  format := (value? "RETE_FORMAT").bind OutputFormat.ofText?
  logLevel := (value? "RETE_LOG_LEVEL").bind LogLevel.ofText?
  name := value? "RETE_TOPOLOGY_NAME"
  source := value? "RETE_SOURCE"
  axiomSource := value? "RETE_AXIOM_SOURCE"
  workers := (value? "RETE_WORKERS").bind Text.word?
  parallelism := (value? "RETE_PARALLELISM").bind Text.word?
  maxParallelism := (value? "RETE_MAX_PARALLELISM").bind Text.word?
  feedback := (value? "RETE_FEEDBACK").bind Feedback.ofText?
  capacity := (value? "RETE_WINDOW_CAPACITY").bind Text.word?
  seconds := (value? "RETE_WINDOW_RANGE_SECS").bind Text.word?

/-- What a profile sets: three sizes at most. -/
def ofProfile (p : Profile) : Layer where
  workers := p.workers
  parallelism := p.parallelism
  maxParallelism := p.maxParallelism

/-- What arguments set. Silence goes before words. -/
def ofArguments (a : Arguments) : Layer where
  format := a.format
  logLevel :=
    match a.quiet, a.verbosity with
    | true, _ => some .quiet
    | false, 0 => none
    | false, 1 => some .verbose
    | false, _ => some .debug
  name := a.name
  source := a.source
  axiomSource := a.axiomSource
  workers := a.workers
  parallelism := a.parallelism
  maxParallelism := a.maxParallelism
  feedback := a.feedback

/-- The settings when the layer is laid over them. -/
def laidOver (l : Layer) (s : Settings) : Settings :=
  { s with
    format := l.format.getD s.format
    logLevel := l.logLevel.getD s.logLevel
    name := l.name.getD s.name
    workers := l.workers.getD s.workers
    compiling := { s.compiling with
      source := l.source.getD s.compiling.source
      axiomSource := l.axiomSource.getD s.compiling.axiomSource
      window := ⟨l.capacity.getD s.compiling.window.capacity,
        l.seconds.getD s.compiling.window.seconds⟩ }
    wiring := { s.wiring with
      parallelism := l.parallelism.getD s.wiring.parallelism
      maxParallelism := l.maxParallelism.getD s.wiring.maxParallelism
      feedback := l.feedback.getD s.wiring.feedback } }

end Layer

/-- The value comes from the highest layer that sets it, or from below all of them. -/
inductive Highest {α : Type} (field : Layer → Option α) (base : α) : List Layer → α → Prop where
  /-- No layer is left that could set it. -/
  | base : Highest field base [] base
  /-- The highest layer sets it. -/
  | set {l : Layer} {ls : List Layer} {v : α} (h : field l = some v) : Highest field base (l :: ls) v
  /-- The highest layer does not set it, and those below decide. -/
  | unset {l : Layer} {ls : List Layer} {v : α} (h : field l = none) (below : Highest field base ls v) :
    Highest field base (l :: ls) v

/-- All settings are decided by these layers above a configuration. -/
structure Decided (layers : List Layer) (base s : Settings) : Prop where
  /-- How the graph is written. -/
  format : Highest Layer.format base.format layers s.format
  /-- How much the program says. -/
  logLevel : Highest Layer.logLevel base.logLevel layers s.logLevel
  /-- The name of the topology. -/
  name : Highest Layer.name base.name layers s.name
  /-- The number of workers. -/
  workers : Highest Layer.workers base.workers layers s.workers
  /-- The name of the source of facts. -/
  source : Highest Layer.source base.compiling.source layers s.compiling.source
  /-- The name of the source of axioms. -/
  axiomSource :
    Highest Layer.axiomSource base.compiling.axiomSource layers s.compiling.axiomSource
  /-- How many tuples joins remember. -/
  capacity :
    Highest Layer.capacity base.compiling.window.capacity layers s.compiling.window.capacity
  /-- For how many seconds joins remember tuples. -/
  seconds : Highest Layer.seconds base.compiling.window.seconds layers s.compiling.window.seconds
  /-- The number of instances of operators. -/
  parallelism : Highest Layer.parallelism base.wiring.parallelism layers s.wiring.parallelism
  /-- The most instances that an operator may have. -/
  maxParallelism :
    Highest Layer.maxParallelism base.wiring.maxParallelism layers s.wiring.maxParallelism
  /-- How derived facts flow back. -/
  feedback : Highest Layer.feedback base.wiring.feedback layers s.wiring.feedback
  /-- The rest of how rules are compiled is left alone. -/
  compiling : s.compiling.conflictSet = base.compiling.conflictSet ∧
    s.compiling.searchBound = base.compiling.searchBound ∧
    s.compiling.unsupportedBuiltins = base.compiling.unsupportedBuiltins
  /-- So are the numbers of instances of single kinds. -/
  wiring : s.wiring.filters = base.wiring.filters ∧ s.wiring.joins = base.wiring.joins ∧
    s.wiring.terminals = base.wiring.terminals
  /-- So are prefixes and profiles. -/
  tables : s.prefixes = base.prefixes ∧ s.profiles = base.profiles

section
variable {α : Type} {field : Layer → Option α} {b : α}

lemma Highest.cons {ls : List Layer} {v : α} (h : Highest field b ls v) (l : Layer) :
    Highest field b (l :: ls) ((field l).getD v) := by
  cases hl : field l with
  | none => exact .unset hl h
  | some _ => exact .set hl

/-- Layers decide in one way only. -/
lemma Highest.unique {ls : List Layer} {v w : α} (hv : Highest field b ls v)
    (hw : Highest field b ls w) : v = w := by
  induction hv with
  | base =>
    cases hw
    rfl
  | set h =>
    cases hw with
    | set h' => exact Option.some.inj (h.symm.trans h')
    | unset h' => exact nomatch h.symm.trans h'
  | unset h _ ih =>
    cases hw with
    | set h' => exact nomatch h.symm.trans h'
    | unset _ below => exact ih below

end

/-! ## Layers over settings -/

/-- Without layers the configuration decides. -/
lemma decided_nil (base : Settings) : Decided [] base base := by
  constructor
  all_goals first | exact .base | exact ⟨rfl, rfl, rfl⟩ | exact ⟨rfl, rfl⟩

/-- A layer over settings decides what it sets. -/
lemma Decided.cons {layers : List Layer} {base s : Settings} (h : Decided layers base s)
    (l : Layer) : Decided (l :: layers) base (l.laidOver s) where
  format := h.format.cons l
  logLevel := h.logLevel.cons l
  name := h.name.cons l
  workers := h.workers.cons l
  source := h.source.cons l
  axiomSource := h.axiomSource.cons l
  capacity := h.capacity.cons l
  seconds := h.seconds.cons l
  parallelism := h.parallelism.cons l
  maxParallelism := h.maxParallelism.cons l
  feedback := h.feedback.cons l
  compiling := h.compiling
  wiring := h.wiring
  tables := h.tables

/-- The layers decide on one outcome. -/
lemma Decided.unique {layers : List Layer} {base s t : Settings} (hs : Decided layers base s)
    (ht : Decided layers base t) : s = t := by
  have hcompiling : s.compiling = t.compiling := by
    obtain ⟨hconflictSet, hbound, hbuiltins⟩ := hs.compiling
    obtain ⟨hconflictSet', hbound', hbuiltins'⟩ := ht.compiling
    have hwindow : s.compiling.window = t.compiling.window :=
      (Window.mk.injEq ..).mpr ⟨hs.capacity.unique ht.capacity, hs.seconds.unique ht.seconds⟩
    exact (CompileOptions.mk.injEq ..).mpr ⟨hs.source.unique ht.source,
      hs.axiomSource.unique ht.axiomSource, hconflictSet.trans hconflictSet'.symm, hwindow,
      hbound.trans hbound'.symm, hbuiltins.trans hbuiltins'.symm⟩
  have hwiring : s.wiring = t.wiring := by
    obtain ⟨hfilters, hjoins, hterminals⟩ := hs.wiring
    obtain ⟨hfilters', hjoins', hterminals'⟩ := ht.wiring
    exact (WiringOptions.mk.injEq ..).mpr ⟨hs.parallelism.unique ht.parallelism,
      hfilters.trans hfilters'.symm, hjoins.trans hjoins'.symm, hterminals.trans hterminals'.symm,
      hs.maxParallelism.unique ht.maxParallelism, hs.feedback.unique ht.feedback⟩
  exact (Settings.mk.injEq ..).mpr ⟨hs.format.unique ht.format, hs.logLevel.unique ht.logLevel,
    hs.name.unique ht.name, hs.workers.unique ht.workers, hcompiling, hwiring,
    hs.tables.1.trans ht.tables.1.symm, hs.tables.2.trans ht.tables.2.symm⟩

/-- Layers decide what comes out when they are laid one over another. -/
theorem decided_iff {layers : List Layer} {base s : Settings} :
    Decided layers base s ↔ s = layers.foldr Layer.laidOver base := by
  have hfold : Decided layers base (layers.foldr Layer.laidOver base) := by
    induction layers with
    | nil => exact decided_nil base
    | cons l layers ih => exact ih.cons l
  constructor
  · exact fun h => h.unique hfold
  · rintro rfl
    exact hfold

/-! ## Settings without faults -/

/-- The settings can be used. -/
structure Valid (s : Settings) : Prop where
  /-- There are workers. -/
  workers : 1 ≤ s.workers
  /-- Operators may have an instance. -/
  maxParallelism : 1 ≤ s.wiring.maxParallelism
  /-- Operators get an instance. -/
  parallelism : 1 ≤ s.wiring.parallelism
  /-- The sources and the conflict set have names. -/
  named : s.compiling.source ≠ "" ∧ s.compiling.axiomSource ≠ "" ∧ s.compiling.conflictSet ≠ ""
  /-- These names are distinct. -/
  distinct : s.compiling.source ≠ s.compiling.axiomSource ∧
    s.compiling.source ≠ s.compiling.conflictSet ∧
    s.compiling.axiomSource ≠ s.compiling.conflictSet
  /-- Joins remember tuples. -/
  capacity : 1 ≤ s.compiling.window.capacity

/-- Settings without a fault are those that can be used. -/
theorem fault?_eq_none_iff (s : Settings) : s.fault? = none ↔ s.Valid := by
  have hnamed : "" ∉ s.fixedNames ↔ s.compiling.source ≠ "" ∧ s.compiling.axiomSource ≠ "" ∧
      s.compiling.conflictSet ≠ "" := by
    simp [fixedNames, @eq_comm _ ""]
  have hdistinct : s.fixedNames.Nodup ↔ s.compiling.source ≠ s.compiling.axiomSource ∧
      s.compiling.source ≠ s.compiling.conflictSet ∧
      s.compiling.axiomSource ≠ s.compiling.conflictSet := by
    simp [fixedNames, and_assoc]
  unfold fault?
  by_cases hworkers : s.workers = 0
  · rw [if_pos hworkers]
    exact iff_of_false nofun fun h => Nat.ne_of_gt h.workers hworkers
  by_cases hmax : s.wiring.maxParallelism = 0
  · rw [if_neg hworkers, if_pos hmax]
    exact iff_of_false nofun fun h => Nat.ne_of_gt h.maxParallelism hmax
  by_cases hparallelism : s.wiring.parallelism = 0
  · rw [if_neg hworkers, if_neg hmax, if_pos hparallelism]
    exact iff_of_false nofun fun h => Nat.ne_of_gt h.parallelism hparallelism
  rw [if_neg hworkers, if_neg hmax, if_neg hparallelism]
  by_cases hempty : "" ∈ s.fixedNames
  · rw [if_pos hempty]
    exact iff_of_false nofun fun h => hnamed.2 h.named hempty
  by_cases hnodup : s.fixedNames.Nodup
  · rw [if_neg hempty, if_neg (not_not_intro hnodup)]
    by_cases hcapacity : s.compiling.window.capacity = 0
    · rw [if_pos hcapacity]
      exact iff_of_false nofun fun h => Nat.ne_of_gt h.capacity hcapacity
    · rw [if_neg hcapacity]
      refine iff_of_true rfl ⟨?_, ?_, ?_, hnamed.1 hempty, hdistinct.1 hnodup, ?_⟩
      all_goals omega
  · rw [if_neg hempty, if_pos hnodup]
    exact iff_of_false nofun fun h => hnodup (hdistinct.2 h.distinct)

/-- Validation passes valid settings on as they are, and no others. -/
theorem validate_eq_ok_iff (s t : Settings) : s.validate = .ok t ↔ t = s ∧ s.Valid := by
  rw [← fault?_eq_none_iff]
  unfold validate
  cases hfault : s.fault? with
  | none => exact ⟨fun h => ⟨(Except.ok.inj h).symm, rfl⟩, fun h => congrArg Except.ok h.1.symm⟩
  | some fault => exact iff_of_false nofun fun h => nomatch h.2

/-- The profile of a name that was given or not: a built-in one, or else one of a
configuration. -/
inductive Chosen (profiles : Table Profile) : Option String → Option Profile → Prop where
  /-- No profile was asked for. -/
  | none : Chosen profiles none none
  /-- The profile is built in. -/
  | builtIn {name : String} {p : Profile} (h : Profile.builtIn? name = some p) :
    Chosen profiles (some name) (some p)
  /-- The profile is one of the configuration. -/
  | custom {name : String} {p : Profile} (hname : Profile.builtIn? name = none)
    (h : profiles.find? name = some p) : Chosen profiles (some name) (some p)

/-- The profile that is found is the one that is chosen by its name. -/
lemma profileOf?_eq_some_iff (s : Settings) (name : String) (p : Profile) :
    s.profileOf? name = some p ↔ Chosen s.profiles (some name) (some p) := by
  unfold profileOf?
  cases hname : Profile.builtIn? name with
  | none =>
    rw [Option.none_or]
    refine ⟨.custom hname, fun h => ?_⟩
    cases h with
    | builtIn h => exact nomatch hname.symm.trans h
    | custom _ h => exact h
  | some q =>
    rw [Option.some_or]
    refine ⟨fun h => .builtIn (hname.trans h), fun h => ?_⟩
    cases h with
    | builtIn h => exact hname.symm.trans h
    | custom h => exact nomatch hname.symm.trans h

/-- What comes out are the settings under the profile that the name means. -/
lemma applyProfile_eq_ok_iff (s t : Settings) (name : String) :
    s.applyProfile name = .ok t ↔ ∃ p, Chosen s.profiles (some name) (some p) ∧
      Decided [Layer.ofProfile p] s t := by
  rw [applyProfile_eq]
  constructor
  · intro h
    cases hp : s.profileOf? name with
    | none =>
      rw [hp] at h
      exact nomatch h
    | some p =>
      rw [hp] at h
      exact ⟨p, (s.profileOf?_eq_some_iff name p).1 hp, decided_iff.2 (Except.ok.inj h).symm⟩
  · rintro ⟨p, hchosen, hdecided⟩
    rw [(s.profileOf?_eq_some_iff name p).2 hchosen, decided_iff.1 hdecided]
    rfl

/-- An environment is seen through the names that settings depend on. -/
lemma Layer.ofEnvironment_congr {value? value'? : String → Option String}
    (h : ∀ name ∈ environmentNames, value? name = value'? name) :
    Layer.ofEnvironment value? = Layer.ofEnvironment value'? := by
  simp only [environmentNames, List.forall_mem_cons] at h
  simp only [ofEnvironment, h]

/-- The environment is a layer laid over the settings. -/
lemma withEnvironment_eq_laidOver (value? : String → Option String) (s : Settings) :
    s.withEnvironment value? = (Layer.ofEnvironment value?).laidOver s := by
  unfold withEnvironment Layer.ofEnvironment Layer.laidOver
  simp only [Option.bind_fun_some]

end Settings

open Settings

namespace Arguments

/-- The layers of arguments, a profile and an environment, from the highest on. -/
def layers (a : Arguments) (profile : Option Profile) (value? : String → Option String) :
    List Layer :=
  [Layer.ofArguments a] ++ (profile.map Layer.ofProfile).toList ++ [Layer.ofEnvironment value?]

lemma applyTo_eq_laidOver (a : Arguments) (s : Settings) :
    a.applyTo s = (Layer.ofArguments a).laidOver s := by
  have hlevel : a.logLevel? = (Layer.ofArguments a).logLevel := by
    unfold logLevel? Layer.ofArguments
    cases a.quiet with
    | true => rfl
    | false =>
      rcases a.verbosity with _ | _ | n
      · rfl
      · rfl
      · have hmany : 1 < n + 2 := by omega
        rw [if_neg Bool.false_ne_true, if_pos hmany]
        rfl
  unfold applyTo
  rw [hlevel]
  rfl

/-- The layers over a configuration are the environment, then the profile, then the arguments. -/
lemma foldr_layers (a : Arguments) (profile : Option Profile) (value? : String → Option String)
    (base : Settings) : (a.layers profile value?).foldr Layer.laidOver base =
      a.applyTo ((profile.map Layer.ofProfile).toList.foldr Layer.laidOver
        (base.withEnvironment value?)) := by
  rw [layers, List.foldr_append, List.foldr_append, applyTo_eq_laidOver,
    withEnvironment_eq_laidOver]
  rfl

/-- The chosen profile is laid over settings, and nothing is when none was asked for. -/
lemma applyProfile_eq_ok_iff (a : Arguments) (s t : Settings) :
    a.applyProfile s = .ok t ↔ ∃ profile, Chosen s.profiles a.profile profile ∧
      t = (profile.map Layer.ofProfile).toList.foldr Layer.laidOver s := by
  unfold applyProfile
  cases a.profile with
  | none =>
    constructor
    · exact fun h => ⟨none, .none, (Except.ok.inj h).symm⟩
    · rintro ⟨profile, hchosen, rfl⟩
      cases hchosen
      rfl
  | some name =>
    show s.applyProfile name = .ok t ↔ _
    rw [Settings.applyProfile_eq_ok_iff]
    constructor
    · rintro ⟨p, hchosen, hdecided⟩
      exact ⟨some p, hchosen, decided_iff.1 hdecided⟩
    · rintro ⟨profile, hchosen, ht⟩
      have hp : ∃ p, profile = some p := by
        cases hchosen
        · exact ⟨_, rfl⟩
        · exact ⟨_, rfl⟩
      obtain ⟨p, rfl⟩ := hp
      exact ⟨p, hchosen, decided_iff.2 ht⟩

/-- The settings that come out are decided by the layers and can be used. -/
theorem effective_eq_ok_iff (a : Arguments) (value? : String → Option String) (base s : Settings) :
    a.effective value? base = .ok s ↔ ∃ profile, Chosen base.profiles a.profile profile ∧
      Decided (a.layers profile value?) base s ∧ s.Valid := by
  unfold effective
  constructor
  · intro h
    cases hprofile : a.applyProfile (base.withEnvironment value?) with
    | error e =>
      rw [hprofile] at h
      exact nomatch h
    | ok t =>
      rw [hprofile] at h
      obtain ⟨profile, hchosen, ht⟩ := (applyProfile_eq_ok_iff a _ t).1 hprofile
      obtain ⟨hs, hvalid⟩ := (validate_eq_ok_iff (a.applyTo t) s).1 h
      refine ⟨profile, hchosen, decided_iff.2 ?_, hs ▸ hvalid⟩
      rw [foldr_layers, ← ht, hs]
  · rintro ⟨profile, hchosen, hdecided, hvalid⟩
    have hs := decided_iff.1 hdecided
    rw [foldr_layers] at hs
    have hprofile := (applyProfile_eq_ok_iff a (base.withEnvironment value?) _).2
      ⟨profile, hchosen, rfl⟩
    rw [hprofile]
    exact (validate_eq_ok_iff _ s).2 ⟨hs, hs ▸ hvalid⟩

/-- Each layer is above the one that comes next here, and one value cannot be read. -/
example :
    let a : Arguments :=
      { profile := some "PROD", workers := some 3, quiet := true, verbosity := 2 }
    let value? : String → Option String := fun name =>
      if name = "RETE_PARALLELISM" then some "7" else if name = "RETE_FORMAT" then some "gv"
      else if name = "RETE_FEEDBACK" then some "loud" else none
    (a.effective value? { logLevel := .debug }).toOption.map (fun s =>
      (s.workers, s.wiring.parallelism, s.format, s.wiring.feedback, s.logLevel)) =
    some (3, 4, .dot, .shuffle, .quiet) := by
  decide +kernel

end Arguments

namespace CommandLine

lemma lookup_map_mk {α : Type} (f : String → α) {names : List String} {name : String}
    (h : name ∈ names) : (names.map fun name => (name, f name)).lookup name = some (f name) := by
  induction names with
  | nil => exact nomatch h
  | cons n names ih =>
    rw [List.map_cons, List.lookup_cons]
    by_cases hname : name = n
    · rw [hname, beq_self_eq_true]
    · rw [beq_eq_false_iff_ne.2 hname]
      exact ih (List.mem_of_ne_of_mem hname h)

/-! ### The configuration -/

/-- There is no file at the path. -/
def Absent (host : Host Id) (path : String) : Prop :=
  ∃ e, host.load path = Except.error e ∧ e.isAbsent = true

/-- The configuration of a run is in the file that its arguments name, or else in the first file
that there is, or else it is the one without a file. -/
inductive Configured (host : Host Id) (a : Arguments) : Settings → Prop where
  /-- The arguments name the file. -/
  | named {path text : String} {s : Settings} (h : a.config = some path)
    (hload : host.load path = Except.ok text) (hread : Settings.ofText path text = .ok s) :
    Configured host a s
  /-- The file is the first that there is. -/
  | found {before after : List String} {path text : String} {s : Settings} (h : a.config = none)
    (hpaths : configPaths (host.environment "XDG_CONFIG_HOME")
      (nonempty (host.environment "HOME")) = before ++ path :: after)
    (habsent : ∀ p ∈ before, Absent host p) (hload : host.load path = Except.ok text)
    (hread : Settings.ofText path text = .ok s) : Configured host a s
  /-- There is no file. -/
  | default (h : a.config = none)
    (habsent : ∀ p ∈ configPaths (host.environment "XDG_CONFIG_HOME")
      (nonempty (host.environment "HOME")), Absent host p) : Configured host a {}

section
variable {host : Host Id} {path : String}

/-- A search ends with a file that there is. -/
lemma searchSettings_of_there {text : String} (h : host.load path = Except.ok text)
    (paths : List String) :
    searchSettings host (path :: paths) = Settings.ofText path text := by
  rw [searchSettings, h]
  rfl

/-- A search ends with a file that cannot be used. -/
lemma searchSettings_of_unreadable {e : FileError} (h : host.load path = Except.error e)
    (he : e.isAbsent = false) (paths : List String) :
    searchSettings host (path :: paths) = Except.error (.unreadable path e.message) := by
  rw [searchSettings, h]
  show (if e.isAbsent then _ else _) = _
  rw [he]
  rfl

/-- A search goes on behind files that there are not. -/
lemma searchSettings_append {before : List String} (h : ∀ p ∈ before, Absent host p)
    (paths : List String) :
    searchSettings host (before ++ paths) = searchSettings host paths := by
  induction before with
  | nil => rfl
  | cons p before ih =>
    obtain ⟨⟨e, hload, he⟩, hbefore⟩ := List.forall_mem_cons.1 h
    rw [List.cons_append, searchSettings, hload, ← ih hbefore]
    show (if e.isAbsent then _ else _) = _
    rw [he]
    rfl

end

/-- A search ends with the first file that there is, or with the settings without a file. -/
lemma searchSettings_eq_ok_iff (host : Host Id) (paths : List String) (s : Settings) :
    searchSettings host paths = Except.ok s ↔
      (∃ before path after, paths = before ++ path :: after ∧ (∀ p ∈ before, Absent host p) ∧
        ∃ text, host.load path = Except.ok text ∧ Settings.ofText path text = .ok s) ∨
      (∀ p ∈ paths, Absent host p) ∧ s = {} := by
  constructor
  · intro h
    induction paths with
    | nil => exact .inr ⟨List.forall_mem_nil _, (Except.ok.inj h).symm⟩
    | cons path paths ih =>
      cases hload : host.load path with
      | ok text =>
        rw [searchSettings_of_there hload] at h
        exact .inl ⟨[], path, paths, rfl, List.forall_mem_nil _, text, hload, h⟩
      | error e =>
        cases he : e.isAbsent with
        | false =>
          rw [searchSettings_of_unreadable hload he] at h
          cases h
        | true =>
          have habsent : ∀ p ∈ [path], Absent host p :=
            List.forall_mem_singleton.2 ⟨e, hload, he⟩
          have hrest : searchSettings host paths = Except.ok s :=
            (searchSettings_append habsent paths).symm.trans h
          obtain ⟨before, p, after, rfl, hbefore, hfound⟩ | ⟨hall, rfl⟩ := ih hrest
          · exact .inl ⟨path :: before, p, after, rfl,
              List.forall_mem_cons.2 ⟨⟨e, hload, he⟩, hbefore⟩, hfound⟩
          · exact .inr ⟨List.forall_mem_cons.2 ⟨⟨e, hload, he⟩, hall⟩, rfl⟩
  · rintro (⟨before, path, after, rfl, hbefore, text, hload, hread⟩ | ⟨hall, rfl⟩)
    · rw [searchSettings_append hbefore, searchSettings_of_there hload]
      exact hread
    · rw [← List.append_nil paths, searchSettings_append hall]
      rfl

/-- The file that the arguments name is all that counts. -/
lemma baseSettings_of_named {host : Host Id} {a : Arguments} {path : String}
    (h : a.config = some path) : baseSettings host a = settingsOf path (host.load path) := by
  unfold baseSettings
  rw [h]
  rfl

/-- Without a named file the others are looked for. -/
lemma baseSettings_of_none {host : Host Id} {a : Arguments} (h : a.config = none) :
    baseSettings host a = searchSettings host (configPaths (host.environment "XDG_CONFIG_HOME")
      (nonempty (host.environment "HOME"))) := by
  unfold baseSettings
  rw [h]
  rfl

/-- What a run begins with is its configuration. -/
theorem baseSettings_eq_ok_iff (host : Host Id) (a : Arguments) (s : Settings) :
    baseSettings host a = Except.ok s ↔ Configured host a s := by
  cases hconfig : a.config with
  | some path =>
    rw [baseSettings_of_named hconfig]
    constructor
    · intro h
      cases hload : host.load path with
      | ok text =>
        rw [hload] at h
        exact .named hconfig hload h
      | error e =>
        rw [hload] at h
        cases h
    · intro h
      cases h with
      | named hpath hload hread =>
        obtain rfl := Option.some.inj (hconfig.symm.trans hpath)
        rw [hload]
        exact hread
      | found hnone => exact absurd (hconfig.symm.trans hnone) (Option.some_ne_none path)
      | default hnone => exact absurd (hconfig.symm.trans hnone) (Option.some_ne_none path)
  | none =>
    rw [baseSettings_of_none hconfig, searchSettings_eq_ok_iff]
    constructor
    · rintro (⟨before, path, after, hpaths, hbefore, text, hload, hread⟩ | ⟨hall, rfl⟩)
      · exact .found hconfig hpaths hbefore hload hread
      · exact .default hconfig hall
    · intro h
      cases h with
      | named hpath => exact absurd (hpath.symm.trans hconfig) (Option.some_ne_none _)
      | found _ hpaths hbefore hload hread =>
        exact .inl ⟨_, _, _, hpaths, hbefore, _, hload, hread⟩
      | default _ hall => exact .inr ⟨hall, rfl⟩

/-! ### The settings of a run -/

/-- A run lays its layers over its configuration. -/
lemma loadSettings_eq_ok_iff_effective (host : Host Id) (a : Arguments) (s : Settings) :
    loadSettings host a = Except.ok s ↔ ∃ base, Configured host a base ∧
      a.effective host.environment base = .ok s := by
  simp only [← baseSettings_eq_ok_iff]
  have hvalues : ∀ base, a.effective (fun name =>
      ((environmentNames.map fun name => (name, host.environment name)).lookup name).join) base =
      a.effective host.environment base := by
    intro base
    have hlayer : ∀ name ∈ environmentNames, ((environmentNames.map fun name =>
        (name, host.environment name)).lookup name).join = host.environment name := by
      intro name hname
      rw [lookup_map_mk host.environment hname]
      rfl
    unfold Arguments.effective
    rw [withEnvironment_eq_laidOver, withEnvironment_eq_laidOver, Layer.ofEnvironment_congr hlayer]
  have hload : loadSettings host a = (match baseSettings host a with
      | Except.error e => Except.error e
      | Except.ok base => a.effective (fun name => ((environmentNames.map fun name =>
        (name, host.environment name)).lookup name).join) base) := rfl
  rw [hload]
  cases hbase : baseSettings host a with
  | error e => exact iff_of_false nofun fun ⟨_, h, _⟩ => nomatch h
  | ok base =>
    show a.effective _ base = _ ↔ _
    rw [hvalues]
    constructor
    · exact fun h => ⟨base, rfl, h⟩
    · rintro ⟨_, h, heffective⟩
      rwa [Except.ok.inj h]

/-- On a host that gives the same whenever it is asked, a run has settings just when its layers
decide them over its configuration and they can be used. -/
theorem loadSettings_eq_ok_iff (host : Host Id) (a : Arguments) (s : Settings) :
    loadSettings host a = Except.ok s ↔ ∃ base profile, Configured host a base ∧
      Chosen base.profiles a.profile profile ∧
      Decided (a.layers profile host.environment) base s ∧ s.Valid := by
  rw [loadSettings_eq_ok_iff_effective]
  constructor
  · rintro ⟨base, hbase, h⟩
    obtain ⟨profile, hprofile⟩ := (a.effective_eq_ok_iff host.environment base s).1 h
    exact ⟨base, profile, hbase, hprofile⟩
  · rintro ⟨base, profile, hbase, hprofile⟩
    exact ⟨base, hbase, (a.effective_eq_ok_iff host.environment base s).2 ⟨profile, hprofile⟩⟩

/-- The file is not the first that is looked for, but the first that there is. Its profile is above
the environment, which is above the rest of the file. -/
example :
    let host : Host Id :=
      { load := fun path =>
          if path = "/home/u/.config/rete-topology/config.toml" then
            Except.ok "[topology]\nname = \"n\"\nworkers = 7\n[profiles.big]\nworkers = 9\n"
          else Except.error ⟨.missing, "no such file"⟩
        store := fun _ _ => Except.ok ()
        input := Except.ok ""
        environment := fun name =>
          if name = "HOME" then some "/home/u" else if name = "RETE_WORKERS" then some "8"
          else if name = "RETE_PARALLELISM" then some "5" else none }
    (loadSettings host { profile := some "big", source := some "facts" } :
      Except SettingsError Settings).toOption.map (fun s =>
        (s.name, s.workers, s.wiring.parallelism, s.compiling.source, s.compiling.axiomSource)) =
      some ("n", 9, 5, "facts", "axioms") := by
  decide +kernel

end CommandLine
end RuleFlow
