import RuleFlow.Network.Plan
import RuleFlow.Network.Registry
import RuleFlow.Network.Report

/-!
# Compiling rules

A network is compiled from a list of rules. Axioms give their heads to the axiom source. Every
other rule is brought into its canonical form, its body is planned, and its operators are
adopted by the registry, where rules share what has one name; a terminal of its own ends it.

What is planned for a rule, and whether it is left out, depends on the rule alone: `planRule`
does not see the registry. The registry fails only when the options give one of its fixed
names the form of an operator's name.
-/

namespace RuleFlow

/-- What a compilation can be told besides the rules. -/
structure CompileOptions where
  /-- The name of the source of facts. -/
  source : String := "source"
  /-- The name of the source of axioms. -/
  axiomSource : String := "axioms"
  /-- The name of the conflict set. -/
  conflictSet : String := "conflict_set"
  /-- What joins remember. -/
  window : Window := {}
  /-- How many orders of tied clauses may be tried for a canonical form. -/
  searchBound : Nat := Canonical.defaultBound
  /-- The builtins that cannot run in a network. -/
  unsupportedBuiltins : List String := ["drop", "table", "tableAll", "remove", "hide"]
  deriving DecidableEq, Inhabited

/-- What ends a whole compilation. -/
inductive CompileError where
  /-- The source of facts and the source of axioms have one name. -/
  | sameSources (name : String)
  /-- The conflict set has the name of a source. -/
  | conflictSetIsSource (name : String)
  /-- The registry refuses an operator. -/
  | registry (error : RegistryError)
  deriving DecidableEq

namespace CompileError

/-- The error in words. -/
def message : CompileError → String
  | .sameSources name => "Raw-fact source and axiom source are both named " ++ name
  | .conflictSetIsSource name => "Conflict set " ++ name ++ " shares its name with a source"
  | .registry error => error.message

/-- The diagnostic of the error. -/
def diagnostic : CompileError → Diagnostic
  | .registry error => error.diagnostic
  | e => ⟨.validationError, e.message, none, none⟩

end CompileError

/-- A compiled network. -/
structure Network where
  /-- The operators. -/
  registry : Registry
  /-- The name of the source of facts. -/
  source : String
  /-- The name of the source of axioms. -/
  axiomSource : String
  /-- The name of the conflict set. -/
  conflictSet : String
  /-- What became of the rules. -/
  report : Report
  deriving DecidableEq, Inhabited

namespace Network

/-- The operators in the order in which they came. -/
def operators (n : Network) : List Operator := n.registry.toList

/-- The filters in order. -/
def filters (n : Network) : List Filter := n.operators.filterMap Operator.filter?

/-- The joins in order. -/
def joins (n : Network) : List Join := n.operators.filterMap Operator.join?

/-- The terminals in order. -/
def terminals (n : Network) : List Terminal := n.operators.filterMap Operator.terminal?

theorem mem_filters_iff {n : Network} {f : Filter} : f ∈ n.filters ↔ .filter f ∈ n.operators := by
  simp [filters]

theorem mem_joins_iff {n : Network} {j : Join} : j ∈ n.joins ↔ .join j ∈ n.operators := by
  simp [joins]

/-- The terminals are the terminals among the operators. -/
theorem mem_terminals_iff {n : Network} {t : Terminal} :
    t ∈ n.terminals ↔ .terminal t ∈ n.operators := by
  simp [terminals]

/-- The first terminal of a rule. -/
def terminalFor? (n : Network) (rule : String) : Option Terminal :=
  n.terminals.find? (·.rule = rule)

/-- The axioms in the order of the rules. -/
def axioms (n : Network) : List Pattern :=
  match n.registry.get? n.axiomSource with
  | some (.axiomSource _ axioms) => axioms
  | _ => []

/-! ## Plans for rules -/

/-- The patterns of the head of an axiom. -/
def axiomHeads (r : Rule) : Except SkipReason (List Pattern) :=
  r.head.mapM fun c =>
    match c with
    | .pattern p => .ok p
    | c => .error (.axiomHead c)

/-- What a rule brings into the network. -/
structure RulePlan where
  /-- The name of the rule. -/
  name : String
  /-- The canonical form of the rule. -/
  rule : Rule
  /-- What matches its body. -/
  plan : Plan
  /-- The warnings about it. -/
  warnings : List Warning
  deriving DecidableEq

/-- The names of the functors of a rule, first of the body and then of the head. -/
def builtinsOf (r : Rule) : List String :=
  ((r.body ++ r.head).filterMap Clause.functor?).map (·.name)

/-- The plan for a rule that is no axiom. -/
def planRule (options : CompileOptions) (name : String) (r : Rule) :
    Except SkipReason RulePlan :=
  let bound := Canonical.boundFor options.searchBound
  let canonical := Canonical.canonicalRule bound r
  match canonical.body.find? Clause.isNested with
  | some nested => .error (.nestedInBody nested)
  | none =>
    match planBody bound options.window canonical.bodyPatterns with
    | none => .error .emptyPrior
    | some plan =>
      let unsupported := (builtinsOf canonical).filter (options.unsupportedBuiltins.contains ·)
      .ok ⟨name, canonical, plan,
        unsupported.map (.unsupportedBuiltin name) ++
          plan.crossJoins.map fun (left, right) => .crossJoin name left right⟩

/-- The terminal of a planned rule under a name that is still free. -/
def terminalOf (r : Registry) (p : RulePlan) : Terminal :=
  { name := r.uniqueName (p.name ++ "_terminal")
    rule := p.name
    prior := p.plan.prior.name
    vars := p.plan.prior.vars
    guards := p.rule.guards
    head := p.rule.head }

/-- Puts the operators of a planned rule into the registry, where they are not there yet, and
its terminal behind them. -/
def install (r : Registry) (p : RulePlan) : Except RegistryError Registry := do
  let r ← p.plan.operators.foldlM Registry.adopt r
  r.register (.terminal (terminalOf r p))

/-! ## Compiling a list of rules -/

/-- The rules with their names. A rule without a name is named by its place, from one on. -/
def named (rules : List Rule) : List (String × Rule) :=
  (rules.zipIdx 1).map fun (r, i) => (r.name.getD ("rule_" ++ toString i), r)

/-- What is left out among named results. -/
def skips {α : Type} (results : List (String × Except SkipReason α)) : List Skip :=
  results.filterMap fun (name, result) =>
    match result with
    | .ok _ => none
    | .error reason => some ⟨name, reason⟩

/-- What is kept of named results. -/
def kept {α : Type} (results : List (String × Except SkipReason α)) : List (String × α) :=
  results.filterMap fun (name, result) =>
    match result with
    | .ok value => some (name, value)
    | .error _ => none

/-- The heads of the axioms among the rules. -/
def axiomResults (rules : List (String × Rule)) :
    List (String × Except SkipReason (List Pattern)) :=
  (rules.filter (·.2.isAxiom)).map fun (name, r) => (name, axiomHeads r)

/-- The plans for the other rules. -/
def planResults (options : CompileOptions) (rules : List (String × Rule)) :
    List (String × Except SkipReason RulePlan) :=
  (rules.filter (!·.2.isAxiom)).map fun (name, r) => (name, planRule options name r)

/-- The registry with the operators of every network: the conflict set and the axiom source. -/
def foundation (options : CompileOptions) (axioms : List Pattern) :
    Except RegistryError Registry := do
  let r ← (Registry.empty.reserve options.source).register (.conflictSet options.conflictSet)
  r.register (.axiomSource options.axiomSource axioms)

/-- The registry with the operators of the axioms and the plans. -/
def build (options : CompileOptions) (axioms : List Pattern) (plans : List RulePlan) :
    Except RegistryError Registry := do
  plans.foldlM install (← foundation options axioms)

/-- The error of options whose names are not distinct. -/
def nameClash? (options : CompileOptions) : Option CompileError :=
  if options.source = options.axiomSource then some (.sameSources options.source)
  else if options.conflictSet = options.source ∨ options.conflictSet = options.axiomSource then
    some (.conflictSetIsSource options.conflictSet)
  else none

/-- Compiles a list of rules. -/
def compile (options : CompileOptions) (rules : List Rule) : Except CompileError Network :=
  match nameClash? options with
  | some error => .error error
  | none =>
    let rules := named rules
    let axioms := axiomResults rules
    let plans := planResults options rules
    match build options ((kept axioms).flatMap (·.2)) ((kept plans).map (·.2)) with
    | .error error => .error (.registry error)
    | .ok registry =>
      .ok {
        registry := registry
        source := options.source
        axiomSource := options.axiomSource
        conflictSet := options.conflictSet
        report := {
          compiled := (kept plans).map (·.1)
          axioms := (kept axioms).map (·.1)
          skipped := skips axioms ++ skips plans
          warnings := (kept plans).flatMap (·.2.warnings) } }

end Network
end RuleFlow
