import RuleFlow.Graph.Basic
import RuleFlow.Network.Compile

/-!
# Wiring networks

Wiring draws a compiled network into a graph. The source of facts feeds every filter, and so
does the conflict set, which closes the cycle. Each side of a join is dealt out by the values
that have to agree, so that tuples that fit meet in one instance; when nothing has to agree,
all goes to one instance. Terminals and the axiom source feed the conflict set.
-/

namespace RuleFlow

/-- How the derived facts flow back into the filters. -/
inductive Feedback where
  /-- Each fact reaches one instance. -/
  | shuffle
  /-- Each fact reaches every instance. -/
  | all
  deriving DecidableEq, Inhabited

namespace Feedback

/-- The choices. -/
def choices : List Feedback := [.shuffle, .all]

/-- The name of a choice. -/
def name : Feedback → String
  | .shuffle => "shuffle"
  | .all => "all"

/-- The choice of a name. -/
def ofName? (text : String) : Option Feedback := choices.find? (·.name = text)

/-- The choice that a text in small or capital letters means. -/
def ofText? (text : String) : Option Feedback :=
  match Text.lowerAscii text with
  | "broadcast" => some .all
  | name => ofName? name

/-- The choice as a grouping. -/
def grouping : Feedback → Grouping
  | .shuffle => .shuffle
  | .all => .all

end Feedback

/-- How many instances operators get, and how facts flow back. -/
structure WiringOptions where
  /-- The number of instances where nothing else is said. -/
  parallelism : Nat := 2
  /-- The number of instances of filters. -/
  filters : Option Nat := none
  /-- The number of instances of joins. -/
  joins : Option Nat := none
  /-- The number of instances of terminals. -/
  terminals : Option Nat := none
  /-- The most instances that an operator gets. -/
  maxParallelism : Nat := 4
  /-- How derived facts flow back. -/
  feedback : Feedback := .shuffle
  deriving DecidableEq, Inhabited

/-- The number of instances of operators of a kind: one of the conflict set and the axiom
source, and of the others what is wanted, but at least one and not more than allowed. -/
def WiringOptions.instances (o : WiringOptions) : Kind → Nat
  | .conflictSet | .axiomSource => 1
  | .filter => bounded o.filters
  | .join => bounded o.joins
  | .terminal => bounded o.terminals
where
  /-- A wanted number within the limits. -/
  bounded (wanted : Option Nat) : Nat :=
    max 1 (min (wanted.getD o.parallelism) (max 1 o.maxParallelism))

/-- Why a network cannot be drawn. -/
inductive WiringError where
  /-- An edge names an operator that was not declared. -/
  | unknownOperator (name : String)
  deriving DecidableEq

namespace WiringError

/-- The error in words. -/
def message : WiringError → String
  | .unknownOperator name => "Operator " ++ name ++ " was never declared"

/-- The diagnostic of the error. -/
def diagnostic (e : WiringError) : Diagnostic := ⟨.unknownOperator, e.message, none, none⟩

end WiringError

namespace Wiring

/-- The places of what an edge can lead to or come from. -/
structure Places where
  /-- The source of facts. -/
  source : Nat
  /-- The source of axioms. -/
  axiomSource : Nat
  /-- The conflict set. -/
  conflictSet : Nat
  /-- The filters, joins and terminals by name. -/
  operators : Table Nat := {}

/-- The place of an operator. -/
def Places.find (p : Places) (name : String) : Except WiringError Nat :=
  match p.operators.find? name with
  | some id => .ok id
  | none => .error (.unknownOperator name)

/-- Whether operators of a kind are declared one by one. The sources and the conflict set are
declared before them. -/
def isInner : Kind → Bool
  | .filter | .join | .terminal => true
  | .conflictSet | .axiomSource => false

/-- Declares the filters, joins and terminals among the operators. -/
def declareOperators (o : WiringOptions) (g : Graph) (places : Places) :
    List Operator → Graph × Places
  | [] => (g, places)
  | op :: ops =>
    if isInner op.kind then
      let (g, id) := g.declareOperator op.name op.kind (o.instances op.kind)
      declareOperators o g { places with operators := places.operators.insert op.name id } ops
    else declareOperators o g places ops

/-- How the two sides of a join are dealt out. -/
def sides (j : Join) : Grouping × Grouping :=
  if j.isCross then (.global, .global) else (.fields j.leftKey, .fields j.rightKey)

/-- The edges that an operator brings. -/
def edgesOf (feedback : Feedback) (places : Places) : Operator → Except WiringError (List Edge)
  | .filter f => do
    let id ← places.find f.name
    return [⟨places.source, id, .shuffle⟩, ⟨places.conflictSet, id, feedback.grouping⟩]
  | .join j => do
    let id ← places.find j.name
    let left ← places.find j.left
    let right ← places.find j.right
    return [⟨left, id, (sides j).1⟩, ⟨right, id, (sides j).2⟩]
  | .terminal t => do
    let id ← places.find t.name
    let prior ← places.find t.prior
    return [⟨prior, id, .shuffle⟩, ⟨id, places.conflictSet, .shuffle⟩]
  | .conflictSet _ => .ok [⟨places.axiomSource, places.conflictSet, .global⟩]
  | .axiomSource .. => .ok []

/-- Declares the nodes of a network. -/
def declareAll (o : WiringOptions) (n : Network) (g : Graph) : Graph × Places :=
  let (g, source) := g.declareSource n.source
  let (g, axiomSource) := g.declareSource n.axiomSource
  let g := g.emitAxioms n.axioms
  let (g, conflictSet) :=
    g.declareOperator n.conflictSet .conflictSet (o.instances .conflictSet)
  declareOperators o g ⟨source, axiomSource, conflictSet, {}⟩ n.operators

end Wiring

/-- Draws a network into a graph. -/
def Network.wire (o : WiringOptions) (n : Network) (g : Graph) : Except WiringError Graph := do
  let (g, places) := Wiring.declareAll o n g
  let edges ← n.operators.mapM (Wiring.edgesOf o.feedback places)
  return g.connectAll edges.flatten

end RuleFlow
