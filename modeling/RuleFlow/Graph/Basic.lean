import RuleFlow.Network.Operator
import RuleFlow.Table

/-!
# Topology graphs

A topology graph has sources and operators as its nodes and says how tuples flow between them.
Nodes are declared under names and then known by their place among the nodes: declaring a name
again gives the place that it has. The graph finds places by an index of names, which is not
part of the written form of a graph.
-/

namespace RuleFlow

/-- How the tuples on an edge are dealt out to the instances of the operator at its end. -/
inductive Grouping where
  /-- In turn. -/
  | shuffle
  /-- Tuples with equal values at these positions go to one instance. -/
  | fields (positions : List Nat)
  /-- Every instance gets every tuple. -/
  | all
  /-- One instance gets all tuples. -/
  | global
  deriving DecidableEq, Inhabited

/-- The grouping in words. -/
def Grouping.render : Grouping → String
  | .shuffle => "shuffle"
  | .fields positions => "fields[" ++ Text.joinWith "," (positions.map toString) ++ "]"
  | .all => "all"
  | .global => "global"

/-- A source or an operator in a graph. -/
structure Node where
  /-- The name. -/
  name : String
  /-- The kind of an operator; a source has none. -/
  kind : Option Kind := none
  /-- How many instances an operator has. -/
  parallelism : Option Nat := none
  deriving DecidableEq, Inhabited

/-- Whether the node is a source. -/
def Node.isSource (n : Node) : Bool := n.kind.isNone

/-- A flow of tuples from one node to another. -/
structure Edge where
  /-- The place of the node where the tuples come from. -/
  source : Nat
  /-- The place of the node that gets them. -/
  target : Nat
  /-- How they are dealt out. -/
  grouping : Grouping
  deriving DecidableEq, Inhabited

/-- A topology. -/
structure Graph where
  /-- The name of the topology. -/
  name : String
  /-- How many workers it runs on. -/
  workers : Nat := 1
  /-- The most instances that an operator may have. -/
  maxParallelism : Nat := 1
  /-- The nodes, each at its place. -/
  nodes : List Node := []
  /-- The edges in the order in which they were made. -/
  edges : List Edge := []
  /-- The axioms as text. -/
  axioms : List String := []
  /-- The places of the names that were declared. -/
  index : Table Nat := {}
  deriving DecidableEq, Inhabited

namespace Graph

/-- The place of a name. -/
def idOf? (g : Graph) (name : String) : Option Nat := g.index.find? name

/-- The node of a name. -/
def node? (g : Graph) (name : String) : Option Node :=
  (g.idOf? name).bind (g.nodes[·]?)

/-- The operators of a kind in order. -/
def nodesOf (g : Graph) (kind : Kind) : List Node := g.nodes.filter (·.kind = some kind)

/-- How many operators of a kind there are. -/
def count (g : Graph) (kind : Kind) : Nat := (g.nodesOf kind).length

/-- The edges that end at a name, each as the name at its start and its grouping. -/
def inputs (g : Graph) (name : String) : List (String × Grouping) :=
  match g.idOf? name with
  | none => []
  | some id =>
    (g.edges.filter (·.target = id)).filterMap fun e =>
      (g.nodes[e.source]?).map fun n => (n.name, e.grouping)

/-- The edges that start at a name, each as the name at its end and its grouping. -/
def outputs (g : Graph) (name : String) : List (String × Grouping) :=
  match g.idOf? name with
  | none => []
  | some id =>
    (g.edges.filter (·.source = id)).filterMap fun e =>
      (g.nodes[e.target]?).map fun n => (n.name, e.grouping)

/-- Declares a node and gives its place. A name that is declared already keeps its node. -/
def declare (g : Graph) (n : Node) : Graph × Nat :=
  match g.idOf? n.name with
  | some id => (g, id)
  | none =>
    let id := g.nodes.length
    ({ g with nodes := g.nodes ++ [n], index := g.index.insert n.name id }, id)

/-- Declares a source. -/
def declareSource (g : Graph) (name : String) : Graph × Nat := g.declare ⟨name, none, none⟩

/-- Declares an operator. -/
def declareOperator (g : Graph) (name : String) (kind : Kind) (parallelism : Nat) :
    Graph × Nat :=
  g.declare ⟨name, some kind, some parallelism⟩

/-- Adds an edge. -/
def connect (g : Graph) (e : Edge) : Graph := { g with edges := g.edges ++ [e] }

/-- Adds several edges. -/
def connectAll (g : Graph) (es : List Edge) : Graph := es.foldl connect g

/-- Adds axioms. -/
def emitAxioms (g : Graph) (axioms : List Pattern) : Graph :=
  { g with axioms := g.axioms ++ axioms.map Pattern.render }

/-- A name that is declared already keeps its number, and the graph is left as it is. -/
@[simp] theorem declare_of_idOf? {g : Graph} {n : Node} {id : Nat} (h : g.idOf? n.name = some id) :
    g.declare n = (g, id) := by
  unfold declare
  rw [h]

/-- The number that a declaration gives is the one found under the name. -/
theorem idOf?_declare_self (g : Graph) (n : Node) :
    (g.declare n).1.idOf? n.name = some (g.declare n).2 := by
  unfold declare
  split
  · next id h => exact h
  · exact Table.find?_insert_self g.index n.name g.nodes.length

/-- Edges are added at the end, one by one. -/
theorem connectAll_eq (g : Graph) (es : List Edge) :
    g.connectAll es = { g with edges := g.edges ++ es } := by
  induction es generalizing g with
  | nil => rw [List.append_nil]; rfl
  | cons e es ih =>
    show (g.connect e).connectAll es = _
    rw [ih, connect, List.append_assoc, List.singleton_append]

end Graph
end RuleFlow
