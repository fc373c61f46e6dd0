import RuleFlow.Graph.Basic
import RuleFlow.Json.Reader
import RuleFlow.Json.Record
import RuleFlow.Json.Writer

/-!
# Topology graphs as JSON

A graph is a record of its name, limits, nodes, edges and axioms. What a source lacks, and an
empty list of axioms, is left out. The index of names is not written, so a graph that is read
has an empty one.
-/

namespace RuleFlow

namespace Grouping

/-- The grouping as a choice. -/
def toJson : Grouping → Json
  | .fields positions => .object [("fields", .array (positions.map Json.ofNat))]
  | g => .string g.render

/-- The grouping that a choice gives. -/
def ofJson? (j : Json) : Option Grouping :=
  match j with
  | .object [("fields", positions)] => do
    let items ← positions.items?
    some (.fields (← items.mapM Json.word?))
  | j => do
    let name ← j.choice?
    [shuffle, all, global].find? (·.render = name)

end Grouping

namespace Node

/-- The node as a record. -/
def toJson (n : Node) : Json :=
  .object ([("name", .string n.name)] ++
    (match n.kind with
      | some kind => [("kind", .string kind.name)]
      | none => []) ++
    (match n.parallelism with
      | some p => [("parallelism", Json.ofNat p)]
      | none => []))

/-- The node that a record gives. -/
def ofJson? (j : Json) : Option Node := do
  let [name, kind, parallelism] ← j.record? ["name", "kind", "parallelism"] | none
  some { name := ← Json.required? Json.string? name
         kind := ← Json.optional? (fun k => k.choice?.bind Kind.ofName?) kind
         parallelism := ← Json.optional? Json.word? parallelism }

end Node

namespace Edge

/-- The edge as a record. -/
def toJson (e : Edge) : Json :=
  .object [("from", Json.ofNat e.source), ("to", Json.ofNat e.target),
    ("grouping", e.grouping.toJson)]

/-- The edge that a record gives. -/
def ofJson? (j : Json) : Option Edge := do
  let [source, target, grouping] ← j.record? ["from", "to", "grouping"] | none
  some { source := ← Json.required? Json.word? source
         target := ← Json.required? Json.word? target
         grouping := ← Json.required? Grouping.ofJson? grouping }

end Edge

namespace Graph

/-- The graph as a record. -/
def toJson (g : Graph) : Json :=
  .object ([("name", .string g.name), ("workers", Json.ofNat g.workers),
    ("max_parallelism", Json.ofNat g.maxParallelism),
    ("nodes", .array (g.nodes.map Node.toJson)), ("edges", .array (g.edges.map Edge.toJson))] ++
    if g.axioms.isEmpty then [] else [("axioms", Json.strings g.axioms)])

/-- The graph as a text of JSON with one item a line. -/
def jsonText (g : Graph) : String := g.toJson.pretty

/-- The records of an array. -/
def listOf? {α : Type} (read? : Json → Option α) (j : Json) : Option (List α) := do
  let items ← j.items?
  items.mapM read?

/-- The graph that a record gives, with an empty index. -/
def ofJson? (j : Json) : Option Graph := do
  let [name, workers, maxParallelism, nodes, edges, axioms] ←
    j.record? ["name", "workers", "max_parallelism", "nodes", "edges", "axioms"] | none
  some { name := ← Json.required? Json.string? name
         workers := ← Json.required? Json.word? workers
         maxParallelism := ← Json.required? Json.word? maxParallelism
         nodes := ← Json.required? (listOf? Node.ofJson?) nodes
         edges := ← Json.required? (listOf? Edge.ofJson?) edges
         axioms := ← Json.orDefault? [] Json.strings? axioms }

/-- The graph that a text of JSON gives. -/
def ofJsonText? (text : String) : Option Graph := (Json.ofText? text).bind ofJson?

end Graph
end RuleFlow
