import RuleFlow.Graph.Basic

/-!
# Topology graphs as text

`Graph.dot` writes a graph in the DOT language for drawing, `Graph.summary` writes one line for
every operator with what flows into it.
-/

namespace RuleFlow

/-- The shape in which operators of a kind are drawn. -/
def Kind.shape : Kind → String
  | .filter => "box"
  | .join => "diamond"
  | .terminal => "octagon"
  | .conflictSet => "doublecircle"
  | .axiomSource => "house"

namespace Dot

/-- A character of a name as it stands between quotes. -/
def escapeChar (c : Char) : List Char :=
  if c = '\\' then ['\\', '\\']
  else if c = '"' then ['\\', '"']
  else [c]

/-- A name as it stands between quotes. -/
def escape (s : String) : String := String.ofList (s.toList.flatMap escapeChar)

end Dot

/-- The shape in which a node is drawn. -/
def Node.shape (n : Node) : String :=
  match n.kind with
  | none => "house"
  | some kind => kind.shape

/-- The label of a node: its name and, on a line of its own, the kind of an operator with the
number of its instances. -/
def Node.label (n : Node) : String :=
  match n.kind, n.parallelism with
  | none, _ => Dot.escape n.name
  | some kind, some p => Dot.escape n.name ++ "\\n" ++ kind.name ++ " x" ++ toString p
  | some kind, none => Dot.escape n.name ++ "\\n" ++ kind.name

namespace Graph

/-- The statement for the node at a place. -/
def dotNode (n : Node) (place : Nat) : String :=
  "  n" ++ toString place ++ " [label=\"" ++ n.label ++ "\" shape=" ++ n.shape ++ "];\n"

/-- Whether an edge leads from the conflict set back into a filter. -/
def isFeedback (g : Graph) (e : Edge) : Bool :=
  (g.nodes[e.source]?).bind (·.kind) = some .conflictSet &&
    (g.nodes[e.target]?).bind (·.kind) = some .filter

/-- The statement for an edge. -/
def dotEdge (g : Graph) (e : Edge) : String :=
  "  n" ++ toString e.source ++ " -> n" ++ toString e.target ++ " [label=\"" ++
    e.grouping.render ++ "\"" ++ (if g.isFeedback e then " style=dashed" else "") ++ "];\n"

/-- The graph in the DOT language. Edges that lead back into filters are dashed. -/
def dot (g : Graph) : String :=
  "digraph \"" ++ Dot.escape g.name ++ "\" \x7b\n  rankdir=LR;\n" ++
  Text.concat (g.nodes.zipIdx.map fun (n, place) => dotNode n place) ++
  Text.concat (g.edges.map g.dotEdge) ++ "\x7d\n"

/-- The kinds that a summary counts. -/
def summaryKinds : List Kind := [.filter, .join, .terminal, .conflictSet]

/-- The line of the summary for an operator. -/
def summaryLine (g : Graph) (n : Node) (kind : Kind) : String :=
  n.name ++ " [" ++ kind.name ++ " x" ++ toString (n.parallelism.getD 1) ++ "] <- " ++
  Text.joinWith ", " ((g.inputs n.name).map fun (origin, grouping) =>
    origin ++ " (" ++ grouping.render ++ ")") ++ "\n"

/-- The graph in words: its limits, how many operators of each kind and axioms there are, and
every operator with what flows into it. -/
def summary (g : Graph) : String :=
  "topology " ++ g.name ++ " (" ++ toString g.workers ++ " workers, max parallelism " ++
    toString g.maxParallelism ++ ")\n" ++
  Text.concat (summaryKinds.map fun kind =>
    "  " ++ kind.name ++ "s: " ++ toString (g.count kind) ++ "\n") ++
  "  axioms: " ++ toString g.axioms.length ++ "\n" ++
  Text.concat (g.nodes.filterMap fun n => n.kind.map (g.summaryLine n))

end Graph
end RuleFlow
