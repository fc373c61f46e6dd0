import Mathlib.Logic.Relation
import RuleFlow.Graph.Render
import RuleFlow.Proofs.Graph.Flows

/-!
# The graph of a compiled network

A compiled network is wired into a fresh graph without an error, and the graph then has exactly
the nodes and edges of the network (`Shape`, `compile_wired`). All names of a compiled network
are different, so each operator gets a node of its own, three places behind its place among the
operators of rules (`Compiled.place`).

As joins and terminals take their tuples from operators before them, edges lead to higher
places, the conflict set apart, and no way leads in a circle unless it takes a flow back into a
filter.
-/

namespace RuleFlow

namespace Graph

/-! ## Circles -/

/-- No way along the edges leads back to where it began. -/
def Acyclic (es : List Edge) : Prop :=
  ∀ place, ¬ Relation.TransGen (fun p q => ∃ e ∈ es, e.source = p ∧ e.target = q) place place

/-- There is no circle when each edge leads to a higher rank. -/
theorem acyclic_of_rank {es : List Edge} (rank : ℕ → ℕ)
    (h : ∀ e ∈ es, rank e.source < rank e.target) : Acyclic es := by
  have hway : ∀ p q, Relation.TransGen (fun p q => ∃ e ∈ es, e.source = p ∧ e.target = q) p q →
      rank p < rank q := by
    intro p q hpq
    induction hpq with
    | single hstep =>
      obtain ⟨e, he, rfl, rfl⟩ := hstep
      exact h e he
    | tail _ hstep ih =>
      obtain ⟨e, he, rfl, rfl⟩ := hstep
      exact ih.trans (h e he)
  exact fun place hcircle => (hway place place hcircle).false

/-- The edges that do not lead from the conflict set back into a filter. -/
def forward (g : Graph) : List Edge := g.edges.filter fun e => !g.isFeedback e

end Graph

namespace Wiring
open RuleFlow.Graph Network

/-! ## Compiled networks -/

/-- A network as a compilation makes it. -/
structure Compiled (n : Network) (axioms : List Pattern) (ops : List Operator) : Prop where
  /-- The operators of rules come behind the conflict set and the axiom source. -/
  operators : n.operators = .conflictSet n.conflictSet :: .axiomSource n.axiomSource axioms :: ops
  /-- They are filters, joins and terminals. -/
  inner : ∀ op ∈ ops, isInner op.kind = true
  /-- All names are different. -/
  nodup : (n.source :: n.operators.map Operator.name).Nodup
  /-- Each operator is linked to those before it. -/
  layered : Layered n.operators

/-- A compiled network has the operators of its rules behind the conflict set and the axiom
source. -/
theorem exists_compiled {options : CompileOptions} {rules : List Rule} {n : Network}
    (h : compile options rules = .ok n) : ∃ axioms ops, Compiled n axioms ops := by
  obtain ⟨⟨htidy, hlayered⟩, hreserved, ops, hops, hkinds⟩ := compile_ordered h
  refine ⟨_, ops, hops, ?_, ?_, hlayered⟩
  · intro op hop
    rcases hkinds op hop with hkind | hkind
    · cases op <;> first | rfl | exact nomatch hkind
    · rw [hkind]
      rfl
  · refine List.nodup_cons.2 ⟨?_, htidy.nodup⟩
    intro hmem
    obtain ⟨op, hop, hname⟩ := List.mem_map.1 hmem
    exact htidy.unreserved op hop (hreserved ▸ List.mem_singleton.2 hname)

section
variable {n : Network} {axioms : List Pattern} {ops : List Operator} {g : Graph}
  {o : WiringOptions}

/-- The operators of rules are linked one to another. -/
lemma Compiled.layered_ops (h : Compiled n axioms ops) : Layered ops := by
  intro before op after hsplit
  have hall := h.layered
    (.conflictSet n.conflictSet :: .axiomSource n.axiomSource axioms :: before) op after
    (by rw [h.operators, hsplit]; rfl)
  refine hall.transfer ?_
  rintro name k ⟨op', hop', hshared, hrest⟩
  -- the conflict set and the axiom source give out nothing
  rcases List.mem_cons.1 hop' with rfl | hop'
  · exact nomatch hshared
  · rcases List.mem_cons.1 hop' with rfl | hop'
    · exact nomatch hshared
    · exact ⟨op', hop', hshared, hrest⟩

/-- The sources and the conflict set have the first three nodes. -/
lemma Compiled.nodesOf_eq (h : Compiled n axioms ops) :
    nodesOf o n = ⟨n.source, none, none⟩ :: ⟨n.axiomSource, none, none⟩ ::
      ⟨n.conflictSet, some .conflictSet, some (o.instances .conflictSet)⟩ ::
      ops.map (nodeOf o) := by
  have hinner : innerNodes o ops = ops.map (nodeOf o) := by
    rw [innerNodes, List.filter_eq_self.2 h.inner]
  rw [nodesOf, h.operators, innerNodes_cons, innerNodes_cons, hinner]
  rfl

/-- The nodes have the names of the operators and of the source of facts. -/
lemma Compiled.perm_names (h : Compiled n axioms ops) :
    ((nodesOf o n).map Node.name).Perm (n.source :: n.operators.map Operator.name) := by
  rw [h.nodesOf_eq, h.operators]
  simp only [List.map_cons, List.map_map, Operator.name]
  exact (List.Perm.swap _ _ _).cons _

/-- The places of the sources and of the conflict set. -/
lemma Compiled.fixed (h : Compiled n axioms ops) (hg : g.Indexed) (hnodes : g.nodes = nodesOf o n) :
    g.idOf? n.source = some 0 ∧ g.idOf? n.axiomSource = some 1 ∧
    g.idOf? n.conflictSet = some 2 := by
  rw [hg, hg, hg, hnodes, h.nodesOf_eq]
  exact ⟨rfl, rfl, rfl⟩

/-- The place of an operator of a rule. -/
lemma Compiled.place (h : Compiled n axioms ops) (hg : g.Indexed) (hnodes : g.nodes = nodesOf o n)
    {before after : List Operator} {op : Operator} (hsplit : ops = before ++ op :: after) :
    g.idOf? op.name = some (before.length + 3) ∧
    g.nodes[before.length + 3]? = some (nodeOf o op) := by
  have hnode : g.nodes[before.length + 3]? = some (nodeOf o op) := by
    rw [hnodes, h.nodesOf_eq, hsplit]
    simp
  refine ⟨(hg _ _).2 ?_, hnode⟩
  rw [List.getElem?_map, hnode]
  rfl

/-- The operators of rules are filters, joins and terminals. -/
lemma inner_cases {op : Operator} (h : isInner op.kind = true) :
    (∃ f, op = .filter f) ∨ (∃ j, op = .join j) ∨ ∃ t, op = .terminal t := by
  cases op with
  | filter f => exact .inl ⟨f, rfl⟩
  | join j => exact .inr (.inl ⟨j, rfl⟩)
  | terminal t => exact .inr (.inr ⟨t, rfl⟩)
  | _ => exact nomatch h

/-! ### How many edges there are -/

lemma length_flatMap_flowsOf (feedback : Feedback) (n : Network)
    (hinner : ∀ op ∈ ops, isInner op.kind = true) :
    (ops.flatMap (flowsOf feedback n)).length =
      2 * (ops.filterMap Operator.filter?).length + 2 * (ops.filterMap Operator.join?).length +
      2 * (ops.filterMap Operator.terminal?).length := by
  induction ops with
  | nil => rfl
  | cons op ops ih =>
    obtain ⟨hop, hrest⟩ := List.forall_mem_cons.1 hinner
    rw [List.flatMap_cons, List.length_append, ih hrest]
    rcases inner_cases hop with ⟨f, rfl⟩ | ⟨j, rfl⟩ | ⟨t, rfl⟩
    all_goals
      simp only [flowsOf, List.filterMap_cons, Operator.filter?, Operator.join?, Operator.terminal?,
        List.length_cons, List.length_nil]
      omega

/-- There are two flows for each operator inside, and one for the axioms. -/
theorem Compiled.length_flows (h : Compiled n axioms ops) (feedback : Feedback) :
    (flows feedback n).length =
      2 * n.filters.length + 2 * n.joins.length + 2 * n.terminals.length + 1 := by
  rw [flows, filters, joins, terminals, h.operators]
  have hlength := length_flatMap_flowsOf feedback n h.inner
  simp only [List.flatMap_cons, flowsOf, List.length_append, List.length_cons, List.length_nil,
    List.filterMap_cons, Operator.filter?, Operator.join?, Operator.terminal?, hlength]
  omega

/-! ### Flows to the conflict set -/

lemma filter_flatMap_flowsOf (feedback : Feedback) (n : Network)
    (hinner : ∀ op ∈ ops, isInner op.kind = true)
    (hnames : n.conflictSet ∉ ops.map Operator.name) :
    (ops.flatMap (flowsOf feedback n)).filter (·.target = n.conflictSet) =
      (ops.filterMap Operator.terminal?).map fun t => ⟨t.name, n.conflictSet, .shuffle⟩ := by
  induction ops with
  | nil => rfl
  | cons op ops ih =>
    obtain ⟨hop, hrest⟩ := List.forall_mem_cons.1 hinner
    rw [List.map_cons, List.mem_cons, not_or] at hnames
    rw [List.flatMap_cons, List.filter_append, ih hrest hnames.2]
    have hne := Ne.symm hnames.1
    rcases inner_cases hop with ⟨f, rfl⟩ | ⟨j, rfl⟩ | ⟨t, rfl⟩
    all_goals
      simp only [Operator.name] at hne
      simp [flowsOf, List.filterMap_cons, Operator.terminal?, hne]

/-- The conflict set hears from the axioms and from the terminals. -/
theorem Compiled.filter_flows_conflictSet (h : Compiled n axioms ops) (feedback : Feedback) :
    (flows feedback n).filter (·.target = n.conflictSet) =
      ⟨n.axiomSource, n.conflictSet, .global⟩ ::
        n.terminals.map fun t => ⟨t.name, n.conflictSet, .shuffle⟩ := by
  have hnew : n.conflictSet ∉ ops.map Operator.name := by
    have hnodup := (List.nodup_cons.1 h.nodup).2
    rw [h.operators] at hnodup
    exact fun hmem => (List.nodup_cons.1 hnodup).1 (List.mem_cons_of_mem _ hmem)
  rw [flows, terminals, h.operators]
  simp only [List.flatMap_cons, flowsOf, List.singleton_append, List.nil_append,
    List.filter_cons_of_pos, decide_true, List.filterMap_cons, Operator.terminal?]
  rw [filter_flatMap_flowsOf feedback n h.inner hnew]

/-! ### No circles -/

/-- The rank of a place: the conflict set comes behind all others. -/
def rank (size place : ℕ) : ℕ := if place = 2 then size else place

lemma rank_of_ne {size place : ℕ} (h : place ≠ 2) : rank size place = place := if_neg h

/-- What an operator takes its tuples from has a lower place. -/
lemma Compiled.rank_lt_of_supplies (h : Compiled n axioms ops) (hg : g.Indexed)
    (hnodes : g.nodes = nodesOf o n) {before after : List Operator} {op : Operator}
    (hsplit : ops = before ++ op :: after) {name : String} {k p q : ℕ}
    (hname : Supplies before name k) (hp : g.idOf? name = some p) (hq : g.idOf? op.name = some q) :
    rank g.nodes.length p < rank g.nodes.length q := by
  obtain ⟨op', hop', -, rfl, -⟩ := hname
  obtain ⟨before', after', rfl⟩ := List.append_of_mem hop'
  obtain ⟨hplace, -⟩ := h.place hg hnodes hsplit
  rw [List.append_assoc] at hsplit
  obtain ⟨hplace', -⟩ := h.place hg hnodes hsplit
  rw [hplace', Option.some.injEq] at hp
  rw [hplace, Option.some.injEq, List.length_append, List.length_cons] at hq
  rw [rank_of_ne (by omega), rank_of_ne (by omega)]
  omega

/-- Edges from the conflict set to filters are those that lead back. -/
lemma Compiled.isFeedback_of_filter (h : Compiled n axioms ops) (hg : g.Indexed)
    (hnodes : g.nodes = nodesOf o n) {before after : List Operator} {f : Filter}
    (hsplit : ops = before ++ .filter f :: after) {e : Edge}
    (hfrom : g.idOf? n.conflictSet = some e.source) (hto : g.idOf? f.name = some e.target) :
    g.isFeedback e = true := by
  obtain ⟨-, -, hconflict⟩ := h.fixed hg hnodes
  obtain ⟨hplace, hnode⟩ := h.place hg hnodes hsplit
  change g.idOf? f.name = _ at hplace
  rw [hconflict, Option.some.injEq] at hfrom
  rw [hplace, Option.some.injEq] at hto
  have hnode' : g.nodes[2]? = some ⟨n.conflictSet, some .conflictSet,
      some (o.instances .conflictSet)⟩ := by
    rw [hnodes, h.nodesOf_eq]
    rfl
  rw [isFeedback, ← hfrom, ← hto, hnode, hnode']
  rfl

/-- The edge of a flow that an operator of a rule brings leads to a higher rank, if not back into
a filter. -/
lemma Compiled.rank_lt_of_split (h : Compiled n axioms ops) (hg : g.Indexed)
    (hnodes : g.nodes = nodesOf o n) {before after : List Operator} {op : Operator}
    (hsplit : ops = before ++ op :: after) {feedback : Feedback} {f : Flow}
    (hf : f ∈ flowsOf feedback n op) {e : Edge} (hdrawn : Drawn g f e)
    (hforward : g.isFeedback e = false) :
    rank g.nodes.length e.source < rank g.nodes.length e.target := by
  obtain ⟨hsource, -, hconflict⟩ := h.fixed hg hnodes
  obtain ⟨hplace, -⟩ := h.place hg hnodes hsplit
  obtain ⟨hfrom, hto, -⟩ := hdrawn
  have hlinked := h.layered_ops before op after hsplit
  have hinner := h.inner op (hsplit ▸ List.mem_append_right _ List.mem_cons_self)
  rcases inner_cases hinner with ⟨p, rfl⟩ | ⟨j, rfl⟩ | ⟨t, rfl⟩ <;>
    simp only [flowsOf, List.mem_cons, List.not_mem_nil, or_false] at hf
  · rcases hf with rfl | rfl
    · change g.idOf? p.name = _ at hplace
      rw [hsource, Option.some.injEq] at hfrom
      rw [hplace, Option.some.injEq] at hto
      rw [← hfrom, ← hto, rank_of_ne (by decide), rank_of_ne (by omega)]
      omega
    · have hback := h.isFeedback_of_filter hg hnodes hsplit hfrom hto
      exact absurd hback (Bool.eq_false_iff.1 hforward)
  · obtain ⟨_, _, hleft, hright, -⟩ := hlinked
    rcases hf with rfl | rfl
    · exact h.rank_lt_of_supplies hg hnodes hsplit hleft hfrom hto
    · exact h.rank_lt_of_supplies hg hnodes hsplit hright hfrom hto
  · rcases hf with rfl | rfl
    · exact h.rank_lt_of_supplies hg hnodes hsplit hlinked hfrom hto
    · -- from the terminal to the conflict set, which comes behind all
      change g.idOf? t.name = _ at hplace
      rw [hplace, Option.some.injEq] at hfrom
      rw [hconflict, Option.some.injEq] at hto
      have hlt : before.length + 3 < g.nodes.length := by
        rw [hnodes, h.nodesOf_eq, hsplit]
        simp
      rw [← hfrom, ← hto, rank_of_ne (by omega), rank, if_pos rfl]
      exact hlt

/-- The edge of a flow that does not go back into a filter leads to a higher rank. -/
theorem Compiled.rank_lt (h : Compiled n axioms ops) (hg : g.Indexed)
    (hnodes : g.nodes = nodesOf o n) {feedback : Feedback} {f : Flow}
    (hf : f ∈ flows feedback n) {e : Edge} (hdrawn : Drawn g f e)
    (hforward : g.isFeedback e = false) :
    rank g.nodes.length e.source < rank g.nodes.length e.target := by
  obtain ⟨op, hop, hflow⟩ := List.mem_flatMap.1 hf
  rw [h.operators] at hop
  rcases List.mem_cons.1 hop with rfl | hop
  · -- from the axiom source to the conflict set
    obtain ⟨-, haxioms, hconflict⟩ := h.fixed hg hnodes
    obtain ⟨hfrom, hto, -⟩ := hdrawn
    obtain rfl := List.mem_singleton.1 hflow
    rw [haxioms, Option.some.injEq] at hfrom
    rw [hconflict, Option.some.injEq] at hto
    have hlt : 1 < g.nodes.length := by
      rw [hnodes, h.nodesOf_eq]
      simp
    rw [← hfrom, ← hto, rank_of_ne (by decide), rank, if_pos rfl]
    exact hlt
  · rcases List.mem_cons.1 hop with rfl | hop
    · exact absurd hflow List.not_mem_nil
    · obtain ⟨before, after, hsplit⟩ := List.append_of_mem hop
      exact h.rank_lt_of_split hg hnodes hsplit hflow hdrawn hforward

end

/-! ### The graph -/

/-- The graph has exactly the nodes and edges of the network. -/
structure Shape (o : WiringOptions) (n : Network) (g : Graph) : Prop where
  /-- No two nodes have one name. -/
  nodup : (g.nodes.map Node.name).Nodup
  /-- The sources, the conflict set and the operators of rules in their order. -/
  nodes : g.nodes = nodesOf o n
  /-- There is one node more than there are operators. -/
  nodeCount : g.nodes.length = n.operators.length + 1
  /-- There is one edge from the axiom source, and each operator of a rule brings two. -/
  edgeCount : g.edges.length =
    2 * n.filters.length + 2 * n.joins.length + 2 * n.terminals.length + 1
  /-- Edges lead from nodes to nodes. -/
  inRange : ∀ e ∈ g.edges, e.source < g.nodes.length ∧ e.target < g.nodes.length
  /-- A filter gets each fact at one instance. When feedback is shuffled, it gets what the
  conflict set gives back in the same way. -/
  shuffled : o.feedback = .shuffle → ∀ f ∈ n.filters,
    g.inputs f.name = [(n.source, .shuffle), (n.conflictSet, .shuffle)]
  /-- When feedback goes to all instances, each of them gets what the conflict set gives back. -/
  spread : o.feedback = .all → ∀ f ∈ n.filters,
    g.inputs f.name = [(n.source, .shuffle), (n.conflictSet, .all)]
  /-- A join gets its left side and then its right side, dealt out by their keys. -/
  join : ∀ j ∈ n.joins, g.inputs j.name =
    if j.isCross then [(j.left, .global), (j.right, .global)]
    else [(j.left, .fields j.leftKey), (j.right, .fields j.rightKey)]
  /-- A terminal gets what matches the body of its rule. -/
  terminal : ∀ t ∈ n.terminals, g.inputs t.name = [(t.prior, .shuffle)]
  /-- The conflict set gets the axioms and then what the terminals give out. -/
  conflictSet : g.inputs n.conflictSet =
    (n.axiomSource, .global) :: n.terminals.map fun t => (t.name, .shuffle)
  /-- Only ways back into filters lead in circles. -/
  acyclic : Acyclic g.forward

section
variable {n : Network} {axioms : List Pattern} {ops : List Operator} {g : Graph}
  {o : WiringOptions}

/-- The inputs of an operator are those of its flows that lead to it. -/
lemma Compiled.inputs (h : Compiled n axioms ops) (hg : g.Indexed) (hnodes : g.nodes = nodesOf o n)
    {feedback : Feedback} (hdrawn : List.Forall₂ (Drawn g) (flows feedback n) g.edges)
    {op : Operator} (hop : op ∈ n.operators) (hinner : isInner op.kind = true) :
    op.name ≠ n.conflictSet ∧
    g.inputs op.name = ((flowsOf feedback n op).filter (·.target = op.name)).map
      fun f => (f.source, f.grouping) := by
  have hnodup := (List.nodup_cons.1 h.nodup).2
  have hne : op.name ≠ n.conflictSet := by
    rw [h.operators] at hop hnodup
    intro heq
    rcases List.mem_cons.1 hop with rfl | hop
    · exact nomatch hinner
    · exact (List.nodup_cons.1 hnodup).1 (List.mem_map.2 ⟨op, hop, heq⟩)
  have hname : op.name ∈ g.nodes.map Node.name := by
    rw [hnodes, h.perm_names.mem_iff]
    exact List.mem_cons_of_mem _ (List.mem_map_of_mem hop)
  exact ⟨hne, by rw [inputs_of_drawn hg hdrawn hname, filter_flows feedback hnodup hop hne]⟩

/-- A graph in which just the network is drawn has its shape. -/
theorem Compiled.shape (h : Compiled n axioms ops) (hg : g.Indexed) (hnodes : g.nodes = nodesOf o n)
    (hdrawn : List.Forall₂ (Drawn g) (flows o.feedback n) g.edges) : Shape o n g := by
  have hperm := h.perm_names (o := o)
  rw [← hnodes] at hperm
  have hedge : ∀ e ∈ g.edges, ∃ f ∈ flows o.feedback n, Drawn g f e :=
    fun e he => exists_of_mem_right hdrawn he
  have hfilter : ∀ f ∈ n.filters,
      g.inputs f.name = [(n.source, .shuffle), (n.conflictSet, o.feedback.grouping)] := by
    intro f hf
    obtain ⟨-, hinputs⟩ := h.inputs hg hnodes hdrawn (mem_filters_iff.1 hf) rfl
    simpa [flowsOf, Operator.name] using hinputs
  constructor
  · exact hg.nodup
  · exact hnodes
  · simpa using hperm.length_eq
  · rw [← hdrawn.length_eq, h.length_flows]
  · intro e he
    obtain ⟨f, -, hf⟩ := hedge e he
    exact hf.lt hg
  · intro hfeedback
    rwa [hfeedback] at hfilter
  · intro hfeedback
    rwa [hfeedback] at hfilter
  · intro j hj
    obtain ⟨-, hinputs⟩ := h.inputs hg hnodes hdrawn (mem_joins_iff.1 hj) rfl
    have hsides : g.inputs j.name = [(j.left, (sides j).1), (j.right, (sides j).2)] := by
      simpa [flowsOf, Operator.name] using hinputs
    rw [hsides, sides]
    split <;> rfl
  · intro t ht
    obtain ⟨hne, hinputs⟩ := h.inputs hg hnodes hdrawn (mem_terminals_iff.1 ht) rfl
    change t.name ≠ n.conflictSet at hne
    simpa [flowsOf, Operator.name, hne.symm] using hinputs
  · have hname : n.conflictSet ∈ g.nodes.map Node.name := by
      rw [hperm.mem_iff, h.operators]
      simp [Operator.name]
    rw [inputs_of_drawn hg hdrawn hname, h.filter_flows_conflictSet, List.map_cons, List.map_map]
    rfl
  · refine acyclic_of_rank (rank g.nodes.length) fun e he => ?_
    obtain ⟨hmem, hforward⟩ := List.mem_filter.1 he
    obtain ⟨f, hf, hdrawn⟩ := hedge e hmem
    exact h.rank_lt hg hnodes hf hdrawn (by simpa using hforward)

end

/-- A compiled network is wired into a fresh graph, which then has the shape of the network. -/
theorem compile_wired {options : CompileOptions} {rules : List Rule} {n : Network}
    (h : compile options rules = .ok n) (o : WiringOptions) (name : String)
    (workers maxParallelism : ℕ) :
    ∃ g, n.wire o { name := name, workers := workers, maxParallelism := maxParallelism } = .ok g ∧
      Shape o n g := by
  obtain ⟨axioms, ops, hn⟩ := exists_compiled h
  let fresh : Graph := { name := name, workers := workers, maxParallelism := maxParallelism }
  have hfresh : fresh.Indexed := by
    intro name id
    exact iff_of_false nofun nofun
  have hnodup : ((nodesOf o n).map Node.name).Nodup := hn.perm_names.nodup_iff.2 hn.nodup
  obtain ⟨hnodes, hindexed⟩ := nodes_declareAll o (g := fresh) rfl hfresh hnodup
  obtain ⟨es, hwire, hdrawn⟩ := wire_drawn o hn.layered.linked fresh
  refine ⟨_, hwire, hn.shape ?_ hnodes ?_⟩
  · exact hindexed
  · exact hdrawn.imp fun f e hf => ⟨hf.source, hf.target, hf.grouping⟩

/-- Two rules with the same two filters, one of which has no variable in common, in two graphs with
other ways back into the filters. -/
theorem compile_wired_of_two_rules :
    let edge (s o : String) : Clause := .pattern ⟨.var ⟨s⟩, .iri "p", .var ⟨o⟩⟩
    let rules : List Rule := [⟨some "t", [edge "a" "b", edge "b" "c"], [edge "a" "c"]⟩,
      ⟨some "x", [edge "a" "b", edge "c" "d"], [edge "a" "d"]⟩]
    let spreading : WiringOptions := { feedback := .all, joins := some 3 }
    ∃ n g g', compile {} rules = .ok n ∧
      (n.wire {} { name := "two" } = .ok g ∧ Shape {} n g) ∧
      (n.wire spreading { name := "two" } = .ok g' ∧ Shape spreading n g') ∧
      (g.nodes.length = 9 ∧ g.edges.length = 13) ∧
      g.inputs "(?0 <p> ?1) (?1 <p> ?2)" =
        [("(?0 <p> ?1)", .fields [1]), ("(?0 <p> ?1)#2", .fields [0])] ∧
      g.inputs "(?0 <p> ?1) (?2 <p> ?3)" =
        [("(?0 <p> ?1)", .global), ("(?0 <p> ?1)#2", .global)] ∧
      g.inputs "(?0 <p> ?1)" = [("source", .shuffle), ("conflict_set", .shuffle)] ∧
      g'.inputs "(?0 <p> ?1)" = [("source", .shuffle), ("conflict_set", .all)] := by
  intro edge rules spreading
  let drawing (o : WiringOptions) : Option Graph :=
    (compile {} rules).toOption.bind fun n => (n.wire o { name := "two" }).toOption
  have hcounts : (drawing {}).map (fun g => (g.nodes.length, g.edges.length)) = some (9, 13) := by
    decide +kernel
  have hinputs : (drawing {}).map (fun g => (g.inputs "(?0 <p> ?1) (?1 <p> ?2)",
      g.inputs "(?0 <p> ?1) (?2 <p> ?3)")) =
      some ([("(?0 <p> ?1)", .fields [1]), ("(?0 <p> ?1)#2", .fields [0])],
        [("(?0 <p> ?1)", .global), ("(?0 <p> ?1)#2", .global)]) := by decide +kernel
  have hfilter : (drawing {}).map (fun g => g.inputs "(?0 <p> ?1)") =
      some [("source", .shuffle), ("conflict_set", .shuffle)] := by decide +kernel
  have hspread : (drawing spreading).map (fun g => g.inputs "(?0 <p> ?1)") =
      some [("source", .shuffle), ("conflict_set", .all)] := by decide +kernel
  cases hcompile : compile {} rules with
  | error e => simp [drawing, hcompile, Except.toOption] at hcounts
  | ok n =>
    obtain ⟨g, hwire, hshape⟩ := compile_wired hcompile {} "two" 1 1
    obtain ⟨g', hwire', hshape'⟩ := compile_wired hcompile spreading "two" 1 1
    simp only [drawing, hcompile, hwire, hwire', Except.toOption, Option.bind_some,
      Option.map_some, Option.some.injEq, Prod.mk.injEq] at hcounts hinputs hfilter hspread
    exact ⟨n, g, g', rfl, ⟨hwire, hshape⟩, ⟨hwire', hshape'⟩, hcounts, hinputs.1, hinputs.2,
      hfilter, hspread⟩

end Wiring
end RuleFlow
