import RuleFlow.Proofs.Graph.Flows

/-!
# Graphs that are built step by step

A graph is built by requests: names are declared, places connected and axioms handed over. Only
places that were given out before may be connected (`Building.perform?`).

Every request keeps the parts of the graph together (`Building.Sound`): the index leads from
each name to the place of its node, and edges lead between places that there are. A graph that
is built from nothing can therefore be relied on at any time (`Reliable`, `reliable_of_requests`).
-/

namespace RuleFlow

namespace Graph

/-! ## Requests -/

/-- What is asked of a graph that is being built. -/
inductive Request where
  /-- A source is declared. -/
  | source (name : String)
  /-- An operator is declared. -/
  | operator (name : String) (kind : Kind) (parallelism : ℕ)
  /-- Two places are connected. -/
  | connect (e : Edge)
  /-- Axioms are handed over in the name of a source, which is not looked at. -/
  | axioms (place : ℕ) (axioms : List Pattern)

/-- The node that a request declares. -/
def Request.node? : Request → Option Node
  | .source name => some ⟨name, none, none⟩
  | .operator name kind parallelism => some ⟨name, some kind, some parallelism⟩
  | .connect _ => none
  | .axioms .. => none

/-- A graph that is being built, with the places that it gave out. -/
structure Building where
  /-- The graph. -/
  graph : Graph
  /-- The places that were given out, in order. -/
  given : List ℕ := []

namespace Building

/-- A new graph, of which nothing was asked. -/
def new (name : String) (workers maxParallelism : ℕ) : Building :=
  ⟨{ name := name, workers := workers, maxParallelism := maxParallelism }, []⟩

/-- The graph after a declaration, which gave out a place. -/
def give (b : Building) (declared : Graph × ℕ) : Building :=
  ⟨declared.1, b.given ++ [declared.2]⟩

/-- Does what is asked, unless a place is to be connected that was not given out. -/
def perform? (b : Building) : Request → Option Building
  | .source name => some (b.give (b.graph.declareSource name))
  | .operator name kind parallelism =>
    some (b.give (b.graph.declareOperator name kind parallelism))
  | .connect e =>
    if e.source ∈ b.given ∧ e.target ∈ b.given then
      some { b with graph := b.graph.connect e }
    else none
  | .axioms _ axioms => some { b with graph := b.graph.emitAxioms axioms }

/-- Does what is asked in order. -/
def run? (b : Building) (requests : List Request) : Option Building :=
  requests.foldlM perform? b

/-- All that a request can do. -/
theorem perform?_cases {b b' : Building} {r : Request} (h : b.perform? r = some b') :
    (∃ n, r.node? = some n ∧ n.kind.isSome = n.parallelism.isSome ∧
      b' = b.give (b.graph.declare n)) ∨
    (∃ e, r = .connect e ∧ (e.source ∈ b.given ∧ e.target ∈ b.given) ∧
      b' = { b with graph := b.graph.connect e }) ∨
    ∃ place axioms, r = .axioms place axioms ∧
      b' = { b with graph := b.graph.emitAxioms axioms } := by
  cases r with
  | source name => exact .inl ⟨_, rfl, rfl, (Option.some.inj h).symm⟩
  | operator name kind parallelism => exact .inl ⟨_, rfl, rfl, (Option.some.inj h).symm⟩
  | connect e =>
    simp only [perform?] at h
    split at h
    · next hgiven => exact .inr (.inl ⟨e, rfl, hgiven, (Option.some.inj h).symm⟩)
    · exact nomatch h
  | axioms place axioms => exact .inr (.inr ⟨place, axioms, rfl, (Option.some.inj h).symm⟩)

/-- What every request keeps is kept by a run. -/
theorem run?_induction {P : Building → Prop}
    (hstep : ∀ b r b', P b → b.perform? r = some b' → P b') {b b' : Building}
    {requests : List Request} (hb : P b) (h : b.run? requests = some b') : P b' := by
  induction requests generalizing b with
  | nil => exact Option.some.inj h ▸ hb
  | cons r requests ih =>
    rw [run?, List.foldlM_cons, Option.bind_eq_bind, Option.bind_eq_some_iff] at h
    obtain ⟨next, hnext, hrest⟩ := h
    exact ih (hstep b r next hb hnext) hrest

end Building

/-! ## What requests keep -/

/-- The index of nodes that stand behind one another from a place on. -/
def places (start : ℕ) (nodes : List Node) : Table ℕ := ⟨(nodes.map Node.name).zipIdx start⟩

lemma keys_places (start : ℕ) (nodes : List Node) :
    (places start nodes).keys = nodes.map Node.name :=
  List.zipIdx_map_fst start _

/-- The index of more nodes goes on behind that of the first ones. -/
lemma entries_places_append (start : ℕ) (nodes others : List Node) :
    (places start (nodes ++ others)).entries =
      (places start nodes).entries ++ (places (start + nodes.length) others).entries := by
  simp [places, List.zipIdx_append]

/-- A node with a new name goes behind the others. -/
lemma insert_places {start : ℕ} {nodes : List Node} {n : Node}
    (hnew : (places start nodes).find? n.name = none) :
    (places start nodes).insert n.name (start + nodes.length) = places start (nodes ++ [n]) := by
  have hentries := Table.entries_insert_of_new (start + nodes.length) hnew
  exact congrArg Table.mk (hentries.trans (entries_places_append start nodes [n]).symm)

/-- The names of the nodes are those that the index finds. -/
lemma Indexed.mem_names_iff {g : Graph} (h : g.Indexed) {name : String} :
    name ∈ g.nodes.map Node.name ↔ ∃ id, g.idOf? name = some id := by
  simp only [h name, List.mem_iff_getElem?]

lemma Indexed.lt {g : Graph} (h : g.Indexed) {name : String} {id : ℕ}
    (hid : g.idOf? name = some id) : id < g.nodes.length := by
  have hlt := (List.getElem?_eq_some_iff.1 ((h name id).1 hid)).1
  rwa [List.length_map] at hlt

/-- All that a declaration can do: a name that is there gives its place, and a new one goes
behind the others. -/
theorem declare_cases (g : Graph) (n : Node) :
    (∃ id, g.idOf? n.name = some id ∧ g.declare n = (g, id)) ∨
    g.idOf? n.name = none ∧ g.declare n =
      ({ g with nodes := g.nodes ++ [n], index := g.index.insert n.name g.nodes.length },
        g.nodes.length) := by
  cases hid : g.idOf? n.name with
  | some id => exact .inl ⟨id, rfl, declare_of_idOf? hid⟩
  | none =>
    refine .inr ⟨rfl, ?_⟩
    unfold declare
    rw [hid]

namespace Building

/-- The parts of the graph fit together. -/
structure Sound (b : Building) : Prop where
  /-- The index leads to the places of the nodes. -/
  indexed : b.graph.Indexed
  /-- The index holds the names of the nodes in their order. -/
  index : b.graph.index = places 0 b.graph.nodes
  /-- Edges lead between places that there are. -/
  edges : ∀ e ∈ b.graph.edges,
    e.source < b.graph.nodes.length ∧ e.target < b.graph.nodes.length
  /-- Places that were given out are there. -/
  given : ∀ id ∈ b.given, id < b.graph.nodes.length
  /-- Operators have a number of instances, and sources have none. -/
  nodes : ∀ n ∈ b.graph.nodes, n.kind.isSome = n.parallelism.isSome

lemma sound_new (name : String) (workers maxParallelism : ℕ) :
    (new name workers maxParallelism).Sound where
  indexed := fun _ _ => iff_of_false nofun nofun
  index := rfl
  edges := List.forall_mem_nil _
  given := List.forall_mem_nil _
  nodes := List.forall_mem_nil _

/-- A declaration keeps the graph sound. -/
lemma Sound.declare {b : Building} (h : b.Sound) {n : Node}
    (hn : n.kind.isSome = n.parallelism.isSome) : (b.give (b.graph.declare n)).Sound := by
  rcases declare_cases b.graph n with ⟨id, hid, hdeclare⟩ | ⟨hnew, hdeclare⟩
  · rw [hdeclare]
    refine ⟨h.indexed, h.index, h.edges, ?_, h.nodes⟩
    intro id' hid'
    rcases List.mem_append.1 hid' with hid' | hid'
    · exact h.given id' hid'
    · exact List.mem_singleton.1 hid' ▸ h.indexed.lt hid
  · have hnone : (places 0 b.graph.nodes).find? n.name = none := h.index ▸ hnew
    have hfresh : n.name ∉ b.graph.nodes.map Node.name := by
      rwa [← keys_places 0, ← Table.find?_eq_none_iff]
    obtain ⟨-, -, hindexed⟩ := h.indexed.declare_of_new hfresh
    rw [hdeclare] at hindexed ⊢
    have hlength : (b.graph.nodes ++ [n]).length = b.graph.nodes.length + 1 := by simp
    refine ⟨hindexed, ?_, ?_, ?_, ?_⟩
    · show b.graph.index.insert n.name b.graph.nodes.length = places 0 (b.graph.nodes ++ [n])
      rw [h.index, ← insert_places hnone, Nat.zero_add]
    · intro e he
      obtain ⟨hsource, htarget⟩ := h.edges e he
      show e.source < (b.graph.nodes ++ [n]).length ∧ e.target < (b.graph.nodes ++ [n]).length
      omega
    · intro id hid
      show id < (b.graph.nodes ++ [n]).length
      rcases List.mem_append.1 hid with hid | hid
      · have hlt := h.given id hid
        omega
      · have hlast : id = b.graph.nodes.length := List.mem_singleton.1 hid
        omega
    · intro m hm
      rcases List.mem_append.1 hm with hm | hm
      · exact h.nodes m hm
      · exact List.mem_singleton.1 hm ▸ hn

/-- Every request keeps the graph sound. -/
theorem Sound.perform {b b' : Building} {r : Request} (h : b.Sound)
    (hr : b.perform? r = some b') : b'.Sound := by
  rcases perform?_cases hr with ⟨n, -, hn, rfl⟩ | ⟨e, -, ⟨hsource, htarget⟩, rfl⟩ | ⟨_, _, -, rfl⟩
  · exact h.declare hn
  · refine ⟨h.indexed, h.index, ?_, h.given, h.nodes⟩
    intro e' he'
    rcases List.mem_append.1 he' with he' | he'
    · exact h.edges e' he'
    · rw [List.mem_singleton.1 he']
      exact ⟨h.given _ hsource, h.given _ htarget⟩
  · exact ⟨h.indexed, h.index, h.edges, h.given, h.nodes⟩

/-- A graph that is built from nothing is sound. -/
theorem sound_of_run? {name : String} {workers maxParallelism : ℕ} {requests : List Request}
    {b : Building} (h : (new name workers maxParallelism).run? requests = some b) : b.Sound :=
  run?_induction (fun _ _ _ hb hr => hb.perform hr) (sound_new name workers maxParallelism) h

end Building

/-! ## What can be relied on -/

open Wiring in
/-- The names, the index and the edges of the graph agree. -/
structure Reliable (g : Graph) : Prop where
  /-- No two nodes have one name. -/
  nodup : (g.nodes.map Node.name).Nodup
  /-- The name of each node is found at the place of the node. -/
  found : ∀ place n, g.nodes[place]? = some n → g.idOf? n.name = some place
  /-- No other name is in the index. -/
  keys : g.index.keys = g.nodes.map Node.name
  /-- Declaring a name again gives its place and changes nothing. -/
  redeclared : ∀ name ∈ g.nodes.map Node.name, ∃ id, g.idOf? name = some id ∧
    g.declareSource name = (g, id) ∧
    ∀ kind parallelism, g.declareOperator name kind parallelism = (g, id)
  /-- Edges lead from nodes to nodes. -/
  inRange : ∀ e ∈ g.edges, e.source < g.nodes.length ∧ e.target < g.nodes.length
  /-- Each edge is listed once where it ends and once where it begins, in the order of the
  edges. -/
  listed : ∃ flows, List.Forall₂ (Drawn g) flows g.edges ∧ ∀ name,
    g.inputs name = (flows.filter (·.target = name)).map (fun f => (f.source, f.grouping)) ∧
    g.outputs name = (flows.filter (·.source = name)).map (fun f => (f.target, f.grouping))
  /-- As often as a name gives out to another, the other takes from it. -/
  balanced : ∀ origin goal grouping,
    (g.outputs origin).count (goal, grouping) = (g.inputs goal).count (origin, grouping)

section
open Wiring
variable {g : Graph}

/-- Edges between places that there are belong to flows between names. -/
lemma Indexed.exists_flows (hg : g.Indexed)
    (hrange : ∀ e ∈ g.edges, e.source < g.nodes.length ∧ e.target < g.nodes.length) :
    ∃ flows, List.Forall₂ (Drawn g) flows g.edges := by
  have hname : ∀ place, place < g.nodes.length → ∃ name, g.idOf? name = some place := by
    intro place hlt
    refine ⟨g.nodes[place].name, (hg _ place).2 ?_⟩
    simp [hlt]
  generalize hes : g.edges = es at hrange
  clear hes
  induction es with
  | nil => exact ⟨[], .nil⟩
  | cons e es ih =>
    obtain ⟨⟨hsource, htarget⟩, hrest⟩ := List.forall_mem_cons.1 hrange
    obtain ⟨origin, horigin⟩ := hname e.source hsource
    obtain ⟨goal, hgoal⟩ := hname e.target htarget
    obtain ⟨flows, hflows⟩ := ih hrest
    exact ⟨⟨origin, goal, e.grouping⟩ :: flows, .cons ⟨horigin, hgoal, rfl⟩ hflows⟩

/-- A name that is not declared has no inputs and no outputs. -/
lemma ends_of_unknown {name : String} (h : g.idOf? name = none) :
    g.inputs name = [] ∧ g.outputs name = [] := by
  unfold inputs outputs
  rw [h]
  exact ⟨rfl, rfl⟩

/-- The inputs and outputs of every name are the flows to it and from it. -/
lemma Indexed.ends_of_drawn (hg : g.Indexed) {flows : List Flow}
    (h : List.Forall₂ (Drawn g) flows g.edges) (name : String) :
    g.inputs name = (flows.filter (·.target = name)).map (fun f => (f.source, f.grouping)) ∧
    g.outputs name = (flows.filter (·.source = name)).map (fun f => (f.target, f.grouping)) := by
  by_cases hname : name ∈ g.nodes.map Node.name
  · exact ⟨inputs_of_drawn hg h hname, outputs_of_drawn hg h hname⟩
  · -- no flow leads to the name or from it, since flows are drawn between declared names
    have hnone : g.idOf? name = none := by
      rw [Option.eq_none_iff_forall_ne_some]
      exact fun id hid => hname (hg.mem_names_iff.2 ⟨id, hid⟩)
    have hapart : ∀ f ∈ flows, f.target ≠ name ∧ f.source ≠ name := by
      intro f hf
      obtain ⟨e, -, hdrawn⟩ := exists_of_mem_right h.flip hf
      refine ⟨?_, ?_⟩
      · rintro rfl
        exact nomatch hnone.symm.trans hdrawn.target
      · rintro rfl
        exact nomatch hnone.symm.trans hdrawn.source
    obtain ⟨hinputs, houtputs⟩ := ends_of_unknown hnone
    rw [hinputs, houtputs, List.filter_eq_nil_iff.2 fun f hf => by simpa using (hapart f hf).1,
      List.filter_eq_nil_iff.2 fun f hf => by simpa using (hapart f hf).2]
    exact ⟨rfl, rfl⟩

/-- The pairs of two names are listed equally often at both. -/
lemma count_ends (flows : List Flow) (origin goal : String) (grouping : Grouping) :
    ((flows.filter (·.source = origin)).map fun f => (f.target, f.grouping)).count
        (goal, grouping) =
      ((flows.filter (·.target = goal)).map fun f => (f.source, f.grouping)).count
        (origin, grouping) := by
  rw [List.count_eq_countP, List.count_eq_countP, List.countP_map, List.countP_map,
    List.countP_filter, List.countP_filter]
  refine List.countP_congr fun f _ => ?_
  simp only [Function.comp_apply, Bool.and_eq_true, beq_iff_eq, Prod.mk.injEq, decide_eq_true_eq]
  constructor
  · rintro ⟨⟨htarget, hgrouping⟩, hsource⟩
    exact ⟨⟨hsource, hgrouping⟩, htarget⟩
  · rintro ⟨⟨hsource, hgrouping⟩, htarget⟩
    exact ⟨⟨htarget, hgrouping⟩, hsource⟩

/-- A declared name keeps its node when it is declared again. -/
lemma Indexed.redeclare (hg : g.Indexed) {name : String} (h : name ∈ g.nodes.map Node.name) :
    ∃ id, g.idOf? name = some id ∧ g.declareSource name = (g, id) ∧
      ∀ kind parallelism, g.declareOperator name kind parallelism = (g, id) := by
  obtain ⟨id, hid⟩ := hg.mem_names_iff.1 h
  refine ⟨id, hid, ?_, fun kind parallelism => ?_⟩
  · exact declare_of_idOf? (n := ⟨name, none, none⟩) hid
  · exact declare_of_idOf? (n := ⟨name, some kind, some parallelism⟩) hid

end

/-- Whatever is asked of a new graph, it can be relied on. -/
theorem reliable_of_requests {name : String} {workers maxParallelism : ℕ} {requests : List Request}
    {b : Building} (h : (Building.new name workers maxParallelism).run? requests = some b) :
    b.graph.Reliable := by
  have hsound := Building.sound_of_run? h
  obtain ⟨flows, hflows⟩ := hsound.indexed.exists_flows hsound.edges
  have hends := hsound.indexed.ends_of_drawn hflows
  constructor
  · exact hsound.indexed.nodup
  · intro place n hn
    apply (hsound.indexed _ _).2
    rw [List.getElem?_map, hn]
    rfl
  · rw [hsound.index, keys_places]
  · exact fun name hname => hsound.indexed.redeclare hname
  · exact hsound.edges
  · exact ⟨flows, hflows, hends⟩
  · intro origin goal grouping
    rw [(hends origin).2, (hends goal).1, count_ends]

/-- Two names with two edges between them, one name declared again as an operator of another
kind. -/
theorem reliable_of_repeated_name :
    let requests : List Request := [.source "s", .operator "t" .filter 2, .operator "s" .join 3,
      .connect ⟨0, 1, .shuffle⟩, .connect ⟨0, 1, .shuffle⟩, .connect ⟨1, 1, .all⟩]
    ∃ b, (Building.new "g" 1 1).run? requests = some b ∧ b.graph.Reliable ∧
      b.given = [0, 1, 0] ∧ b.graph.nodes = [⟨"s", none, none⟩, ⟨"t", some .filter, some 2⟩] ∧
      b.graph.outputs "s" = [("t", .shuffle), ("t", .shuffle)] ∧
      b.graph.inputs "t" = [("s", .shuffle), ("s", .shuffle), ("t", .all)] := by
  intro requests
  have h : (Building.new "g" 1 1).run? requests = some _ := rfl
  refine ⟨_, h, reliable_of_requests h, ?_, ?_, ?_, ?_⟩
  all_goals decide

end Graph
end RuleFlow
