import Mathlib.Data.List.Forall2
import RuleFlow.Proofs.Graph.Places
import RuleFlow.Proofs.Network.Layers

/-!
# Flows between names

The operators of a network say between which names tuples flow (`flowsOf`). Wiring draws each
of these flows as one edge (`Drawn`) and succeeds whenever the operators are linked to others
of the network, whatever the graph holds already (`wire_drawn`).

When just the flows of a network are drawn in a graph with an exact index, the inputs of a name
are read off the flows to it (`inputs_of_drawn`) and its outputs off those from it
(`outputs_of_drawn`). The flows to an operator are among those that it brings itself
(`filter_flows`).
-/

namespace RuleFlow

namespace Wiring
open RuleFlow.Graph Network

/-! ## Flows -/

/-- A flow of tuples from one name to another. -/
structure Flow where
  /-- The name where the tuples come from. -/
  source : String
  /-- The name that gets them. -/
  target : String
  /-- How they are dealt out. -/
  grouping : Grouping

/-- The flows that an operator brings into a network. -/
def flowsOf (feedback : Feedback) (n : Network) : Operator → List Flow
  | .filter f => [⟨n.source, f.name, .shuffle⟩, ⟨n.conflictSet, f.name, feedback.grouping⟩]
  | .join j => [⟨j.left, j.name, (sides j).1⟩, ⟨j.right, j.name, (sides j).2⟩]
  | .terminal t => [⟨t.prior, t.name, .shuffle⟩, ⟨t.name, n.conflictSet, .shuffle⟩]
  | .conflictSet _ => [⟨n.axiomSource, n.conflictSet, .global⟩]
  | .axiomSource .. => []

/-- The flow in the other direction. -/
def Flow.turned (f : Flow) : Flow := ⟨f.target, f.source, f.grouping⟩

/-- The edge leads between the places of the two names. -/
structure Drawn (g : Graph) (f : Flow) (e : Edge) : Prop where
  /-- It begins where the flow does. -/
  source : g.idOf? f.source = some e.source
  /-- It ends where the flow does. -/
  target : g.idOf? f.target = some e.target
  /-- Tuples are dealt out in the same way. -/
  grouping : e.grouping = f.grouping

section
variable {n : Network} {g : Graph} {places : Places} {feedback : Feedback}

/-- A known name of an operator is found in the graph. -/
lemma Places.Known.find (h : places.Known n g) {name : String}
    (hname : (places.operators.find? name).isSome = true) :
    ∃ id, places.find name = .ok id ∧ g.idOf? name = some id := by
  obtain ⟨id, hid⟩ := Option.isSome_iff_exists.1 hname
  refine ⟨id, ?_, h.operators name id hid⟩
  rw [Places.find, hid]

/-- The flows of an operator are drawn when what it takes its tuples from has a place. -/
lemma edgesOf_drawn (h : places.Known n g) {ops : List Operator}
    (hinner : ∀ op ∈ ops, isInner op.kind = true →
      (places.operators.find? op.name).isSome = true)
    {op : Operator} (hop : op ∈ ops) (hlinked : Linked ops op) :
    ∃ es, edgesOf feedback places op = .ok es ∧
      List.Forall₂ (Drawn g) (flowsOf feedback n op) es := by
  have hsupplied : ∀ name k, Supplies ops name k →
      ∃ id, places.find name = .ok id ∧ g.idOf? name = some id := by
    rintro name k ⟨op', hop', hshared, rfl, -⟩
    refine h.find (hinner op' hop' ?_)
    cases op' <;> first | rfl | exact nomatch hshared
  cases op with
  | filter f =>
    obtain ⟨id, hid, hplace⟩ := h.find (hinner _ hop rfl)
    change places.find f.name = _ at hid
    refine ⟨_, by rw [edgesOf, hid]; rfl, ?_⟩
    exact .cons ⟨h.source, hplace, rfl⟩ (.cons ⟨h.conflictSet, hplace, rfl⟩ .nil)
  | join j =>
    obtain ⟨_, _, hleft, hright, -⟩ := hlinked
    obtain ⟨id, hid, hplace⟩ := h.find (hinner _ hop rfl)
    obtain ⟨left, hl, hlplace⟩ := hsupplied _ _ hleft
    obtain ⟨right, hr, hrplace⟩ := hsupplied _ _ hright
    change places.find j.name = _ at hid
    refine ⟨_, by rw [edgesOf, hid, hl, hr]; rfl, ?_⟩
    exact .cons ⟨hlplace, hplace, rfl⟩ (.cons ⟨hrplace, hplace, rfl⟩ .nil)
  | terminal t =>
    obtain ⟨id, hid, hplace⟩ := h.find (hinner _ hop rfl)
    obtain ⟨prior, hp, hpplace⟩ := hsupplied _ _ hlinked
    change places.find t.name = _ at hid
    refine ⟨_, by rw [edgesOf, hid, hp]; rfl, ?_⟩
    exact .cons ⟨hpplace, hplace, rfl⟩ (.cons ⟨hplace, h.conflictSet, rfl⟩ .nil)
  | conflictSet name => exact ⟨_, rfl, .cons ⟨h.axiomSource, h.conflictSet, rfl⟩ .nil⟩
  | axiomSource name axioms => exact ⟨_, rfl, .nil⟩

end

/-- When each step succeeds with a result in the relation, so does the run. -/
lemma mapM_ok {α β ε : Type} {R : α → β → Prop} {f : α → Except ε β} {as : List α}
    (h : ∀ a ∈ as, ∃ b, f a = .ok b ∧ R a b) :
    ∃ bs, as.mapM f = .ok bs ∧ List.Forall₂ R as bs := by
  induction as with
  | nil => exact ⟨[], rfl, .nil⟩
  | cons a as ih =>
    obtain ⟨⟨b, hb, hab⟩, hrest⟩ := List.forall_mem_cons.1 h
    obtain ⟨bs, hbs, hall⟩ := ih hrest
    exact ⟨b :: bs, by rw [List.mapM_cons, hb, hbs]; rfl, .cons hab hall⟩

lemma exists_of_mem_right {α β : Type} {R : α → β → Prop} {as : List α} {bs : List β}
    (h : List.Forall₂ R as bs) {b : β} (hb : b ∈ bs) : ∃ a ∈ as, R a b := by
  induction h with
  | nil => exact absurd hb List.not_mem_nil
  | @cons a b' as bs hab _ ih =>
    rcases List.mem_cons.1 hb with rfl | hb
    · exact ⟨a, List.mem_cons_self, hab⟩
    · obtain ⟨a', ha', hR⟩ := ih hb
      exact ⟨a', List.mem_cons_of_mem _ ha', hR⟩

/-- The flows of a network. -/
def flows (feedback : Feedback) (n : Network) : List Flow :=
  n.operators.flatMap (flowsOf feedback n)

/-- A network whose operators are linked to others of the network is drawn into any graph: its
nodes are declared, and behind the edges that are there each of its flows gets one. -/
theorem wire_drawn (o : WiringOptions) {n : Network}
    (hlinked : ∀ op ∈ n.operators, Linked n.operators op) (g : Graph) :
    ∃ es, n.wire o g = .ok { (declareAll o n g).1 with edges := g.edges ++ es } ∧
      List.Forall₂ (Drawn (declareAll o n g).1) (flows o.feedback n) es := by
  obtain ⟨hknown, hedges, hinner⟩ := declareAll_spec o n g
  have hstep : ∀ op ∈ n.operators, ∃ es, edgesOf o.feedback (declareAll o n g).2 op = .ok es ∧
      List.Forall₂ (Drawn (declareAll o n g).1) (flowsOf o.feedback n op) es :=
    fun op hop => edgesOf_drawn hknown hinner hop (hlinked op hop)
  obtain ⟨ess, hess, hall⟩ := mapM_ok hstep
  refine ⟨ess.flatten, ?_, ?_⟩
  · have hwire : n.wire o g = .ok ((declareAll o n g).1.connectAll ess.flatten) := by
      simp only [Network.wire, hess]
      rfl
    rw [hwire, connectAll_eq, hedges]
  · rw [flows, List.flatMap]
    exact List.rel_flatten (List.forall₂_map_left_iff.2 hall)

/-! ## Inputs and outputs -/

section
variable {n : Network} {g : Graph}

lemma Drawn.lt {f : Flow} {e : Edge} (h : Drawn g f e) (hg : g.Indexed) :
    e.source < g.nodes.length ∧ e.target < g.nodes.length := by
  have hplace : ∀ name id, g.idOf? name = some id → id < g.nodes.length := by
    intro name id hid
    have hlt := (List.getElem?_eq_some_iff.1 ((hg name id).1 hid)).1
    rwa [List.length_map] at hlt
  exact ⟨hplace _ _ h.source, hplace _ _ h.target⟩

/-- The inputs of a name are the flows to it in their order. -/
theorem inputs_of_drawn (hg : g.Indexed) {fs : List Flow} (h : List.Forall₂ (Drawn g) fs g.edges)
    {name : String} (hname : name ∈ g.nodes.map Node.name) :
    g.inputs name = (fs.filter (·.target = name)).map fun f => (f.source, f.grouping) := by
  obtain ⟨id, hid⟩ := List.mem_iff_getElem?.1 hname
  have hplace : g.idOf? name = some id := (hg name id).2 hid
  unfold inputs
  rw [hplace]
  simp only
  generalize g.edges = es at h
  induction h with
  | nil => rfl
  | @cons f e fs es hdrawn _ ih =>
    have htarget : e.target = id ↔ f.target = name := by
      constructor
      · intro heq
        have hsame := (hg f.target e.target).1 hdrawn.target
        rw [heq, hid] at hsame
        exact (Option.some.inj hsame).symm
      · intro heq
        have hsame := hdrawn.target
        rw [heq, hplace] at hsame
        exact (Option.some.inj hsame).symm
    by_cases hto : f.target = name
    · -- the node where the edge begins has the name of the flow's source
      have hsource := (hg f.source e.source).1 hdrawn.source
      rw [List.getElem?_map, Option.map_eq_some_iff] at hsource
      obtain ⟨node, hnode, hsame⟩ := hsource
      rw [List.filter_cons_of_pos (by simpa using htarget.2 hto),
        List.filter_cons_of_pos (by simpa using hto), List.filterMap_cons, hnode, List.map_cons,
        ← ih, Option.map_some, hsame, hdrawn.grouping]
    · rw [List.filter_cons_of_neg (by simpa using mt htarget.1 hto),
        List.filter_cons_of_neg (by simpa using hto), ih]

/-- The graph with all its edges in the other direction. -/
def turned (g : Graph) : Graph :=
  { g with edges := g.edges.map fun e => ⟨e.target, e.source, e.grouping⟩ }

/-- The outputs of a name are its inputs when all edges are turned around. -/
lemma outputs_eq_inputs_turned (g : Graph) (name : String) :
    g.outputs name = (turned g).inputs name := by
  have hplace : (turned g).idOf? name = g.idOf? name := rfl
  unfold outputs inputs
  rw [hplace]
  cases g.idOf? name with
  | none => rfl
  | some id =>
    simp only [turned, List.filter_map, List.filterMap_map]
    rfl

/-- The outputs of a name are the flows from it in their order. -/
theorem outputs_of_drawn (hg : g.Indexed) {fs : List Flow}
    (h : List.Forall₂ (Drawn g) fs g.edges) {name : String} (hname : name ∈ g.nodes.map Node.name) :
    g.outputs name = (fs.filter (·.source = name)).map fun f => (f.target, f.grouping) := by
  have hturned : List.Forall₂ (Drawn (turned g)) (fs.map Flow.turned) (turned g).edges :=
    List.forall₂_map_left_iff.2 (List.forall₂_map_right_iff.2
      (h.imp fun _ _ hf => ⟨hf.target, hf.source, hf.grouping⟩))
  rw [outputs_eq_inputs_turned, inputs_of_drawn (g := turned g) hg hturned hname, List.filter_map,
    List.map_map]
  rfl

/-- An operator's flows lead to itself or to the conflict set. -/
lemma target_of_mem_flowsOf {feedback : Feedback} {op : Operator} {f : Flow}
    (h : f ∈ flowsOf feedback n op) : f.target = op.name ∨ f.target = n.conflictSet := by
  cases op <;> simp only [flowsOf, List.mem_cons, List.not_mem_nil, or_false] at h
  case conflictSet => exact .inr (h ▸ rfl)
  case terminal =>
    rcases h with rfl | rfl
    · exact .inl rfl
    · exact .inr rfl
  all_goals
    rcases h with rfl | rfl
    · exact .inl rfl
    · exact .inl rfl

/-- The flows to the name of an operator are among those that it brings. -/
lemma filter_flows (feedback : Feedback) (hnodup : (n.operators.map Operator.name).Nodup)
    {op : Operator} (hop : op ∈ n.operators) (hne : op.name ≠ n.conflictSet) :
    (flows feedback n).filter (·.target = op.name) =
      (flowsOf feedback n op).filter (·.target = op.name) := by
  obtain ⟨before, after, hsplit⟩ := List.append_of_mem hop
  have hothers : ∀ ops : List Operator, op.name ∉ ops.map Operator.name →
      (ops.flatMap (flowsOf feedback n)).filter (·.target = op.name) = [] := by
    intro ops hnew
    rw [List.filter_eq_nil_iff]
    intro f hf
    obtain ⟨op', hop', hflow⟩ := List.mem_flatMap.1 hf
    rw [decide_eq_true_eq]
    intro hsame
    rcases target_of_mem_flowsOf hflow with heq | heq
    · exact hnew (hsame ▸ heq ▸ List.mem_map_of_mem hop')
    · exact hne (hsame ▸ heq)
  rw [hsplit, List.map_append, List.map_cons] at hnodup
  obtain ⟨-, hafter, hbefore⟩ := List.nodup_append.1 hnodup
  rw [flows, hsplit, List.flatMap_append, List.flatMap_cons, List.filter_append,
    List.filter_append, hothers before fun hmem => hbefore _ hmem _ List.mem_cons_self rfl,
    hothers after (List.nodup_cons.1 hafter).1, List.append_nil, List.nil_append]

end

end Wiring
end RuleFlow
