import Mathlib.Data.List.Nodup
import RuleFlow.Graph.Wiring

/-!
# Places of declared names

Declaring gives a name its place and takes no place away. So when the nodes of a network are
declared, the places that edges are drawn between are those that the graph finds under the
names (`Places.Known`), whatever was in the graph before.

When the index of a graph is exact (`Graph.Indexed`), a new name gets the place behind all
nodes, and the nodes of a network whose names are all new come one behind another
(`nodes_declareAll`).
-/

namespace RuleFlow

namespace Graph

/-! ## Declaring -/

/-- Names keep their places. -/
def Keeps (g g' : Graph) : Prop := ∀ name id, g.idOf? name = some id → g'.idOf? name = some id

/-- A declaration takes no place away. -/
theorem keeps_declare (g : Graph) (n : Node) : Keeps g (g.declare n).1 := by
  intro name id hid
  unfold declare
  split
  · exact hid
  · next hnew =>
    have hne : name ≠ n.name := by
      rintro rfl
      rw [hnew] at hid
      exact nomatch hid
    rw [idOf?, Table.find?_insert_of_ne _ _ hne]
    exact hid

lemma edges_declare (g : Graph) (n : Node) : (g.declare n).1.edges = g.edges := by
  unfold declare
  split <;> rfl

/-- The index leads from each name to the place of its node, and from no other name. -/
def Indexed (g : Graph) : Prop :=
  ∀ name id, g.idOf? name = some id ↔ (g.nodes.map Node.name)[id]? = some name

/-- In an indexed graph no two nodes have one name. -/
theorem Indexed.nodup {g : Graph} (h : g.Indexed) : (g.nodes.map Node.name).Nodup := by
  refine List.nodup_iff_injective_get.2 fun i j heq => Fin.ext ?_
  have hi := (h _ i).2 (List.getElem?_eq_getElem i.isLt)
  have hj := (h _ j).2 (List.getElem?_eq_getElem j.isLt)
  exact Option.some.inj (hi.symm.trans ((congrArg _ heq).trans hj))

/-- A new name gets the place behind all nodes. -/
theorem Indexed.declare_of_new {g : Graph} (h : g.Indexed) {n : Node}
    (hnew : n.name ∉ g.nodes.map Node.name) :
    (g.declare n).2 = g.nodes.length ∧ (g.declare n).1.nodes = g.nodes ++ [n] ∧
    (g.declare n).1.Indexed := by
  have hnone : g.idOf? n.name = none := by
    rw [Option.eq_none_iff_forall_ne_some]
    intro id hid
    exact hnew (List.mem_of_getElem? ((h _ _).1 hid))
  have hdeclare : g.declare n = ({ g with nodes := g.nodes ++ [n],
                                          index := g.index.insert n.name g.nodes.length },
      g.nodes.length) := by
    unfold declare
    rw [hnone]
  rw [hdeclare]
  refine ⟨rfl, rfl, fun name id => ?_⟩
  have hlength : (g.nodes.map Node.name).length = g.nodes.length := List.length_map _
  show (g.index.insert n.name g.nodes.length).find? name = some id ↔
    ((g.nodes ++ [n]).map Node.name)[id]? = some name
  rw [List.map_append, List.map_singleton]
  by_cases hname : name = n.name
  · -- the name of the last node
    subst hname
    rw [Table.find?_insert_self, Option.some.injEq]
    constructor
    · rintro rfl
      rw [← hlength, List.getElem?_concat_length]
    · intro hid
      by_contra hne
      rw [← hlength] at hne
      rcases Nat.lt_or_gt_of_ne hne with hlt | hgt
      · rw [List.getElem?_eq_none (by simp; omega)] at hid
        exact nomatch hid
      · rw [List.getElem?_append_left hgt] at hid
        exact hnew (List.mem_of_getElem? hid)
  · rw [Table.find?_insert_of_ne _ _ hname]
    refine (h name id).trans ?_
    by_cases hid : id < (g.nodes.map Node.name).length
    · rw [List.getElem?_append_left hid]
    · have hid := Nat.not_lt.1 hid
      rw [List.getElem?_append_right hid, List.getElem?_eq_none hid]
      refine iff_of_false nofun fun hlast => hname ?_
      exact (List.mem_singleton.1 (List.mem_of_getElem? hlast))

end Graph

namespace Wiring
open RuleFlow.Graph

/-! ## Places of a network -/

/-- The places are those that the graph finds under the names of the network. -/
structure Places.Known (places : Places) (n : Network) (g : Graph) : Prop where
  /-- The place of the source of facts. -/
  source : g.idOf? n.source = some places.source
  /-- The place of the source of axioms. -/
  axiomSource : g.idOf? n.axiomSource = some places.axiomSource
  /-- The place of the conflict set. -/
  conflictSet : g.idOf? n.conflictSet = some places.conflictSet
  /-- The places of operators. -/
  operators : ∀ name id, places.operators.find? name = some id → g.idOf? name = some id

/-- What is known of a graph stays known as nodes are added. -/
lemma Places.Known.keep {places : Places} {n : Network} {g g' : Graph} (h : places.Known n g)
    (hkeeps : Keeps g g') : places.Known n g' where
  source := hkeeps _ _ h.source
  axiomSource := hkeeps _ _ h.axiomSource
  conflictSet := hkeeps _ _ h.conflictSet
  operators := fun name id hid => hkeeps _ _ (h.operators name id hid)

/-- The node of an operator. -/
def nodeOf (o : WiringOptions) (op : Operator) : Node :=
  ⟨op.name, some op.kind, some (o.instances op.kind)⟩

/-- Declaring operators keeps the places known, gives one to each filter, join and terminal and
draws no edge. -/
lemma declareOperators_spec (o : WiringOptions) {n : Network} {g : Graph} {places : Places}
    (h : places.Known n g) (ops : List Operator) :
    let declared := declareOperators o g places ops
    declared.2.Known n declared.1 ∧ declared.1.edges = g.edges ∧
    (∀ name, (places.operators.find? name).isSome = true →
      (declared.2.operators.find? name).isSome = true) ∧
    ∀ op ∈ ops, isInner op.kind = true →
      (declared.2.operators.find? op.name).isSome = true := by
  induction ops generalizing g places with
  | nil => exact ⟨h, rfl, fun _ hname => hname, List.forall_mem_nil _⟩
  | cons op ops ih =>
    intro declared
    by_cases hinner : isInner op.kind = true
    · let node := nodeOf o op
      let places' : Places :=
        { places with operators := places.operators.insert op.name (g.declare node).2 }
      have hstep : declared = declareOperators o (g.declare node).1 places' ops := by
        simp only [declared, declareOperators, hinner, if_true]
        rfl
      have hknown := h.keep (keeps_declare g node)
      have hknown' : places'.Known n (g.declare node).1 := by
        refine ⟨hknown.source, hknown.axiomSource, hknown.conflictSet, fun name id hid => ?_⟩
        by_cases hname : name = op.name
        · subst hname
          rw [Table.find?_insert_self] at hid
          exact hid ▸ idOf?_declare_self g node
        · rw [Table.find?_insert_of_ne _ _ hname] at hid
          exact hknown.operators name id hid
      have hself : (places'.operators.find? op.name).isSome = true := by
        rw [Table.find?_insert_self]
        rfl
      obtain ⟨hrest, hedges, hold, hall⟩ := ih hknown'
      rw [hstep]
      refine ⟨hrest, hedges.trans (edges_declare g node), fun name hname => hold name ?_, ?_⟩
      · by_cases heq : name = op.name
        · exact heq ▸ hself
        · rw [Table.find?_insert_of_ne _ _ heq]
          exact hname
      · exact List.forall_mem_cons.2 ⟨fun _ => hold _ hself, hall⟩
    · have hstep : declared = declareOperators o g places ops := by
        simp only [declared, declareOperators, hinner]
        rfl
      obtain ⟨hrest, hedges, hold, hall⟩ := ih h
      rw [hstep]
      exact ⟨hrest, hedges, hold, List.forall_mem_cons.2 ⟨fun hc => absurd hc hinner, hall⟩⟩

/-- Declaring a network makes its places known, those of all filters, joins and terminals among
them, and draws no edge. -/
theorem declareAll_spec (o : WiringOptions) (n : Network) (g : Graph) :
    let declared := declareAll o n g
    declared.2.Known n declared.1 ∧ declared.1.edges = g.edges ∧
    ∀ op ∈ n.operators, isInner op.kind = true →
      (declared.2.operators.find? op.name).isSome = true := by
  let g₁ := (g.declareSource n.source).1
  let g₂ := (g₁.declareSource n.axiomSource).1.emitAxioms n.axioms
  let conflictSet : Node := ⟨n.conflictSet, some .conflictSet, some (o.instances .conflictSet)⟩
  have hknown : Places.Known ⟨(g.declareSource n.source).2, (g₁.declareSource n.axiomSource).2,
      (g₂.declare conflictSet).2, {}⟩ n (g₂.declare conflictSet).1 := by
    have hlast : Keeps g₂ (g₂.declare conflictSet).1 := keeps_declare _ _
    refine ⟨hlast _ _ ?_, hlast _ _ ?_, idOf?_declare_self g₂ conflictSet, nofun⟩
    · exact keeps_declare g₁ _ _ _ (idOf?_declare_self g _)
    · exact idOf?_declare_self g₁ _
  obtain ⟨hall, hedges, -, hinner⟩ := declareOperators_spec o hknown n.operators
  refine ⟨hall, hedges.trans ?_, hinner⟩
  calc (g₂.declare conflictSet).1.edges = g₂.edges := edges_declare _ _
    _ = g₁.edges := edges_declare g₁ _
    _ = g.edges := edges_declare g _

/-! ## Nodes of a network -/

/-- The nodes of the filters, joins and terminals among the operators. -/
def innerNodes (o : WiringOptions) (ops : List Operator) : List Node :=
  (ops.filter (isInner ·.kind)).map (nodeOf o)

lemma innerNodes_cons (o : WiringOptions) (op : Operator) (ops : List Operator) :
    innerNodes o (op :: ops) =
      if isInner op.kind then nodeOf o op :: innerNodes o ops else innerNodes o ops := by
  rw [innerNodes, List.filter_cons]
  split <;> rfl

/-- The nodes of operators with new names come behind the others. -/
lemma nodes_declareOperators (o : WiringOptions) {g : Graph} (h : g.Indexed) (places : Places)
    {ops : List Operator}
    (hnew : (g.nodes.map Node.name ++ (innerNodes o ops).map Node.name).Nodup) :
    (declareOperators o g places ops).1.nodes = g.nodes ++ innerNodes o ops ∧
    (declareOperators o g places ops).1.Indexed := by
  induction ops generalizing g places with
  | nil => exact ⟨(List.append_nil _).symm, h⟩
  | cons op ops ih =>
    by_cases hinner : isInner op.kind = true
    · rw [innerNodes_cons, if_pos hinner] at hnew ⊢
      rw [List.map_cons] at hnew
      have hnode : (nodeOf o op).name ∉ g.nodes.map Node.name := fun hmem =>
        (List.nodup_append.1 hnew).2.2 _ hmem _ List.mem_cons_self rfl
      obtain ⟨-, hnodes, hindexed⟩ := h.declare_of_new hnode
      have hrest : ((g.declare (nodeOf o op)).1.nodes.map Node.name ++
          (innerNodes o ops).map Node.name).Nodup := by
        rw [hnodes, List.map_append, List.append_assoc]
        exact hnew
      obtain ⟨hall, hlast⟩ := ih hindexed
        { places with operators := places.operators.insert op.name (g.declare (nodeOf o op)).2 }
        hrest
      rw [hnodes, List.append_assoc, List.singleton_append] at hall
      rw [declareOperators, if_pos hinner]
      exact ⟨hall, hlast⟩
    · rw [innerNodes_cons, if_neg hinner] at hnew ⊢
      rw [declareOperators, if_neg hinner]
      exact ih h places hnew

/-- The nodes of a network: the two sources, the conflict set, and the filters, joins and
terminals in their order. -/
def nodesOf (o : WiringOptions) (n : Network) : List Node :=
  ⟨n.source, none, none⟩ :: ⟨n.axiomSource, none, none⟩ ::
    ⟨n.conflictSet, some .conflictSet, some (o.instances .conflictSet)⟩ ::
    innerNodes o n.operators

/-- In a graph without nodes a network whose names are all different is declared node by node. -/
theorem nodes_declareAll (o : WiringOptions) {n : Network} {g : Graph} (hg : g.nodes = [])
    (h : g.Indexed) (hnew : ((nodesOf o n).map Node.name).Nodup) :
    (declareAll o n g).1.nodes = nodesOf o n ∧ (declareAll o n g).1.Indexed := by
  have hsource : n.source ∉ g.nodes.map Node.name := by
    rw [hg]
    exact List.not_mem_nil
  obtain ⟨-, hnodes₁, hindexed₁⟩ := h.declare_of_new (n := ⟨n.source, none, none⟩) hsource
  rw [hg, List.nil_append] at hnodes₁
  simp only [nodesOf, List.map_cons, List.nodup_cons, List.mem_cons, not_or] at hnew
  obtain ⟨⟨hne₁, hne₂, hn₁⟩, ⟨hne₃, hn₂⟩, hn₃, hops⟩ := hnew
  have haxioms : n.axiomSource ∉ (g.declareSource n.source).1.nodes.map Node.name := by
    rw [declareSource, hnodes₁]
    simpa using Ne.symm hne₁
  obtain ⟨-, hnodes₂, hindexed₂⟩ :=
    hindexed₁.declare_of_new (n := ⟨n.axiomSource, none, none⟩) haxioms
  rw [hnodes₁, List.singleton_append] at hnodes₂
  let g₂ := ((g.declareSource n.source).1.declareSource n.axiomSource).1.emitAxioms n.axioms
  let conflictSet : Node := ⟨n.conflictSet, some .conflictSet, some (o.instances .conflictSet)⟩
  have hnodes : g₂.nodes = [⟨n.source, none, none⟩, ⟨n.axiomSource, none, none⟩] := hnodes₂
  have hindexed : g₂.Indexed := hindexed₂
  have hconflict : conflictSet.name ∉ g₂.nodes.map Node.name := by
    rw [hnodes]
    simpa [conflictSet] using ⟨Ne.symm hne₂, Ne.symm hne₃⟩
  obtain ⟨-, hnodes₃, hindexed₃⟩ := hindexed.declare_of_new hconflict
  rw [hnodes] at hnodes₃
  have hall : ((g₂.declare conflictSet).1.nodes.map Node.name ++
      (innerNodes o n.operators).map Node.name).Nodup := by
    rw [hnodes₃]
    simp only [List.cons_append, List.nil_append, List.map_cons, List.map_nil, List.nodup_cons,
      List.mem_cons, not_or]
    exact ⟨⟨hne₁, hne₂, hn₁⟩, ⟨hne₃, hn₂⟩, hn₃, hops⟩
  obtain ⟨hlast, hindex⟩ := nodes_declareOperators o hindexed₃
    ⟨(g.declareSource n.source).2, ((g.declareSource n.source).1.declareSource n.axiomSource).2,
      (g₂.declare conflictSet).2, {}⟩ hall
  rw [hnodes₃] at hlast
  exact ⟨hlast, hindex⟩

end Wiring
end RuleFlow
