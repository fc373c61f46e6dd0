import RuleFlow.Proofs.Graph.Shape
import RuleFlow.Proofs.Network.Origins

/-!
# Where the tuples of filters and joins go

In the graph of a compiled network, edges lead from a filter or a join to just those joins and
terminals that take its tuples (`Compiled.mem_outputs_iff`). Each was planned for a compiled rule
to be taken by a join or by the terminal of this rule. The terminal is there; the join need not
be, as the operator with its name may be one that was planned for an earlier rule, with other
sides (`Replaced`). This is the only way in which an operator comes to be without outputs
(`compile_outlets`), and it does happen (`unused_filter_of_two_rules`).
-/

namespace RuleFlow

namespace Network
open Registry

/-! ## Joins that were replaced -/

/-- The operator was planned for the rule. -/
def PlannedFor (options : CompileOptions) (x : String × Rule) (op : Operator) : Prop :=
  ∃ p, planRule options x.1 x.2 = .ok p ∧ op ∈ p.plan.operators

/-- A join that was planned for the rule to take what is given out under the name is missing: a
join with its name was planned for a rule before, and takes nothing from there. -/
def Replaced (options : CompileOptions) (n : Network) (before : List (String × Rule))
    (x : String × Rule) (name : String) : Prop :=
  ∃ j, PlannedFor options x (.join j) ∧ (Operator.join j).Takes name ∧
    ∃ y ∈ before, ∃ j' ∈ n.joins, PlannedFor options y (.join j') ∧ j'.name = j.name ∧
      ¬ (Operator.join j').Takes name

section
variable {options : CompileOptions} {rules : List Rule} {n : Network}
  {before after : List (String × Rule)} {x : String × Rule} {op : Operator}

/-- The plans are split where the compiled rules are. -/
lemma exists_plansOf_split (options : CompileOptions)
    (hsplit : compiledRules rules = before ++ x :: after) :
    ∃ ps p ps', plansOf options rules = ps ++ p :: ps' ∧ planRule options x.1 x.2 = .ok p ∧
      List.Forall₂ (fun y q => planRule options y.1 y.2 = .ok q) before ps := by
  obtain ⟨-, hplans⟩ := plans_of_compiledRules options rules
  have hflip := hplans.flip
  rw [hsplit] at hflip
  have hbefore := List.forall₂_take_append _ _ _ hflip
  obtain ⟨p, ps', hp, -, hafter⟩ :=
    List.forall₂_cons_right_iff.1 (List.forall₂_drop_append _ _ _ hflip)
  refine ⟨_, p, ps', ?_, hp, hbefore.flip⟩
  rw [← hafter, List.take_append_drop]
  rfl

/-- Every filter and join was planned for a compiled rule. -/
lemma exists_plannedFor (h : compile options rules = .ok n) (hop : op ∈ n.operators)
    (hshared : op.kind.isShared = true) : ∃ x ∈ compiledRules rules, PlannedFor options x op := by
  obtain ⟨p, hp, hmem⟩ := (compile_gathers h).planned op hop hshared
  obtain ⟨-, hplans⟩ := plans_of_compiledRules options rules
  obtain ⟨x, hx, hplan⟩ := Wiring.exists_of_mem_right hplans hp
  exact ⟨x, hx, p, hplan, hmem⟩

/-- What was planned for a rule has its name in the network, and its tuples are taken or a join that
was to take them was replaced. -/
theorem taken_or_replaced (h : compile options rules = .ok n)
    (hsplit : compiledRules rules = before ++ x :: after) (hop : PlannedFor options x op) :
    (∃ found ∈ n.operators, found.name = op.name ∧ found.kind.isShared = true) ∧
    ((∃ taker ∈ n.operators, taker.Takes op.name) ∨ Replaced options n before x op.name) := by
  have hgathers := compile_gathers h
  obtain ⟨p, hp, hmem⟩ := hop
  obtain ⟨ps, p', ps', hplans, hp', hbefore⟩ := exists_plansOf_split options hsplit
  obtain rfl : p = p' := Except.ok.inj (hp.symm.trans hp')
  have hpmem : p ∈ plansOf options rules := hplans ▸ List.mem_append_right _ List.mem_cons_self
  obtain ⟨hlined, hchained⟩ := plan_of_mem_plansOf hpmem
  constructor
  · rcases hgathers.present ps p ps' hplans op hmem with hfound | ⟨-, -, found, -, hfound, hsame⟩
    · exact ⟨op, hfound, rfl, hlined.shared op hmem⟩
    · exact ⟨found, hfound, hsame.1, hsame.2 ▸ hlined.shared op hmem⟩
  · rw [or_iff_not_imp_left, not_exists]
    intro hfree
    rcases hchained.taken op hmem with hprior | ⟨taker, htaker, htakes⟩
    · -- the last operator is taken by the terminal of the rule
      obtain ⟨t, ht, hends⟩ := hgathers.ended p hpmem
      exact absurd ⟨ht, hends.prior.trans hprior.symm⟩ (hfree (.terminal t))
    · obtain ⟨j, rfl⟩ : ∃ j, taker = .join j := by
        cases taker with
        | join j => exact ⟨j, rfl⟩
        | terminal t => exact nomatch hlined.shared _ htaker
        | _ => exact htakes.elim
      rcases hgathers.present ps p ps' hplans _ htaker with
        hthere | ⟨q, hq, found, hfound, hthere, hname, hkind⟩
      · exact absurd ⟨hthere, htakes⟩ (hfree (.join j))
      · obtain ⟨j', rfl⟩ : ∃ j', found = .join j' := by
          cases found with
          | join j' => exact ⟨j', rfl⟩
          | _ => exact nomatch hkind
        obtain ⟨y, hy, hplan⟩ := Wiring.exists_of_mem_right hbefore hq
        exact ⟨j, ⟨p, hp, htaker⟩, htakes, y, hy, j', mem_joins_iff.2 hthere,
          ⟨q, hplan, hfound⟩, hname, fun htakes' => hfree _ ⟨hthere, htakes'⟩⟩

end

end Network

namespace Wiring
open RuleFlow.Graph Network

/-! ## Outputs -/

section
variable {n : Network} {axioms : List Pattern} {ops : List Operator} {g : Graph}
  {o : WiringOptions} {feedback : Feedback} {op : Operator}

/-- No filter or join has the name of the source of facts or of another operator. -/
lemma Compiled.name_ne (h : Compiled n axioms ops) (hop : op ∈ n.operators)
    (hshared : op.kind.isShared = true) :
    n.source ≠ op.name ∧ ∀ op' ∈ n.operators, op'.kind.isShared = false → op'.name ≠ op.name := by
  obtain ⟨hsource, hnodup⟩ := List.nodup_cons.1 h.nodup
  constructor
  · intro heq
    exact hsource (heq ▸ List.mem_map_of_mem hop)
  · intro op' hop' hkind heq
    rw [List.inj_on_of_nodup_map hnodup hop' hop heq, hshared] at hkind
    exact nomatch hkind

/-- The flows from a filter or a join lead to what takes its tuples. -/
lemma Compiled.exists_flow_iff (h : Compiled n axioms ops) (feedback : Feedback)
    (hop : op ∈ n.operators) (hshared : op.kind.isShared = true) {target : String} :
    (∃ f ∈ flows feedback n, f.source = op.name ∧ f.target = target) ↔
      ∃ taker ∈ n.operators, taker.name = target ∧ taker.Takes op.name := by
  obtain ⟨hsource, hothers⟩ := h.name_ne hop hshared
  have hconflict : n.conflictSet ≠ op.name :=
    hothers (.conflictSet n.conflictSet) (by simp [h.operators]) rfl
  have haxioms : n.axiomSource ≠ op.name :=
    hothers (.axiomSource n.axiomSource axioms) (by simp [h.operators]) rfl
  have hstep : ∀ taker ∈ n.operators,
      (∃ f ∈ flowsOf feedback n taker, f.source = op.name ∧ f.target = target) ↔
        taker.name = target ∧ taker.Takes op.name := by
    intro taker htaker
    cases taker with
    | filter f => simp [flowsOf, Operator.Takes, hsource, hconflict]
    | join j =>
      simp only [flowsOf, List.mem_cons, List.not_mem_nil, or_false, exists_eq_or_imp,
        exists_eq_left]
      rw [← or_and_right, and_comm]
      rfl
    | terminal t =>
      have hne : t.name ≠ op.name := hothers _ htaker rfl
      simp only [flowsOf, List.mem_cons, List.not_mem_nil, or_false, exists_eq_or_imp,
        exists_eq_left, hne, false_and]
      exact and_comm
    | conflictSet name => simp [flowsOf, Operator.Takes, haxioms]
    | axiomSource name axioms => simp [flowsOf, Operator.Takes]
  constructor
  · rintro ⟨f, hf, hends⟩
    obtain ⟨taker, htaker, hflow⟩ := List.mem_flatMap.1 hf
    exact ⟨taker, htaker, (hstep taker htaker).1 ⟨f, hflow, hends⟩⟩
  · rintro ⟨taker, htaker, htakes⟩
    obtain ⟨f, hflow, hends⟩ := (hstep taker htaker).2 htakes
    exact ⟨f, List.mem_flatMap.2 ⟨taker, htaker, hflow⟩, hends⟩

/-- A graph without nodes and edges gets just the nodes and flows of a compiled network. -/
lemma Compiled.exists_drawn (h : Compiled n axioms ops) (o : WiringOptions) {blank : Graph}
    (hblank : blank.Indexed) (hnodes : blank.nodes = []) (hedges : blank.edges = []) :
    ∃ g, n.wire o blank = .ok g ∧ g.Indexed ∧ g.nodes = nodesOf o n ∧
      List.Forall₂ (Drawn g) (flows o.feedback n) g.edges := by
  have hnodup : ((nodesOf o n).map Node.name).Nodup := h.perm_names.nodup_iff.2 h.nodup
  obtain ⟨hnodes', hindexed⟩ := nodes_declareAll o hnodes hblank hnodup
  obtain ⟨es, hwire, hdrawn⟩ := wire_drawn o h.layered.linked blank
  rw [hedges, List.nil_append] at hwire
  exact ⟨_, hwire, hindexed, hnodes', hdrawn.imp fun _ _ hf => ⟨hf.source, hf.target, hf.grouping⟩⟩

/-- Edges lead from a filter or a join to what takes its tuples. -/
theorem Compiled.mem_outputs_iff (h : Compiled n axioms ops) (hg : g.Indexed)
    (hnodes : g.nodes = nodesOf o n) (hdrawn : List.Forall₂ (Drawn g) (flows feedback n) g.edges)
    (hop : op ∈ n.operators) (hshared : op.kind.isShared = true) {target : String} :
    target ∈ (g.outputs op.name).map (·.1) ↔
      ∃ taker ∈ n.operators, taker.name = target ∧ taker.Takes op.name := by
  have hname : op.name ∈ g.nodes.map Node.name := by
    rw [hnodes, h.perm_names.mem_iff]
    exact List.mem_cons_of_mem _ (List.mem_map_of_mem hop)
  rw [← h.exists_flow_iff feedback hop hshared, outputs_of_drawn hg hdrawn hname]
  simp [and_assoc]

end

/-- The filters and joins of a compiled network were planned for compiled rules. In a fresh graph
edges lead from them to just what takes their tuples, and from everything that was planned for a
rule some edge leads on, unless a join that was to take its tuples was replaced by one of a rule
before. -/
theorem compile_outlets {options : CompileOptions} {rules : List Rule} {n : Network}
    (h : compile options rules = .ok n) (o : WiringOptions) (name : String)
    (workers maxParallelism : ℕ) :
    ∃ g, n.wire o { name := name, workers := workers, maxParallelism := maxParallelism } = .ok g ∧
      (∀ op ∈ n.operators, op.kind.isShared = true →
        (∃ x ∈ compiledRules rules, PlannedFor options x op) ∧
        ∀ target, target ∈ (g.outputs op.name).map (·.1) ↔
          ∃ taker ∈ n.operators, taker.name = target ∧ taker.Takes op.name) ∧
      ∀ before x after, compiledRules rules = before ++ x :: after →
        ∀ op, PlannedFor options x op →
          g.outputs op.name ≠ [] ∨ Replaced options n before x op.name := by
  obtain ⟨axioms, ops, hn⟩ := exists_compiled h
  let fresh : Graph := { name := name, workers := workers, maxParallelism := maxParallelism }
  have hfresh : fresh.Indexed := fun _ _ => iff_of_false nofun nofun
  obtain ⟨g, hwire, hindexed, hnodes, hdrawn⟩ := hn.exists_drawn o hfresh rfl rfl
  have houtputs : ∀ op ∈ n.operators, op.kind.isShared = true → ∀ target,
      target ∈ (g.outputs op.name).map (·.1) ↔
        ∃ taker ∈ n.operators, taker.name = target ∧ taker.Takes op.name :=
    fun op hop hshared target => hn.mem_outputs_iff hindexed hnodes hdrawn hop hshared
  refine ⟨g, hwire, ?_, fun before x after hsplit op hop => ?_⟩
  · exact fun op hop hshared => ⟨exists_plannedFor h hop hshared, houtputs op hop hshared⟩
  · obtain ⟨⟨found, hfound, hname, hshared⟩, htaken⟩ := taken_or_replaced h hsplit hop
    refine htaken.imp_left fun ⟨taker, htaker, htakes⟩ hnone => ?_
    -- the taker stands at the end of an edge
    have hmem := (houtputs found hfound hshared taker.name).2 ⟨taker, htaker, rfl, hname ▸ htakes⟩
    rw [hname, hnone] at hmem
    exact absurd hmem List.not_mem_nil

/-- A join that the second rule brings has no outputs: in the plan a join of three patterns takes
its tuples, and the rule shares the one that the first rule has, where the sides are others. -/
theorem compile_outlets_of_other_sides :
    let edge (s p o : String) : Clause := .pattern ⟨.var ⟨s⟩, .iri p, .var ⟨o⟩⟩
    let rules : List Rule :=
      [⟨some "r1", [edge "d" "g" "c", edge "b" "f" "c", edge "a" "f" "d"], []⟩,
      ⟨some "r2", [edge "a" "f" "d", edge "d" "g" "c", edge "b" "f" "c", edge "b" "e" "z",
        edge "b" "e" "b"], []⟩]
    ∃ n g, compile {} rules = .ok n ∧ n.wire {} { name := "two" } = .ok g ∧
      (∃ j ∈ n.joins, j.name = "(?0 <f> ?1) (?2 <g> ?1)") ∧
      g.outputs "(?0 <f> ?1) (?2 <g> ?1)" = [] ∧
      Replaced {} n [("r1", rules[0])] ("r2", rules[1]) "(?0 <f> ?1) (?2 <g> ?1)" := by
  intro edge rules
  let drawing : Option (Network × Graph) :=
    (compile {} rules).toOption.bind fun n => (n.wire {} { name := "two" }).toOption.map (n, ·)
  have hrun : drawing.map (fun x => (x.1.joins.any (·.name == "(?0 <f> ?1) (?2 <g> ?1)"),
      x.2.outputs "(?0 <f> ?1) (?2 <g> ?1)")) = some (true, []) := by decide +kernel
  have hrules : compiledRules rules = [("r1", rules[0]), ("r2", rules[1])] := by decide +kernel
  cases hcompile : compile {} rules with
  | error e => simp [drawing, hcompile, Except.toOption] at hrun
  | ok n =>
    obtain ⟨g, hwire, hshared, hall⟩ := compile_outlets hcompile {} "two" 1 1
    simp only [drawing, hcompile, hwire, Except.toOption, Option.bind_some, Option.map_some,
      Option.some.injEq, Prod.mk.injEq] at hrun
    obtain ⟨j, hj, hname⟩ := List.any_eq_true.1 hrun.1
    have hname : j.name = "(?0 <f> ?1) (?2 <g> ?1)" := beq_iff_eq.1 hname
    refine ⟨n, g, rfl, hwire, ⟨j, hj, hname⟩, hrun.2, ?_⟩
    have hout : g.outputs j.name = [] := by rw [hname, hrun.2]
    obtain ⟨⟨x, hx, hplanned⟩, -⟩ := hshared (.join j) (mem_joins_iff.1 hj) rfl
    rw [hrules] at hx hall
    rcases List.mem_cons.1 hx with rfl | hx
    · -- what is planned for the first rule has outputs
      rcases hall [] _ _ rfl _ hplanned with hne | ⟨_, -, -, y, hy, -⟩
      · exact absurd hout hne
      · exact absurd hy List.not_mem_nil
    · obtain rfl := List.mem_singleton.1 hx
      exact hname ▸ (hall [_] _ [] rfl _ hplanned).resolve_left fun hne => hne hout

/-- The second filter with one key is not used when the join that was to take its tuples has sides
with other names. -/
theorem unused_filter_of_two_rules :
    let edge (s p o : String) : Clause := .pattern ⟨.var ⟨s⟩, .iri p, .var ⟨o⟩⟩
    let rules : List Rule :=
      [⟨some "r1", [edge "a" "f" "b", edge "b" "g" "c"], [edge "a" "q" "c"]⟩,
      ⟨some "r2", [edge "x" "e" "z", edge "x" "f" "y", edge "y" "f" "v", edge "v" "g" "w"],
        [edge "x" "q" "w"]⟩]
    ∃ n g, compile {} rules = .ok n ∧ n.wire {} { name := "two" } = .ok g ∧
      ∃ f ∈ n.filters, (∀ j ∈ n.joins, j.left ≠ f.name ∧ j.right ≠ f.name) ∧
        (∀ t ∈ n.terminals, t.prior ≠ f.name) ∧ g.outputs f.name = [] := by
  intro edge rules
  let drawing : Option (Network × Graph) :=
    (compile {} rules).toOption.bind fun n => (n.wire {} { name := "two" }).toOption.map (n, ·)
  have hrun : (drawing.any fun x => x.1.filters.any fun f =>
      x.1.joins.all (fun j => j.left != f.name && j.right != f.name) &&
      x.1.terminals.all (·.prior != f.name) && (x.2.outputs f.name).isEmpty) = true := by
    decide +kernel
  cases hcompile : compile {} rules with
  | error e => simp [drawing, hcompile, Except.toOption] at hrun
  | ok n =>
    cases hwire : n.wire {} { name := "two" } with
    | error e => simp [drawing, hcompile, hwire, Except.toOption] at hrun
    | ok g =>
      simp only [drawing, hcompile, hwire, Except.toOption, Option.bind_some, Option.map_some,
        Option.any_some, List.any_eq_true, Bool.and_eq_true, List.all_eq_true, bne_iff_ne,
        List.isEmpty_iff] at hrun
      obtain ⟨f, hf, ⟨hjoins, hterminals⟩, hnone⟩ := hrun
      exact ⟨n, g, rfl, hwire, f, hf, hjoins, hterminals, hnone⟩

end Wiring
end RuleFlow
