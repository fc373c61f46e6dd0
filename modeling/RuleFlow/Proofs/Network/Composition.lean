import RuleFlow.Proofs.Network.Progress

/-!
# Rules are compiled each on its own

What a rule brings into a network depends on the rule alone: the outlines of its filters and
joins (`Brings`) and what its terminal holds (`firingOf`). Which rules come before it decides
only whether an operator is new, which sides a shared join has, and what the terminal is called.

So the filters and joins of a network are, in outline, those of its rules compiled one by one,
and neither they nor what the terminals hold depends on the order of the rules
(`compile_composed`).
-/

namespace RuleFlow

/-- What a terminal waits for and what it does. -/
structure Firing where
  /-- The operator that matches the body. -/
  prior : String
  /-- The variables at the positions of its tuples. -/
  vars : List Variable
  /-- The functors of the body. -/
  guards : List Functor
  /-- The head. -/
  head : List Clause
  deriving DecidableEq

/-- What the terminal waits for and what it does. -/
def Terminal.firing (t : Terminal) : Firing := ⟨t.prior, t.vars, t.guards, t.head⟩

namespace Network
open Canonical

section
variable {options : CompileOptions} {rules : List Rule} {n : Network}

/-! ## What a rule brings -/

/-- The plan for a rule has a filter or a join of this outline. -/
def Brings (options : CompileOptions) (r : Rule) (o : Outline) : Prop :=
  ∃ name p, planRule options name r = .ok p ∧ o ∈ outlines p.plan.operators

/-- What the terminal of a rule waits for and does, when the rule has a plan. -/
def firingOf (options : CompileOptions) (r : Rule) : Option Firing :=
  (planRule options "" r).toOption.map fun p =>
    ⟨p.plan.prior.name, p.plan.prior.vars, p.rule.guards, p.rule.head⟩

/-- The name of a rule does not matter for its plan. -/
lemma planRule_other_name {name : String} {r : Rule} {p : RulePlan}
    (h : planRule options name r = .ok p) (name' : String) :
    ∃ p', planRule options name' r = .ok p' ∧ p'.plan = p.plan ∧ p'.rule = p.rule := by
  unfold planRule at h ⊢
  simp only at h ⊢
  split at h
  · exact nomatch h
  · split at h
    · exact nomatch h
    · obtain rfl := Except.ok.inj h
      exact ⟨_, rfl, rfl, rfl⟩

/-- What a terminal holds that ends the plan for a rule. -/
lemma firingOf_eq {name : String} {r : Rule} {p : RulePlan} {t : Terminal}
    (hp : planRule options name r = .ok p) (ht : Ends p t) :
    firingOf options r = some t.firing := by
  obtain ⟨p', hp', hplan, hrule⟩ := planRule_other_name hp ""
  rw [firingOf, hp', Terminal.firing, ht.prior, ht.vars, ht.guards, ht.head, ← hplan, ← hrule]
  rfl

/-! ## Rules and their names -/

lemma exists_mem_named_iff {r : Rule} : (∃ name, (name, r) ∈ named rules) ↔ r ∈ rules := by
  constructor
  · rintro ⟨name, hmem⟩
    exact (of_mem_named hmem).1
  · intro hr
    rw [← List.zipIdx_map_fst 1 rules, List.mem_map] at hr
    obtain ⟨⟨r', i⟩, hmem, rfl⟩ := hr
    exact ⟨_, List.mem_map_of_mem hmem⟩

/-- The plans are those of the rules that have one. -/
theorem mem_plansOf_iff {p : RulePlan} : p ∈ plansOf options rules ↔
    ∃ name r, (name, r) ∈ named rules ∧ planRule options name r = .ok p := by
  constructor
  · exact exists_planRule_of_mem_plansOf
  · rintro ⟨name, r, hr, hp⟩
    have haxioms : r.isAxiom = false :=
      isAxiom_eq_false_of_isCompiled ((exists_planRule_iff options name r).1 ⟨p, hp⟩)
    refine List.mem_map.2 ⟨(name, p), mem_kept_iff.2 ?_, rfl⟩
    rw [planResults, List.mem_map]
    refine ⟨(name, r), List.mem_filter.2 ⟨hr, by rw [haxioms]; rfl⟩, ?_⟩
    simp only [hp]

/-- The plans have the outlines that the rules bring. -/
lemma exists_mem_plansOf_iff {o : Outline} :
    (∃ p ∈ plansOf options rules, o ∈ outlines p.plan.operators) ↔
      ∃ r ∈ rules, Brings options r o := by
  constructor
  · rintro ⟨p, hp, ho⟩
    obtain ⟨name, r, hr, hplan⟩ := mem_plansOf_iff.1 hp
    exact ⟨r, exists_mem_named_iff.1 ⟨name, hr⟩, name, p, hplan, ho⟩
  · rintro ⟨r, hr, name, p, hplan, ho⟩
    obtain ⟨name', hmem⟩ := exists_mem_named_iff.2 hr
    obtain ⟨p', hplan', heq, -⟩ := planRule_other_name hplan name'
    exact ⟨p', mem_plansOf_iff.2 ⟨name', r, hmem, hplan'⟩, heq ▸ ho⟩

/-! ## Compilations -/

/-- A network has the filters and joins, in outline, that its rules bring. -/
theorem exists_compile_iff (ho : options.Apart) (hrules : ∀ r ∈ rules, r.Legible) :
    ∃ n, compile options rules = .ok n ∧
      ∀ o, o ∈ outlines n.operators ↔ ∃ r ∈ rules, Brings options r o := by
  obtain ⟨n, hcompile, hiff⟩ := exists_compile ho hrules
  exact ⟨n, hcompile, fun o => (hiff o).trans exists_mem_plansOf_iff⟩

/-- A rule alone brings the same as among others. -/
lemma exists_compile_singleton (ho : options.Apart) {r : Rule} (hr : r.Legible) :
    ∃ m, compile options [r] = .ok m ∧ ∀ o, o ∈ outlines m.operators ↔ Brings options r o := by
  obtain ⟨m, hm, hiff⟩ := exists_compile_iff ho (List.forall_mem_singleton.2 hr)
  refine ⟨m, hm, fun o => (hiff o).trans ?_⟩
  simp only [List.mem_singleton, exists_eq_left]

/-- The terminals hold what the rules bring. -/
theorem firings_of_compile (hrules : ∀ r ∈ rules, r.Legible)
    (h : compile options rules = .ok n) :
    List.Forall₂ (fun x t => t.rule = x.1 ∧ firingOf options x.2 = some t.firing)
      (compiledRules rules) n.terminals := by
  obtain ⟨-, -, hall⟩ := compile_spec hrules h
  have hlegible : ∀ x ∈ compiledRules rules, x.2.Legible :=
    fun x hx => hrules _ (mem_of_mem_compiledRules hx)
  refine ((List.forall₂_and_left _ _).2 ⟨hlegible, hall⟩).imp ?_
  rintro x t ⟨hx, p, hp, -, hends⟩
  exact ⟨hends.rule.trans (planRule_spec hx hp).1, firingOf_eq hp hends⟩

/-- The network of one rule has one terminal, when the rule has a plan. -/
lemma exists_terminals_eq_singleton {r : Rule} {m : Network} (hr : r.Legible)
    (hc : isCompiled r = true) (h : compile options [r] = .ok m) :
    ∃ u, m.terminals = [u] ∧ firingOf options r = some u.firing := by
  have hone : compiledRules [r] = [(r.name.getD ("rule_" ++ toString 1), r)] :=
    List.filter_cons_of_pos (a := (_, r)) hc
  have hall := firings_of_compile (List.forall_mem_singleton.2 hr) h
  rw [hone, List.forall₂_cons_left_iff] at hall
  obtain ⟨u, us, ⟨-, hu⟩, hnil, heq⟩ := hall
  rw [List.forall₂_nil_left_iff] at hnil
  exact ⟨u, by rw [heq, hnil], hu⟩

/-- The compiled rules are those that can become part of a network, in their order. -/
lemma map_compiledRules (rules : List Rule) :
    (compiledRules rules).map (·.2) = rules.filter isCompiled := by
  have hnamed : (named rules).map (·.2) = rules := by
    rw [named, List.map_map]
    exact List.zipIdx_map_fst 1 rules
  conv_rhs => rw [← hnamed, List.filter_map]
  rfl

/-- Each compiled rule with what its terminal holds. -/
def firings (rules : List Rule) (n : Network) : List (Rule × Firing) :=
  ((compiledRules rules).zip n.terminals).map fun (x, t) => (x.2, t.firing)

/-- What the terminals hold goes with the rules. -/
theorem map_firings (hrules : ∀ r ∈ rules, r.Legible) (h : compile options rules = .ok n) :
    (firings rules n).map (Prod.map id some) =
      (rules.filter isCompiled).map fun r => (r, firingOf options r) := by
  have hall := firings_of_compile hrules h
  rw [← map_compiledRules, firings]
  generalize compiledRules rules = xs at hall
  generalize n.terminals = ts at hall
  induction hall with
  | nil => rfl
  | cons hx _ ih =>
    rw [List.zip_cons_cons, List.map_cons, List.map_cons, List.map_cons, List.map_cons, ih, hx.2]
    rfl

/-- In another order the rules have the same terminals but for the names. -/
theorem firings_perm {rules' : List Rule} {n' : Network} (hrules : ∀ r ∈ rules, r.Legible)
    (h : compile options rules = .ok n) (hperm : rules'.Perm rules)
    (h' : compile options rules' = .ok n') :
    n'.terminals.length = n.terminals.length ∧ (firings rules' n').Perm (firings rules n) := by
  have hrules' : ∀ r ∈ rules', r.Legible := fun r hr => hrules r (hperm.subset hr)
  constructor
  · have hlength : ∀ rs, (compiledRules rs).length = (rs.filter isCompiled).length := by
      intro rs
      rw [← map_compiledRules, List.length_map]
    rw [← (firings_of_compile hrules h).length_eq, ← (firings_of_compile hrules' h').length_eq,
      hlength, hlength]
    exact (hperm.filter isCompiled).length_eq
  · have hinj : Function.Injective (Prod.map (id : Rule → Rule) (some : Firing → Option Firing)) :=
      Function.injective_id.prodMap (Option.some_injective Firing)
    rw [← List.map_perm_map_iff hinj, map_firings hrules h, map_firings hrules' h']
    exact (hperm.filter isCompiled).map _

end

/-- Rules that were read have together, in outline, the filters and joins that they have when each
is compiled alone, and each compiled rule has a terminal that holds the same as when it is
compiled alone. So neither depends on the order of the rules. -/
theorem compile_composed {text : String} {ps : Prefixes} {rules : List Rule}
    {options : CompileOptions} (hread : Reader.document .standard text = (ps, .ok rules))
    (ho : options.Apart) :
    ∃ n, compile options rules = .ok n ∧ (∀ r ∈ rules, ∃ m, compile options [r] = .ok m) ∧
      (∀ o, o ∈ outlines n.operators ↔
        ∃ r ∈ rules, ∃ m, compile options [r] = .ok m ∧ o ∈ outlines m.operators) ∧
      n.report.compiled = (compiledRules rules).map (·.1) ∧
      List.Forall₂ (fun x t => t.rule = x.1 ∧ ∃ m u, compile options [x.2] = .ok m ∧
        m.terminals = [u] ∧ u.firing = t.firing) (compiledRules rules) n.terminals ∧
      ∀ rules', rules'.Perm rules → ∃ n', compile options rules' = .ok n' ∧
        (∀ o, o ∈ outlines n'.operators ↔ o ∈ outlines n.operators) ∧
        n'.terminals.length = n.terminals.length ∧
        (firings rules' n').Perm (firings rules n) := by
  have hrules := (Reader.legible_of_document Prefixes.legible_standard hread).2
  obtain ⟨n, hcompile, hiff⟩ := exists_compile_iff ho hrules
  obtain ⟨-, hreport, -⟩ := compile_spec hrules hcompile
  refine ⟨n, hcompile, ?_, ?_, hreport, ?_, ?_⟩
  · intro r hr
    obtain ⟨m, hm, -⟩ := exists_compile_singleton ho (hrules r hr)
    exact ⟨m, hm⟩
  · intro o
    rw [hiff o]
    refine exists_congr fun r => and_congr_right fun hr => ?_
    obtain ⟨m, hm, hbrings⟩ := exists_compile_singleton ho (hrules r hr)
    rw [← hbrings o]
    constructor
    · exact fun hmem => ⟨m, hm, hmem⟩
    · rintro ⟨m', hm', hmem⟩
      obtain rfl := Except.ok.inj (hm.symm.trans hm')
      exact hmem
  · have hcompiled : ∀ x ∈ compiledRules rules, x.2 ∈ rules ∧ isCompiled x.2 = true :=
      fun x hx => ⟨mem_of_mem_compiledRules hx, (List.mem_filter.1 hx).2⟩
    refine ((List.forall₂_and_left _ _).2
      ⟨hcompiled, firings_of_compile hrules hcompile⟩).imp ?_
    rintro x t ⟨⟨hx, hc⟩, hrule, hfiring⟩
    have hlegible := hrules x.2 hx
    obtain ⟨m, hm, -⟩ := exists_compile_singleton ho hlegible
    obtain ⟨u, hu, hsame⟩ := exists_terminals_eq_singleton hlegible hc hm
    exact ⟨hrule, m, u, hm, hu, Option.some.inj (hsame.symm.trans hfiring)⟩
  · intro rules' hperm
    obtain ⟨n', hcompile', hiff'⟩ :=
      exists_compile_iff ho fun r hr => hrules r (hperm.subset hr)
    refine ⟨n', hcompile', fun o => ?_, firings_perm hrules hcompile hperm hcompile'⟩
    rw [hiff o, hiff' o]
    exact exists_congr fun r => and_congr_left fun _ => hperm.mem_iff

/-- Two rules that share a filter, in both orders. -/
theorem compile_composed_of_two_rules :
    let text := "[(?x <q> ?y) -> f(?x)] [(?y <q> ?z) (?x <p> ?y) -> (?x <q> ?z)]"
    let edge (s p o : String) : Clause := .pattern ⟨.var ⟨s⟩, .iri p, .var ⟨o⟩⟩
    let rules : List Rule := [⟨none, [edge "x" "q" "y"], [.functor ⟨"f", [.var ⟨"x"⟩]⟩]⟩,
      ⟨none, [edge "y" "q" "z", edge "x" "p" "y"], [edge "x" "q" "z"]⟩]
    Reader.document .standard text = (.standard, .ok rules) ∧ CompileOptions.Apart {} ∧
    ∃ n n', compile {} rules = .ok n ∧ compile {} rules.reverse = .ok n' ∧
      n.filters.map (·.name) = ["(?0 <q> ?1)", "(?0 <p> ?1)"] ∧
      n'.filters.map (·.name) = ["(?0 <p> ?1)", "(?0 <q> ?1)"] ∧
      (∀ o, o ∈ outlines n'.operators ↔ o ∈ outlines n.operators) ∧
      (firings rules.reverse n').Perm (firings rules n) := by
  intro text edge rules
  have hread : Reader.document .standard text = (.standard, .ok rules) := by decide +kernel
  have hapart : CompileOptions.Apart {} := ⟨by decide, by decide⟩
  have hrun : (compile {} rules).map (fun n => n.filters.map (·.name)) =
      .ok ["(?0 <q> ?1)", "(?0 <p> ?1)"] := by decide +kernel
  have hrun' : (compile {} rules.reverse).map (fun n => n.filters.map (·.name)) =
      .ok ["(?0 <p> ?1)", "(?0 <q> ?1)"] := by decide +kernel
  obtain ⟨n, hcompile, -, -, -, -, hall⟩ := compile_composed hread hapart
  obtain ⟨n', hcompile', houtlines, -, hfirings⟩ := hall rules.reverse rules.reverse_perm
  rw [hcompile] at hrun
  rw [hcompile'] at hrun'
  exact ⟨hread, hapart, n, n', hcompile, hcompile', Except.ok.inj hrun, Except.ok.inj hrun',
    houtlines, hfirings⟩

end Network
end RuleFlow
