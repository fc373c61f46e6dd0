import RuleFlow.Proofs.Network.Adoption
import RuleFlow.Proofs.Network.Layers

/-!
# A compiled network does what its rules say

In a sound registry every filter and every join gives out exactly the answers to its own
template (`Sound.emits_iff`); the proof is by induction on the length of the template, as a
join has a longer one than its sides. Hence it does not matter which rule an operator was
planned for: the last operator of a rule gives out the answers to the rule's body.

`Serves` says what a rule may expect of its terminal, in terms of the rule as it was written,
and `compile_correct` that every compiled rule gets it.
-/

namespace RuleFlow.Network
open Canonical Registry

/-! ## What operators give out -/

section
variable {bound : ℕ} {r : Registry}

/-- A filter or a join gives out the answers to its template. -/
theorem Sound.emits_iff (hr : r.Sound bound) (facts : Set Pattern) {op : Operator}
    (hop : r.Holds op) (hshared : op.kind.isShared = true) (tuple : List Term) :
    r.Emits facts op.name tuple ↔ tuple ∈ answers facts op.vars op.subRule.bodyPatterns := by
  -- on the length of the template, which is shorter on both sides of a join
  induction hn : op.subRule.body.length using Nat.strong_induction_on generalizing op tuple with
  | h n ih =>
    cases hr.built _ _ hop with
    | filter h => exact emits_filter_iff hop
    | @join j left right h hleft hright hl hr' hmatch htl htr =>
      -- both sides have patterns, so each is shorter than the join
      have hlength : n = left.patterns.length + right.patterns.length := by
        rw [← hn, h.body, length_formOf, List.length_append]
      have hsides : ∀ piece : Piece, Backed bound r.Holds piece → piece.patterns.length < n →
          ∀ a, r.Emits facts piece.name a ↔ a ∈ answers facts piece.vars piece.patterns := by
        intro piece hpiece hlt a
        obtain ⟨side, hside, hname, hmade⟩ := hpiece.operator
        have hshort : side.subRule.body.length < n := by
          rwa [hmade.body, length_formOf]
        rw [← hname, ih _ hshort hside hmade.shared a rfl, hmade.answers_eq, hpiece.vars]
      have hposl : 0 < left.patterns.length := List.length_pos_iff.2 hleft.ne_nil
      have hposr : 0 < right.patterns.length := List.length_pos_iff.2 hright.ne_nil
      have hvars : ∀ v ∈ (formOf bound (left.patterns ++ right.patterns)).order,
          v ∈ left.vars ∨ v ∈ right.vars := by
        intro v hv
        obtain ⟨p, hp, hv⟩ := mem_order_formOf_iff.1 hv
        rw [hleft.mem_vars_iff, hright.mem_vars_iff]
        exact (List.mem_append.1 hp).imp (fun hp => ⟨p, hp, hv⟩) fun hp => ⟨p, hp, hv⟩
      have hallLeft : ∀ p ∈ left.patterns, ∀ v ∈ p.mentions, v ∈ left.vars :=
        fun p hp v hv => hleft.mem_vars_iff.2 ⟨p, hp, hv⟩
      have hallRight : ∀ p ∈ right.patterns, ∀ v ∈ p.mentions, v ∈ right.vars :=
        fun p hp v hv => hright.mem_vars_iff.2 ⟨p, hp, hv⟩
      rw [h.answers_eq, mem_answers_append_iff hmatch htl htr hvars hallLeft hallRight,
        emits_join_iff hop, hl, hr']
      simp only [hsides left hleft (by omega), hsides right hright (by omega)]
      constructor
      · rintro ⟨a, b, ha, hb, hagree, hout⟩
        exact ⟨a, ha, b, hb, hagree, hout⟩
      · rintro ⟨a, ha, b, hb, hagree, hout⟩
        exact ⟨a, b, ha, hb, hagree, hout⟩
    | other h => rw [h] at hshared; exact nomatch hshared

/-- The operator of a piece gives out the answers to the piece's patterns. -/
theorem Backed.emits_iff {piece : Piece} (hpiece : Backed bound r.Holds piece)
    (hr : r.Sound bound) (facts : Set Pattern) (tuple : List Term) :
    r.Emits facts piece.name tuple ↔ tuple ∈ answers facts piece.vars piece.patterns := by
  obtain ⟨op, hop, hname, hmade⟩ := hpiece.operator
  rw [← hname, Sound.emits_iff hr facts hop hmade.shared, hmade.answers_eq, hpiece.vars]

end

/-! ## Compiled rules -/

/-- Can the rule become part of a network? Its body has a pattern, and no rule inside. -/
def isCompiled (r : Rule) : Bool := r.body.any (·.pattern?.isSome) && !r.body.any Clause.isNested

/-- The rules that become part of a network, with their names. -/
def compiledRules (rules : List Rule) : List (String × Rule) :=
  (named rules).filter fun x => isCompiled x.2

/-- The terminal does for the network what the rule says, when the variables of the rule are
named by `σ`. -/
structure Serves (n : Network) (σ : Variable → Variable) (r : Rule) (t : Terminal) : Prop where
  /-- The variables of the rule stay apart. -/
  apart : Set.InjOn σ {v | v ∈ r.variables}
  /-- No variable has two positions. -/
  vars_nodup : t.vars.Nodup
  /-- The positions are for the variables of the patterns in the body. -/
  mem_vars_iff : ∀ w, w ∈ t.vars ↔ ∃ v ∈ r.bodyPatterns.flatMap Pattern.mentions, σ v = w
  /-- The tuples before the terminal are the assignments that make every pattern a fact. -/
  emits_iff : ∀ facts tuple, n.registry.Emits facts t.prior tuple ↔
    ∃ θ : Assignment, (∀ p ∈ r.bodyPatterns, p.subst (θ ∘ σ) ∈ facts) ∧ t.vars.map θ = tuple
  /-- The guards are the functors in the body of the rule. -/
  guards_perm : ∀ θ : Assignment, ((t.guards.map Clause.functor).map (Clause.subst θ)).Perm
    ((r.body.filter Clause.isFunctor).map (Clause.subst (θ ∘ σ)))
  /-- The head is that of the rule. -/
  head_rearranged : ∀ θ : Assignment,
    Clause.Rearranged (r.head.map (Clause.subst (θ ∘ σ))) (t.head.map (Clause.subst θ))

/-! ## Plans of rules -/

section
variable {options : CompileOptions} {name : String} {r : Rule} {p : RulePlan}

/-- The body of a canonical rule is legible when the rule is. -/
lemma legible_bodyPatterns {bound : ℕ} (hr : r.Legible) :
    ∀ q ∈ (canonicalRule bound r).bodyPatterns, q.Legible := by
  intro q hq
  obtain ⟨c, hc, hpattern⟩ := List.mem_filterMap.1 hq
  have hlegible := legible_canonicalRule hr bound
  cases hlegible with
  | nested hn hb hh =>
    have hlegible := hb c hc
    cases hlegible with
    | pattern h => exact Option.some.inj hpattern ▸ h
    | _ => exact nomatch hpattern

/-- The plan of a rule is one for its canonical form. -/
theorem planRule_spec (hr : r.Legible) (h : planRule options name r = .ok p) :
    let bound := boundFor options.searchBound
    p.name = name ∧ p.rule = canonicalRule bound r ∧ p.Sound bound ∧
    p.plan.prior.patterns.Perm (canonicalRule bound r).bodyPatterns.eraseDups ∧
    p.plan.prior.name = (formOf bound p.plan.prior.patterns).key := by
  intro bound
  obtain ⟨hname, hrule, hbody, -⟩ := planRule_cases h
  rw [hrule] at hbody
  obtain ⟨hplanned, hback, hperm, hprior⟩ := planBody_spec (legible_bodyPatterns hr) hbody
  exact ⟨hname, hrule, ⟨hplanned, hback⟩, hperm, hprior⟩

/-- The patterns of a canonical body are those of the rule, renamed. -/
lemma perm_bodyPatterns {bound : ℕ} {σ : Variable → Variable}
    (h : Clause.Rearranged (r.body.map (Clause.rename σ)) (canonicalRule bound r).body) :
    (r.bodyPatterns.map (Pattern.rename σ)).Perm (canonicalRule bound r).bodyPatterns := by
  have hperm := h.patterns
  rwa [Clause.filterMap_pattern?_rename] at hperm

/-- The patterns of a plan are those of the rule, renamed. -/
lemma renames_of_perm {bound : ℕ} {σ : Variable → Variable} {ps : List Pattern}
    (h : Clause.Rearranged (r.body.map (Clause.rename σ)) (canonicalRule bound r).body)
    (hps : ps.Perm (canonicalRule bound r).bodyPatterns.eraseDups) :
    Renames σ r.bodyPatterns ps := by
  intro q
  rw [hps.mem_iff, List.mem_eraseDups, ← (perm_bodyPatterns h).mem_iff, List.mem_map]

/-- A rule has patterns in its body when its canonical form has. -/
lemma any_isSome_pattern?_iff (bound : ℕ) (r : Rule) :
    r.body.any (·.pattern?.isSome) = true ↔ (canonicalRule bound r).bodyPatterns ≠ [] := by
  obtain ⟨σ, -, hbody, -⟩ := exists_renaming_canonicalRule bound r
  have hnil : r.bodyPatterns ≠ [] ↔ (canonicalRule bound r).bodyPatterns ≠ [] := by
    rw [← List.length_pos_iff, ← List.length_pos_iff, ← (perm_bodyPatterns hbody).length_eq,
      List.length_map]
  rw [← hnil, List.any_eq_true, Rule.bodyPatterns, Ne, List.filterMap_eq_nil_iff, not_forall]
  simp only [Classical.not_imp, Option.isSome_iff_ne_none, Ne]

/-- A rule has rules inside its body when its canonical form has. -/
lemma any_isNested_canonicalRule (bound : ℕ) (r : Rule) :
    (canonicalRule bound r).body.any Clause.isNested = r.body.any Clause.isNested := by
  obtain ⟨σ, -, hbody, -⟩ := exists_renaming_canonicalRule bound r
  rw [← hbody.any_isNested, Clause.any_isNested_rename]

/-- A rule has a plan when it can become part of a network. -/
theorem exists_planRule_iff (options : CompileOptions) (name : String) (r : Rule) :
    (∃ p, planRule options name r = .ok p) ↔ isCompiled r = true := by
  rw [isCompiled, Bool.and_eq_true, Bool.not_eq_true',
    any_isSome_pattern?_iff (boundFor options.searchBound),
    ← any_isNested_canonicalRule (boundFor options.searchBound)]
  unfold planRule
  simp only
  split
  · next c hc =>
    have hany : (canonicalRule (boundFor options.searchBound) r).body.any Clause.isNested = true :=
      List.any_eq_true.2 ⟨c, List.mem_of_find?_eq_some hc, List.find?_some hc⟩
    rw [hany]
    simp
  · next hnone =>
    have hany : (canonicalRule (boundFor options.searchBound) r).body.any Clause.isNested =
        false := by
      rw [List.any_eq_false]
      exact List.find?_eq_none.1 hnone
    rw [hany]
    split
    · next hplan => simp [planBody_eq_none_iff.1 hplan]
    · next plan hplan =>
      have hne : (canonicalRule (boundFor options.searchBound) r).bodyPatterns ≠ [] := by
        intro hnil
        rw [planBody_eq_none_iff.2 hnil] at hplan
        exact nomatch hplan
      simp [hne]

end

/-! ## Terminals -/

/-- A terminal that ends the plan of a rule serves the rule, whoever planned the operators. -/
theorem exists_serves {bound : ℕ} {n : Network} {r : Rule} {p : RulePlan} {t : Terminal}
    (hn : n.registry.Sound bound) (hrule : p.rule = canonicalRule bound r)
    (hback : Backed bound n.registry.Holds p.plan.prior)
    (hprior : p.plan.prior.patterns.Perm (canonicalRule bound r).bodyPatterns.eraseDups)
    (ht : Ends p t) : ∃ σ, Serves n σ r t := by
  obtain ⟨σ, hσ, hbody, hhead⟩ := exists_renaming_canonicalRule bound r
  -- the patterns of the plan are those of the rule under the names of its canonical form
  have hrenames : Renames σ r.bodyPatterns p.plan.prior.patterns := renames_of_perm hbody hprior
  refine ⟨σ, hσ, ?_, fun w => ?_, fun facts tuple => ?_, fun θ => ?_, fun θ => ?_⟩
  · rw [ht.vars, hback.vars]
    exact nodup_order bound _
  · rw [ht.vars, hback.mem_vars_iff, ← List.mem_flatMap]
    exact hrenames.mem_mentions_iff
  · rw [ht.prior, hback.emits_iff hn, ht.vars, mem_answers_iff]
    simp only [hrenames.satisfies_iff]
  · have hperm := hbody.functors.symm.map (Functor.subst θ)
    rw [Clause.filterMap_functor?_rename, List.map_map] at hperm
    have hguards : (t.guards.map (Functor.subst θ)).Perm
        (r.guards.map (Functor.subst (θ ∘ σ))) := by
      rw [ht.guards, hrule]
      refine hperm.trans (List.Perm.of_eq (List.map_congr_left fun f _ => ?_))
      exact Functor.subst_rename σ θ f
    rw [← r.map_functor_guards, Clause.map_functor_subst, Clause.map_functor_subst]
    exact hguards.map Clause.functor
  · have hrearranged := hhead.map_subst θ
    rw [List.map_map] at hrearranged
    rw [ht.head, hrule]
    refine Eq.mp (congrArg (Clause.Rearranged · _) ?_) hrearranged
    exact List.map_congr_left fun c _ => Clause.subst_rename σ θ c

/-! ## Compilations -/

/-- A rule has its own name or one made of its place. -/
lemma of_mem_named {rules : List Rule} {x : String × Rule} (h : x ∈ named rules) :
    x.2 ∈ rules ∧ ∃ i : ℕ, x.1 = x.2.name.getD ("rule_" ++ toString i) := by
  obtain ⟨⟨r, i⟩, hr, rfl⟩ := List.mem_map.1 h
  exact ⟨List.fst_mem_of_mem_zipIdx hr, i, rfl⟩

lemma mem_of_mem_compiledRules {rules : List Rule} {x : String × Rule}
    (h : x ∈ compiledRules rules) : x.2 ∈ rules :=
  (of_mem_named (List.mem_filter.1 h).1).1

lemma planResults_cons (options : CompileOptions) (name : String) (r : Rule)
    (rules : List (String × Rule)) :
    planResults options ((name, r) :: rules) =
      if r.isAxiom then planResults options rules
      else (name, planRule options name r) :: planResults options rules := by
  cases h : r.isAxiom <;> simp [planResults, h]

/-- A rule with a pattern in its body is no axiom. -/
lemma isAxiom_eq_false_of_isCompiled {r : Rule} (h : isCompiled r = true) : r.isAxiom = false := by
  cases hbody : r.body with
  | nil => rw [isCompiled, hbody] at h; exact nomatch h
  | cons c cs => rw [Rule.isAxiom, hbody]; rfl

/-- What is kept of the planned rules are the plans of those that have one, in their order. -/
lemma kept_planResults (options : CompileOptions) (rules : List (String × Rule)) :
    List.Forall₂ (fun x y => y.1 = x.1 ∧ planRule options x.1 x.2 = .ok y.2)
      (rules.filter fun x => isCompiled x.2) (kept (planResults options rules)) := by
  induction rules with
  | nil => exact .nil
  | cons x rules ih =>
    obtain ⟨name, r⟩ := x
    have hiff := exists_planRule_iff options name r
    rw [planResults_cons, List.filter_cons]
    simp only
    cases hc : isCompiled r with
    | true =>
      obtain ⟨p, hp⟩ := hiff.2 hc
      rw [isAxiom_eq_false_of_isCompiled hc, hp]
      exact .cons ⟨rfl, hp⟩ ih
    | false =>
      cases hplan : planRule options name r with
      | ok p => rw [hiff.1 ⟨p, hplan⟩] at hc; exact nomatch hc
      | error reason => cases r.isAxiom <;> exact ih

lemma forall₂_trans {α β γ : Type} {R : α → β → Prop} {S : β → γ → Prop} {as : List α}
    {bs : List β} {cs : List γ} (h : List.Forall₂ R as bs) (h' : List.Forall₂ S bs cs) :
    List.Forall₂ (fun a c => ∃ b, R a b ∧ S b c) as cs := by
  induction h generalizing cs with
  | nil => cases h' with | nil => exact .nil
  | cons hab _ ih => cases h' with | cons hbc hbcs => exact .cons ⟨_, hab, hbc⟩ (ih hbcs)

/-- The plans that are kept are those of the compiled rules. -/
lemma plans_of_compiledRules (options : CompileOptions) (rules : List Rule) :
    (kept (planResults options (named rules))).map (·.1) = (compiledRules rules).map (·.1) ∧
    List.Forall₂ (fun x p => planRule options x.1 x.2 = .ok p) (compiledRules rules)
      ((kept (planResults options (named rules))).map (·.2)) := by
  have hkept := kept_planResults options (named rules)
  have hnames := List.forall₂_map_left_iff.2
    (List.forall₂_map_right_iff.2 (hkept.imp fun _ _ hy => hy.1.symm))
  rw [List.forall₂_eq_eq_eq] at hnames
  exact ⟨hnames.symm, List.forall₂_map_right_iff.2 (hkept.imp fun _ _ hy => hy.2)⟩

/-- A compilation of legible rules ends with a sound registry, where the plan of every compiled
rule stands and has a terminal. -/
theorem compile_spec {options : CompileOptions} {rules : List Rule} {n : Network}
    (hrules : ∀ r ∈ rules, r.Legible) (h : compile options rules = .ok n) :
    let bound := boundFor options.searchBound
    n.registry.Sound bound ∧ n.report.compiled = (compiledRules rules).map (·.1) ∧
    List.Forall₂ (fun x t => ∃ p, planRule options x.1 x.2 = .ok p ∧
      Backed bound n.registry.Holds p.plan.prior ∧ Ends p t) (compiledRules rules) n.terminals := by
  intro bound
  obtain ⟨hbuild, -, -, -, hreport⟩ := compile_cases h
  obtain ⟨hnames, hplans⟩ := plans_of_compiledRules options rules
  have hlegible : ∀ x ∈ compiledRules rules, x.2.Legible :=
    fun x hx => hrules _ (mem_of_mem_compiledRules hx)
  -- every kept plan is one of a legible rule
  have hsound : ∀ p ∈ plansOf options rules, p.Sound bound := by
    have hboth := (List.forall₂_and_left _ _).2 ⟨hlegible, hplans⟩
    refine ((List.forall₂_and_left _ _).1 (hboth.flip.imp fun p x hx => ⟨?_, hx⟩)).1
    exact (planRule_spec hx.1 hx.2).2.2.1
  unfold build at hbuild
  obtain ⟨base, hfoundation, hfold⟩ := bind_eq_ok hbuild
  obtain ⟨hbase, hnone⟩ := sound_foundation bound hfoundation
  obtain ⟨hregistry, -, hback, ts, hterminals, hends⟩ := installAll_spec hbase hsound hfold
  rw [hnone, List.nil_append] at hterminals
  subst hterminals
  exact ⟨hregistry, hreport ▸ hnames,
    forall₂_trans hplans ((List.forall₂_and_left _ _).2 ⟨hback, hends⟩)⟩

/-- A compiled rule does in the network what it says: for rules as they are read, whatever the
names, the bound and the order of the rules, each rule that is reported as compiled has a
terminal that serves it. -/
theorem compile_correct {text : String} {ps : Prefixes} {rules : List Rule}
    {options : CompileOptions} {n : Network}
    (hread : Reader.document .standard text = (ps, .ok rules))
    (hcompile : compile options rules = .ok n) :
    n.report.compiled = (compiledRules rules).map (·.1) ∧
    List.Forall₂ (fun x t => t.rule = x.1 ∧ ∃ σ, Serves n σ x.2 t)
      (compiledRules rules) n.terminals := by
  have hlegible := (Reader.legible_of_document Prefixes.legible_standard hread).2
  obtain ⟨hsound, hreport, hall⟩ := compile_spec hlegible hcompile
  have hrules : ∀ x ∈ compiledRules rules, x.2.Legible :=
    fun x hx => hlegible _ (mem_of_mem_compiledRules hx)
  refine ⟨hreport, ((List.forall₂_and_left _ _).2 ⟨hrules, hall⟩).imp ?_⟩
  rintro x t ⟨hx, p, hp, hback, hends⟩
  obtain ⟨hname, hrule, -, hprior, -⟩ := planRule_spec hx hp
  exact ⟨hends.rule.trans hname, exists_serves hsound hrule hback hprior hends⟩

/-- Two rules with one body but for the names, the order and a guard, which share their join. -/
theorem compile_correct_of_shared_join :
    let text :=
      "[a: (?x <p> ?c) (?c <q> ?d) -> (?x <p> ?d)] [(?k <q> ?l) f(?i) (?i <p> ?k) -> g(?l)]"
    let rules : List Rule :=
      [⟨some "a",
        [.pattern ⟨.var ⟨"x"⟩, .iri "p", .var ⟨"c"⟩⟩, .pattern ⟨.var ⟨"c"⟩, .iri "q", .var ⟨"d"⟩⟩],
        [.pattern ⟨.var ⟨"x"⟩, .iri "p", .var ⟨"d"⟩⟩]⟩,
      ⟨none,
        [.pattern ⟨.var ⟨"k"⟩, .iri "q", .var ⟨"l"⟩⟩, .functor ⟨"f", [.var ⟨"i"⟩]⟩,
          .pattern ⟨.var ⟨"i"⟩, .iri "p", .var ⟨"k"⟩⟩],
        [.functor ⟨"g", [.var ⟨"l"⟩]⟩]⟩]
    Reader.document .standard text = (.standard, .ok rules) ∧
    ∃ n, compile {} rules = .ok n ∧ n.joins.length = 1 ∧ n.report.compiled = ["a", "rule_2"] ∧
      List.Forall₂ (fun x t => t.rule = x.1 ∧ ∃ σ, Serves n σ x.2 t)
        (compiledRules rules) n.terminals := by
  intro text rules
  have hread : Reader.document .standard text = (.standard, .ok rules) := by decide +kernel
  have hrun : (compile {} rules).map (fun n => (n.joins.length, n.report.compiled)) =
      .ok (1, ["a", "rule_2"]) := by decide +kernel
  refine ⟨hread, ?_⟩
  cases hcompile : compile {} rules with
  | error e => rw [hcompile] at hrun; exact nomatch hrun
  | ok n =>
    rw [hcompile] at hrun
    obtain ⟨hjoins, hnames⟩ := Prod.mk.inj (Except.ok.inj hrun)
    exact ⟨n, rfl, hjoins, hnames, (compile_correct hread hcompile).2⟩

end RuleFlow.Network
