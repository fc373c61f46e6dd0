import RuleFlow.Proofs.Network.Omission
import RuleFlow.Proofs.Network.Origins

/-!
# The report is an exact account of the rules

Whether a rule gives axioms (`givesAxioms`), becomes part of a network (`isCompiled`) or is left
out is seen from the rule alone, and every rule does exactly one of the three. The report names
the rules of each sort in their order, those that are left out with a code that says why
(`leftOutCode`), the axioms among them first. The axiom source has the heads of the axioms, and
each compiled rule has one terminal, in the order of the rules (`Accounts`).

A compilation that gives no network ends with names that clash or with the registry; a canonical
pattern is always one pattern, so the planning of filters has no error of its own
(`compile_accounted`).
-/

namespace RuleFlow.Network
open Canonical Registry

/-! ## The sorts of rules -/

/-- Does the rule give axioms? It has no body, and nothing but patterns in its head. -/
def givesAxioms (r : Rule) : Bool := r.isAxiom && r.head.all (·.pattern?.isSome)

/-- The code under which a rule is reported that is left out. -/
def leftOutCode (r : Rule) : Code :=
  if r.isAxiom || r.body.any Clause.isNested then .unsupportedClause else .emptyPrior

/-- The rules that give axioms, with their names. -/
def axiomRules (rules : List Rule) : List (String × Rule) :=
  (named rules).filter fun x => givesAxioms x.2

/-- The rules that neither give axioms nor become part of a network, with their names. -/
def leftOutRules (rules : List Rule) : List (String × Rule) :=
  (named rules).filter fun x => !givesAxioms x.2 && !isCompiled x.2

lemma givesAxioms_eq_false_of_isCompiled {r : Rule} (h : isCompiled r = true) :
    givesAxioms r = false := by
  rw [givesAxioms, isAxiom_eq_false_of_isCompiled h, Bool.false_and]

/-- All clauses are patterns exactly when none is something else. -/
lemma all_isSome_pattern? (cs : List Clause) :
    cs.all (·.pattern?.isSome) = !cs.any (·.pattern?.isNone) := by
  rw [List.not_any_eq_all_not]
  exact congrArg cs.all (funext fun c => (Option.not_isNone _).symm)

/-- A rule is left out when it neither gives axioms nor becomes part of a network. -/
lemma isLeftOut_eq (r : Rule) : isLeftOut r = (!givesAxioms r && !isCompiled r) := by
  unfold isLeftOut givesAxioms
  rw [all_isSome_pattern?]
  cases haxiom : r.isAxiom with
  | false => rfl
  | true =>
    have hnot : isCompiled r = false := by
      by_contra hc
      rw [isAxiom_eq_false_of_isCompiled (Bool.not_eq_false _ ▸ hc)] at haxiom
      exact nomatch haxiom
    rw [hnot, Bool.true_and, Bool.not_not, Bool.not_false, Bool.and_true, if_pos rfl]

/-- Every rule is of exactly one sort. -/
lemma perm_named (rules : List Rule) :
    (axiomRules rules ++ compiledRules rules ++ leftOutRules rules).Perm (named rules) := by
  -- what becomes part of a network is found among the rules that give no axioms
  have hcompiled : compiledRules rules =
      ((named rules).filter fun x => !givesAxioms x.2).filter fun x => isCompiled x.2 := by
    rw [List.filter_filter, compiledRules]
    refine List.filter_congr fun x _ => ?_
    cases hc : isCompiled x.2 with
    | false => rfl
    | true => rw [givesAxioms_eq_false_of_isCompiled hc]; rfl
  have hleftOut : leftOutRules rules =
      ((named rules).filter fun x => !givesAxioms x.2).filter fun x => !isCompiled x.2 := by
    rw [List.filter_filter, leftOutRules]
    exact List.filter_congr fun x _ => Bool.and_comm _ _
  rw [List.append_assoc, hcompiled, hleftOut]
  exact (List.Perm.append_left _ (List.filter_append_perm _ _)).trans (List.filter_append_perm _ _)

/-! ## Lists that are drawn from the rules -/

/-- What is kept of a list, seen through `g`, when it is seen from the entries that pass `p`. -/
lemma map_filterMap_of {α β γ : Type} {f : α → Option β} {g : β → γ} {p : α → Bool} {h : α → γ}
    (hf : ∀ a, (f a).map g = if p a then some (h a) else none) (as : List α) :
    (as.filterMap f).map g = (as.filter p).map h := by
  induction as with
  | nil => rfl
  | cons a as ih =>
    have ha := hf a
    rw [List.filterMap_cons, List.filter_cons]
    cases hp : p a with
    | false =>
      rw [hp] at ha
      rw [Option.map_eq_none_iff.1 ha]
      exact ih
    | true =>
      rw [hp] at ha
      obtain ⟨b, hb, hg⟩ := Option.map_eq_some_iff.1 ha
      rw [hb]
      show g b :: (as.filterMap f).map g = h a :: (as.filter p).map h
      rw [hg, ih]

/-- The head of an axiom is its patterns, or one of its clauses is in the way. -/
lemma axiomHeads_cases (r : Rule) :
    (∃ ps, axiomHeads r = .ok ps ∧ ps.map Clause.pattern = r.head) ∨
      ∃ c, axiomHeads r = .error (.axiomHead c) := by
  rw [axiomHeads]
  induction r.head with
  | nil => exact .inl ⟨[], rfl, rfl⟩
  | cons c cs ih =>
    rw [List.mapM_cons]
    cases c with
    | pattern p =>
      obtain ⟨ps, hps, hhead⟩ | ⟨d, hd⟩ := ih
      · exact .inl ⟨p :: ps, by rw [hps]; rfl, by rw [List.map_cons, hhead]⟩
      · exact .inr ⟨d, by rw [hd]; rfl⟩
    | functor f => exact .inr ⟨.functor f, rfl⟩
    | nested name body head => exact .inr ⟨.nested name body head, rfl⟩

/-- The axioms are the heads of the rules that give them. -/
lemma map_kept_axiomResults (xs : List (String × Rule)) :
    (kept (axiomResults xs)).map (fun y => (y.1, y.2.map Clause.pattern)) =
      (xs.filter fun x => givesAxioms x.2).map fun x => (x.1, x.2.head) := by
  have hkept : kept (axiomResults xs) = xs.filterMap fun x =>
      if x.2.isAxiom then (axiomHeads x.2).toOption.map fun ps => (x.1, ps) else none := by
    rw [kept, axiomResults, List.filterMap_map, List.filterMap_filter]
    refine congrArg (List.filterMap · xs) (funext fun x => ?_)
    cases x.2.isAxiom with
    | false => rfl
    | true => cases h : axiomHeads x.2 <;> simp [h, Except.toOption]
  rw [hkept]
  refine map_filterMap_of (fun x => ?_) xs
  have hiff := exists_axiomHeads_iff x.2
  rw [givesAxioms, all_isSome_pattern?]
  cases x.2.isAxiom with
  | false => rfl
  | true =>
    obtain ⟨ps, hps, hhead⟩ | ⟨c, hc⟩ := axiomHeads_cases x.2
    · rw [hiff.1 ⟨ps, hps⟩, hps, ← hhead]
      rfl
    · have hany : x.2.head.any (·.pattern?.isNone) = true := by
        by_contra hne
        obtain ⟨ps, hps⟩ := hiff.2 (Bool.eq_false_iff.2 hne)
        cases hc.symm.trans hps
      rw [hany, hc]
      rfl

/-! ## Rules that are left out -/

/-- What an entry of the report says: the name of the rule and the code. -/
def entryOf (s : Skip) : String × Code := (s.rule, s.diagnostic.code)

/-- The entry for an axiom has the code of a clause that is not supported. -/
lemma map_axiomSkip? (x : String × Rule) : (axiomSkip? x).map entryOf =
    if x.2.isAxiom && isLeftOut x.2 then some (x.1, leftOutCode x.2) else none := by
  have hiff := exists_axiomHeads_iff x.2
  rw [axiomSkip?, isLeftOut, leftOutCode]
  cases x.2.isAxiom with
  | false => rfl
  | true =>
    obtain ⟨ps, hps, -⟩ | ⟨c, hc⟩ := axiomHeads_cases x.2
    · rw [if_pos rfl, if_pos rfl, hiff.1 ⟨ps, hps⟩, hps]
      rfl
    · have hany : x.2.head.any (·.pattern?.isNone) = true := by
        by_contra hne
        obtain ⟨ps, hps⟩ := hiff.2 (Bool.eq_false_iff.2 hne)
        cases hc.symm.trans hps
      rw [if_pos rfl, if_pos rfl, hany, hc]
      rfl

/-- A rule has no plan because of a rule inside its body, or else because its body has no
pattern. -/
lemma code_of_planRule {options : CompileOptions} {name : String} {r : Rule} {reason : SkipReason}
    (h : planRule options name r = .error reason) : (reason.diagnostic name).code =
      if r.body.any Clause.isNested then .unsupportedClause else .emptyPrior := by
  rw [← any_isNested_canonicalRule (boundFor options.searchBound)]
  unfold planRule at h
  simp only at h
  split at h
  · next c hc =>
    obtain rfl := Except.error.inj h
    rw [List.any_eq_true.2 ⟨c, List.mem_of_find?_eq_some hc, List.find?_some hc⟩]
    rfl
  · next hnone =>
    rw [List.any_eq_false.2 (List.find?_eq_none.1 hnone)]
    split at h
    · obtain rfl := Except.error.inj h
      rfl
    · exact nomatch h

/-- The entry for another rule. -/
lemma map_planSkip? (options : CompileOptions) (x : String × Rule) :
    (planSkip? options x).map entryOf =
      if !x.2.isAxiom && isLeftOut x.2 then some (x.1, leftOutCode x.2) else none := by
  have hiff := exists_planRule_iff options x.1 x.2
  rw [planSkip?, isLeftOut, leftOutCode]
  cases x.2.isAxiom with
  | true => rfl
  | false =>
    cases hplan : planRule options x.1 x.2 with
    | ok p =>
      rw [hiff.1 ⟨p, hplan⟩]
      rfl
    | error reason =>
      have hnot : isCompiled x.2 = false := by
        by_contra hc
        obtain ⟨p, hp⟩ := hiff.2 (Bool.not_eq_false _ ▸ hc)
        cases hplan.symm.trans hp
      rw [hnot, Bool.false_or, ← code_of_planRule hplan]
      rfl

section
variable {options : CompileOptions} {rules : List Rule} {n : Network}

/-- The report has an entry for each rule that is left out, the axioms first. -/
lemma map_skipped (h : compile options rules = .ok n) : n.report.skipped.map entryOf =
    ((leftOutRules rules).filter (·.2.isAxiom) ++ (leftOutRules rules).filter (!·.2.isAxiom)).map
      fun x => (x.1, leftOutCode x.2) := by
  have hleft : leftOutRules rules = (named rules).filter fun x => isLeftOut x.2 :=
    List.filter_congr fun x _ => (isLeftOut_eq x.2).symm
  rw [skipped_of_compile h, List.map_append, map_filterMap_of map_axiomSkip?,
    map_filterMap_of (map_planSkip? options), List.map_append, hleft, List.filter_filter,
    List.filter_filter]

end

/-! ## Terminals -/

lemma terminal?_eq_none {op : Operator} (h : op.kind.isShared = true) : op.terminal? = none := by
  cases op with
  | terminal t => exact nomatch h
  | _ => rfl

/-- Each rule that is admitted leaves one terminal behind those that are there. -/
lemma terminals_of_installAll {plans : List RulePlan} {r r' : Registry} (hr : r.Tidy)
    (hplans : ∀ p ∈ plans, p.plan.Lined ∧ p.plan.Chained) (h : plans.foldlM install r = .ok r') :
    ∃ ts, r'.terminals = r.terminals ++ ts ∧ List.Forall₂ Ends plans ts := by
  induction plans generalizing r with
  | nil =>
    obtain rfl := Except.ok.inj h
    exact ⟨[], (List.append_nil _).symm, .nil⟩
  | cons p plans ih =>
    obtain ⟨⟨hlined, hchained⟩, hplans⟩ := List.forall_mem_cons.1 hplans
    rw [List.foldlM_cons] at h
    obtain ⟨mid, hfirst, h⟩ := bind_eq_ok h
    obtain ⟨htidy, added, t, hlist, hends, hsub, -⟩ := install_origin hr hchained hfirst
    obtain ⟨ts, hts, hall⟩ := ih htidy hplans h
    have hnone : added.filterMap Operator.terminal? = [] :=
      List.filterMap_eq_nil_iff.2 fun op hop =>
        terminal?_eq_none (hlined.shared op (hsub.subset hop))
    refine ⟨t :: ts, ?_, .cons hends hall⟩
    rw [hts, Registry.terminals, hlist, List.filterMap_append, List.filterMap_append, hnone,
      List.append_nil, List.append_assoc]
    rfl

section
variable {options : CompileOptions} {rules : List Rule} {n : Network}

/-- The terminals stand in the order of the compiled rules. -/
lemma forall₂_terminals (h : compile options rules = .ok n) :
    List.Forall₂ (fun x t => ∃ p, planRule options x.1 x.2 = .ok p ∧ Ends p t)
      (compiledRules rules) n.terminals := by
  obtain ⟨hbuild, -⟩ := compile_cases h
  obtain ⟨-, hplans⟩ := plans_of_compiledRules options rules
  unfold build at hbuild
  obtain ⟨base, hbase, hfold⟩ := bind_eq_ok hbuild
  obtain ⟨hordered, -, hlist⟩ := foundation_spec hbase
  obtain ⟨ts, hts, hends⟩ :=
    terminals_of_installAll hordered.tidy (fun p hp => plan_of_mem_plansOf hp) hfold
  have hnone : base.terminals = [] := by
    rw [Registry.terminals, hlist]
    rfl
  have hall : n.terminals = ts := hts.trans (by rw [hnone, List.nil_append])
  rw [hall]
  exact forall₂_trans hplans hends

/-- No two terminals have one name. -/
lemma nodup_terminals (h : compile options rules = .ok n) : (n.terminals.map (·.name)).Nodup := by
  obtain ⟨⟨htidy, -⟩, -, -⟩ := compile_ordered h
  have hnames := List.pairwise_map.1 htidy.nodup
  refine List.pairwise_map.2 (hnames.filterMap _ fun op op' hne t ht t' ht' => ?_)
  obtain rfl := Operator.terminal?_eq_some_iff.1 ht
  obtain rfl := Operator.terminal?_eq_some_iff.1 ht'
  exact hne

/-- The axiom source has the axioms of the rules. -/
lemma axioms_of_compile (h : compile options rules = .ok n) : n.axioms = axiomsOf rules := by
  obtain ⟨⟨htidy, -⟩, -, ops, hops, -⟩ := compile_ordered h
  have hmem : .axiomSource n.axiomSource (axiomsOf rules) ∈ n.registry.toList := by
    show _ ∈ n.operators
    rw [hops]
    exact List.mem_cons_of_mem _ List.mem_cons_self
  have hget : n.registry.get? n.axiomSource =
      some (.axiomSource n.axiomSource (axiomsOf rules)) := (htidy.get?_iff _ _).2 ⟨hmem, rfl⟩
  rw [axioms, hget]

end

/-! ## The account -/

/-- What a compilation tells of the rules is what became of them. -/
structure Accounts (options : CompileOptions) (rules : List Rule) (n : Network) : Prop where
  /-- Each rule is of one sort. -/
  once : (axiomRules rules ++ compiledRules rules ++ leftOutRules rules).Perm (named rules)
  /-- The rules that give axioms are named in their order. -/
  axioms : n.report.axioms = (axiomRules rules).map (·.1)
  /-- The axioms are the clauses of their heads. -/
  heads : n.axioms.map Clause.pattern = (axiomRules rules).flatMap (·.2.head)
  /-- The compiled rules are named in their order. -/
  compiled : n.report.compiled = (compiledRules rules).map (·.1)
  /-- The others are named with a code, first those without a body. -/
  skipped : n.report.skipped.map entryOf =
    ((leftOutRules rules).filter (·.2.isAxiom) ++ (leftOutRules rules).filter (!·.2.isAxiom)).map
      fun x => (x.1, leftOutCode x.2)
  /-- The terminals are those of the compiled rules in their order. -/
  terminals : List.Forall₂ (fun x t => t.rule = x.1 ∧
    t.guards.map Clause.functor =
      (canonicalRule (max options.searchBound 1) x.2).body.filter Clause.isFunctor)
      (compiledRules rules) n.terminals
  /-- No two terminals have one name. -/
  names : (n.terminals.map (·.name)).Nodup

/-- A network comes with an exact account of the rules. A compilation without one ends with a code
for options that are not valid or for the registry. -/
theorem compile_accounted (options : CompileOptions) (rules : List Rule) :
    (∀ n, compile options rules = .ok n → Accounts options rules n) ∧
    (∀ e, compile options rules = .error e →
      e.diagnostic.code = .validationError ∨ e.diagnostic.code = .registryViolation) ∧
    ∀ p : Pattern, ∃ q, (form (max options.searchBound 1) [.pattern p]).clauses =
      [.pattern q] := by
  refine ⟨fun n h => ?_, fun e _ => ?_, fun p => ?_⟩
  · obtain ⟨-, -, -, -, hreport⟩ := compile_cases h
    have hkept := map_kept_axiomResults (named rules)
    refine ⟨perm_named rules, ?_, ?_, ?_, map_skipped h, ?_, nodup_terminals h⟩
    · have hnames := congrArg (List.map Prod.fst) hkept
      rw [List.map_map, List.map_map] at hnames
      rw [hreport]
      exact hnames
    · have hheads := congrArg (List.flatMap Prod.snd) hkept
      rw [List.flatMap_map, List.flatMap_map] at hheads
      rw [axioms_of_compile h, axiomsOf, List.map_flatMap]
      exact hheads
    · rw [hreport]
      exact (plans_of_compiledRules options rules).1
    · refine (forall₂_terminals h).imp ?_
      rintro x t ⟨p, hp, hends⟩
      obtain ⟨hname, hrule, -⟩ := planRule_cases hp
      refine ⟨hends.rule.trans hname, ?_⟩
      rw [hends.guards, Rule.map_functor_guards, hrule]
      rfl
  · cases e with
    | sameSources name => exact .inl rfl
    | conflictSetIsSource name => exact .inl rfl
    | registry error => cases error <;> exact .inr rfl
  · exact ⟨_, congrArg CanonicalForm.clauses (form_singleton _ p)⟩

/-- Rules of every sort, two of them with one name, and options that are not valid. -/
theorem compile_accounted_of_five_rules :
    let edge (s o : String) : Clause := .pattern ⟨.var ⟨s⟩, .iri "p", .var ⟨o⟩⟩
    let guard : Clause := .functor ⟨"f", [.var ⟨"b"⟩]⟩
    let rules : List Rule := [⟨none, [guard, edge "a" "b"], [edge "b" "a"]⟩,
      ⟨some "x", [edge "a" "b", .nested none [] []], []⟩, ⟨some "y", [], [edge "a" "b"]⟩,
      ⟨some "x", [guard], [edge "b" "b"]⟩, ⟨none, [], [guard]⟩]
    (∃ n, compile {} rules = .ok n ∧ n.report.compiled = ["rule_1"] ∧ n.report.axioms = ["y"] ∧
      n.axioms.map Clause.pattern = [edge "a" "b"] ∧ n.report.skipped.map entryOf =
        [("rule_5", .unsupportedClause), ("x", .unsupportedClause), ("x", .emptyPrior)] ∧
      n.terminals.map (fun t => (t.rule, t.guards.map Clause.functor)) =
        [("rule_1", [.functor ⟨"f", [.var ⟨"1"⟩]⟩])]) ∧
    ∃ e, compile { source := "axioms" } rules = .error e ∧
      e.diagnostic.code = .validationError := by
  intro edge guard rules
  have hrun : (compile {} rules).map (fun n => n.report.compiled) = .ok ["rule_1"] := by
    decide +kernel
  have hclash : compile { source := "axioms" } rules = .error (.sameSources "axioms") := rfl
  refine ⟨?_, _, hclash, ((compile_accounted _ rules).2.1 _ hclash).resolve_right (by decide)⟩
  cases hcompile : compile {} rules with
  | error e => rw [hcompile] at hrun; exact nomatch hrun
  | ok n =>
    obtain ⟨-, haxioms, hheads, hcompiled, hskipped, hterminals, -⟩ :=
      (compile_accounted {} rules).1 n hcompile
    have hone : compiledRules rules = [("rule_1", rules.head!)] := by decide +kernel
    have hguards : (canonicalRule (max 720 1) rules.head!).body.filter Clause.isFunctor =
        [.functor ⟨"f", [.var ⟨"1"⟩]⟩] := by decide +kernel
    rw [hone, List.forall₂_cons_left_iff] at hterminals
    obtain ⟨t, ts, ⟨hrule, hguard⟩, hnil, heq⟩ := hterminals
    rw [List.forall₂_nil_left_iff] at hnil
    refine ⟨n, rfl, hcompiled.trans (by decide +kernel), haxioms.trans (by decide +kernel),
      hheads.trans (by decide +kernel), hskipped.trans (by decide +kernel), ?_⟩
    rw [heq, hnil, List.map_singleton, hrule, hguard]
    exact congrArg (fun gs => [("rule_1", gs)]) hguards

end RuleFlow.Network
