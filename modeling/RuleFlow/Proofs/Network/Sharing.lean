import RuleFlow.Proofs.Canonical.Distinct
import RuleFlow.Proofs.Canonical.Renaming
import RuleFlow.Proofs.Clause.Alike
import RuleFlow.Proofs.Network.Correctness

/-!
# Rules that share an operator

The terminals of two rules take their tuples from one operator exactly when the bodies of the
rules have the same patterns, up to the names of the variables (`prior_eq_iff_alike`). The
operator is named by the key of the distinct patterns of the body, so this is a statement about
keys: patterns with one key have one canonical form, hence are alike (`alike_of_key_eq`), and
patterns that are alike have one key as long as all orders of tied patterns are tried
(`key_eq_of_alike`).

For rules that no text was read for the same is asked of keys and of filters: what has one name
is equal up to renaming and order, when its parts do not hold the characters that end them in a
key (`same_name_same_structure`), and not otherwise (`one_key_of_two_patterns`).
-/

namespace RuleFlow.Network
open Canonical

/-! ## Forms of patterns that are alike -/

section
variable {bound : ℕ} {ps qs : List Pattern}

/-- Without repetitions, patterns that are alike have as many ties. -/
theorem tieCount_eq_of_alike (h : Alike ps qs) (hps : ps.Nodup) (hqs : qs.Nodup) :
    tieCount (ps.map Pattern.blind) = tieCount (qs.map Pattern.blind) := by
  obtain ⟨σ, -, hperm⟩ := h.exists_perm hps hqs
  rw [← tieCount_perm (hperm.map Pattern.blind), List.map_map]
  exact congrArg tieCount (List.map_congr_left fun p _ => (Pattern.blind_rename σ p).symm)

/-- Patterns are alike to the template of their form. -/
theorem alike_formOf (bound : ℕ) (ps : List Pattern) :
    Alike ps ((formOf bound ps).clauses.filterMap Clause.pattern?) := by
  obtain ⟨os, hos, hclauses⟩ := exists_perm_form bound ps
  refine ⟨numbering (formOf bound ps).order, ?_, fun q => ?_⟩
  · refine (numbering_injOn _).mono fun v hv => ?_
    exact mem_order_formOf_iff.2 (List.mem_flatMap.1 hv)
  · rw [formOf, hclauses, filterMap_map_pattern, List.mem_map]
    simp only [hos.mem_iff]

/-- Patterns with one key are alike. -/
theorem alike_of_key_eq (hps : ∀ p ∈ ps, p.Legible) (hqs : ∀ q ∈ qs, q.Legible)
    (h : (formOf bound ps).key = (formOf bound qs).key) : Alike ps qs := by
  have hclauses : (formOf bound ps).clauses = (formOf bound qs).clauses :=
    clauses_eq_of_key_eq (legible_map_pattern hps) (legible_map_pattern hqs) h
  have hform := alike_formOf bound ps
  rw [hclauses] at hform
  exact hform.trans (alike_formOf bound qs).symm

/-- Patterns that are alike have one key, when all orders of tied patterns may be tried. -/
theorem key_eq_of_alike (h : Alike ps qs) (hps : ps.Nodup) (hqs : qs.Nodup)
    (hb : tieCount (ps.map Pattern.blind) ≤ bound) :
    (formOf bound ps).key = (formOf bound qs).key := by
  obtain ⟨σ, hσ, hperm⟩ := h.exists_perm hps hqs
  have hmap : (ps.map .pattern).map (Clause.rename σ) =
      (ps.map (Pattern.rename σ)).map .pattern := by
    rw [List.map_map, List.map_map]
    exact List.map_congr_left fun p _ => Clause.rename_pattern σ p
  have hinj : Set.InjOn σ {v | v ∈ (ps.map Clause.pattern).flatMap Clause.mentions} := by
    rwa [List.flatMap_map]
  have hcount : tieCount ((ps.map Clause.pattern).map Clause.blindKey) ≤ bound := by
    rwa [List.map_map]
  exact (key_form_of_renamed_perm hinj (hmap ▸ hperm.map _) hcount).symm

end

/-! ## Bodies and terminals -/

lemma nodup_eraseDups (ps : List Pattern) : ps.eraseDups.Nodup := by
  induction hn : ps.length using Nat.strong_induction_on generalizing ps with
  | h n ih =>
    cases ps with
    | nil => exact List.nodup_nil
    | cons p ps =>
      rw [List.eraseDups_cons, List.nodup_cons, List.mem_eraseDups, List.mem_filter]
      refine ⟨fun h => by simp at h, ih _ ?_ _ rfl⟩
      rw [← hn, List.length_cons]
      exact Nat.lt_succ_of_le (List.length_filter_le _ _)

/-- The last operator of a plan is made for patterns that are alike to the body of the rule. -/
theorem alike_bodyPatterns {bound : ℕ} {r : Rule} {ps : List Pattern}
    (hps : ps.Perm (canonicalRule bound r).bodyPatterns.eraseDups) :
    Alike r.bodyPatterns ps := by
  obtain ⟨σ, hσ, hbody, -⟩ := exists_renaming_canonicalRule bound r
  refine ⟨σ, hσ.mono fun v hv => ?_, renames_of_perm hbody hps⟩
  -- a variable of a pattern in the body is one of the rule
  obtain ⟨p, hp, hv⟩ := List.mem_flatMap.1 hv
  obtain ⟨c, hc, hpattern⟩ := List.mem_filterMap.1 hp
  have hv : v ∈ c.mentions := by
    cases c with
    | pattern p' => exact Option.some.inj hpattern ▸ hv
    | _ => exact nomatch hpattern
  apply mem_variables_iff.2
  rw [Rule.toClause, Clause.mentions_nested]
  exact List.mem_flatMap.2 ⟨c, List.mem_append_left _ hc, hv⟩

/-- The operator before the terminal of a rule is named by the key of patterns that are alike to
the body of the rule. -/
theorem exists_key_eq_prior {options : CompileOptions} {name : String} {r : Rule} {p : RulePlan}
    {t : Terminal} (hr : r.Legible) (hp : planRule options name r = .ok p) (ht : Ends p t) :
    ∃ qs : List Pattern, qs.Nodup ∧ (∀ q ∈ qs, q.Legible) ∧ Alike r.bodyPatterns qs ∧
      t.prior = (formOf (boundFor options.searchBound) qs).key := by
  obtain ⟨-, -, hsound, hprior, hname⟩ := planRule_spec hr hp
  exact ⟨p.plan.prior.patterns, hprior.nodup_iff.2 (nodup_eraseDups _), hsound.prior.legible,
    alike_bodyPatterns hprior, ht.prior.trans hname⟩

/-- Two terminals of a compilation take their tuples from one operator only if the bodies of
their rules are alike, and, when all orders of tied patterns may be tried, always if they are. -/
theorem prior_eq_iff_alike {text : String} {ps : Prefixes} {rules : List Rule}
    {options : CompileOptions} {n : Network}
    (hread : Reader.document .standard text = (ps, .ok rules))
    (hcompile : compile options rules = .ok n) :
    n.report.compiled = (compiledRules rules).map (·.1) ∧
    List.Forall₂ (fun x t => t.rule = x.1) (compiledRules rules) n.terminals ∧
    ∀ x t y u, (x, t) ∈ (compiledRules rules).zip n.terminals →
      (y, u) ∈ (compiledRules rules).zip n.terminals →
      (t.prior = u.prior → Alike x.2.bodyPatterns y.2.bodyPatterns) ∧
      (Alike x.2.bodyPatterns y.2.bodyPatterns →
        tieCount (x.2.bodyPatterns.eraseDups.map Pattern.blind) ≤ max options.searchBound 1 →
        t.prior = u.prior) := by
  have hlegible := (Reader.legible_of_document Prefixes.legible_standard hread).2
  obtain ⟨-, hreport, hall⟩ := compile_spec hlegible hcompile
  have hrules : ∀ x ∈ compiledRules rules, x.2.Legible :=
    fun x hx => hlegible _ (mem_of_mem_compiledRules hx)
  have hplans := (List.forall₂_and_left _ _).2 ⟨hrules, hall⟩
  refine ⟨hreport, hplans.imp ?_, fun x t y u hxt hyu => ?_⟩
  · rintro x t ⟨hx, p, hp, -, hends⟩
    exact hends.rule.trans (planRule_spec hx hp).1
  · obtain ⟨hx, p, hp, -, ht⟩ := List.forall₂_zip hplans hxt
    obtain ⟨hy, p', hp', -, hu⟩ := List.forall₂_zip hplans hyu
    obtain ⟨qs, hqs, hqslegible, hqsalike, htkey⟩ := exists_key_eq_prior hx hp ht
    obtain ⟨qs', hqs', hqslegible', hqsalike', hukey⟩ := exists_key_eq_prior hy hp' hu
    rw [htkey, hukey]
    constructor
    · intro hkey
      have hforms : Alike qs qs' := alike_of_key_eq hqslegible hqslegible' hkey
      exact (hqsalike.trans hforms).trans hqsalike'.symm
    · intro halike hcount
      have hdistinct : Alike x.2.bodyPatterns.eraseDups qs :=
        (Alike.of_mem_iff fun _ => List.mem_eraseDups.symm).trans hqsalike
      rw [tieCount_eq_of_alike hdistinct (nodup_eraseDups _) hqs] at hcount
      have hforms : Alike qs qs' := (hqsalike.symm.trans halike).trans hqsalike'
      exact key_eq_of_alike hforms hqs hqs' hcount

/-- Two patterns that are tied are shared under other names, in the other order and with one of them
twice, and two that leave one node are not. -/
theorem prior_eq_iff_alike_of_ties :
    let text := "[(?x <p> ?y) (?y <p> ?z) ->] [(?b <p> ?c) (?a <p> ?b) (?b <p> ?c) -> f(?a)]" ++
      " [(?a <p> ?b) (?a <p> ?c) ->]"
    let edge (s o : String) : Pattern := ⟨.var ⟨s⟩, .iri "p", .var ⟨o⟩⟩
    let rules : List Rule :=
      [⟨none, [.pattern (edge "x" "y"), .pattern (edge "y" "z")], []⟩,
      ⟨none, [.pattern (edge "b" "c"), .pattern (edge "a" "b"), .pattern (edge "b" "c")],
        [.functor ⟨"f", [.var ⟨"a"⟩]⟩]⟩,
      ⟨none, [.pattern (edge "a" "b"), .pattern (edge "a" "c")], []⟩]
    let path := [edge "x" "y", edge "y" "z"]
    Reader.document .standard text = (.standard, .ok rules) ∧
    tieCount (path.eraseDups.map Pattern.blind) = 2 ∧
    ∃ n, compile {} rules = .ok n ∧ n.terminals.map (·.prior) =
        ["(?0 <p> ?1) (?1 <p> ?2)", "(?0 <p> ?1) (?1 <p> ?2)", "(?0 <p> ?1) (?0 <p> ?2)"] ∧
      Alike path [edge "b" "c", edge "a" "b", edge "b" "c"] ∧
      ¬ Alike path [edge "a" "b", edge "a" "c"] := by
  intro text edge rules path
  have hread : Reader.document .standard text = (.standard, .ok rules) := by decide +kernel
  have hties : tieCount (path.eraseDups.map Pattern.blind) = 2 := by decide +kernel
  have hrun : (compile {} rules).map (fun n => n.terminals.map (·.prior)) =
      .ok ["(?0 <p> ?1) (?1 <p> ?2)", "(?0 <p> ?1) (?1 <p> ?2)", "(?0 <p> ?1) (?0 <p> ?2)"] := by
    decide +kernel
  refine ⟨hread, hties, ?_⟩
  cases hcompile : compile {} rules with
  | error e => rw [hcompile] at hrun; exact nomatch hrun
  | ok n =>
    rw [hcompile] at hrun
    have hpriors := Except.ok.inj hrun
    obtain ⟨-, -, hiff⟩ := prior_eq_iff_alike hread hcompile
    have hrules : compiledRules rules =
        [("rule_1", rules[0]), ("rule_2", rules[1]), ("rule_3", rules[2])] := by decide +kernel
    rw [hrules] at hiff
    have hcount : tieCount (path.eraseDups.map Pattern.blind) ≤ max 720 1 := by
      rw [hties]
      decide
    refine ⟨n, rfl, hpriors, ?_⟩
    obtain ⟨t, ts, hts, ht, hpriors⟩ := List.map_eq_cons_iff.1 hpriors
    obtain ⟨u, us, rfl, hu, hpriors⟩ := List.map_eq_cons_iff.1 hpriors
    obtain ⟨w, ws, rfl, hw, -⟩ := List.map_eq_cons_iff.1 hpriors
    rw [hts] at hiff
    constructor
    · exact (hiff _ t _ u (.head _) (.tail _ (.head _))).1 (ht.trans hu.symm)
    · intro halike
      have hsame := (hiff _ t _ w (.head _) (.tail _ (.tail _ (.head _)))).2 halike hcount
      rw [ht, hw] at hsame
      exact absurd hsame (by decide)

/-! ## Clauses and patterns with one name -/

/-- Filters that are planned with one name are for patterns that are equal up to renaming. -/
lemma exists_rename_eq_of_filter {d d' : Draft} {p q : Pattern} (hp : p.Delimited Set.univ)
    (hq : q.Delimited Set.univ) (h : (d.filter p).1.name = (d'.filter q).1.name) :
    ∃ σ : Variable → Variable, Set.InjOn σ {v | v ∈ p.mentions} ∧ p.rename σ = q := by
  have hnamed : ∀ (d : Draft) (p : Pattern), IsNamed (d.filter p).1.name (formOf 1 [p]).key := by
    intro d p
    rw [filter_eq 1]
    exact isNamed_occurrenceName d.keys _
  have hclosed : ∀ p : Pattern, IsClosed (formOf 1 [p]).key :=
    fun p => isClosed_key 1 (List.cons_ne_nil p [])
  have hdelimited : ∀ p : Pattern, p.Delimited Set.univ →
      ∀ c ∈ [p].map Clause.pattern, c.Delimited Set.univ :=
    fun p hp c hc => List.mem_singleton.1 hc ▸ .pattern hp
  -- the name of the one is the name of the other, and a name has one key
  have hkey : (formOf 1 [p]).key = (formOf 1 [q]).key :=
    (hnamed d p).unique (h ▸ hnamed d' q) (hclosed p) (hclosed q)
  obtain ⟨σ, hσ, hrearranged⟩ :=
    exists_renaming_of_key_eq (hdelimited p hp) (hdelimited q hq) hkey
  refine ⟨σ, hσ.mono fun v hv => List.mem_flatMap.2 ⟨_, List.mem_singleton.2 rfl, hv⟩, ?_⟩
  have hperm : ([p.rename σ].map Clause.pattern).Perm [.pattern q] :=
    Clause.Rearranged.perm_of_patterns (by simpa using hrearranged)
  exact Clause.pattern.inj (List.singleton_perm_singleton.1 hperm)

/-- Delimited lists of clauses with one key, and delimited patterns whose filters have one name,
are equal up to a renaming that keeps variables apart and the order of clauses. -/
theorem same_name_same_structure (bound bound' : ℕ) (d d' : Draft) :
    (∀ cs ds : List Clause, (∀ c ∈ cs, c.Delimited Set.univ) → (∀ c ∈ ds, c.Delimited Set.univ) →
      (form bound cs).key = (form bound' ds).key →
      ∃ σ : Variable → Variable, Set.InjOn σ {v | v ∈ cs.flatMap Clause.mentions} ∧
        Clause.Rearranged (cs.map (Clause.rename σ)) ds) ∧
    (∀ p q : Pattern, p.Delimited Set.univ → q.Delimited Set.univ →
      (d.filter p).1.name = (d'.filter q).1.name →
      ∃ σ : Variable → Variable, Set.InjOn σ {v | v ∈ p.mentions} ∧ p.rename σ = q) :=
  ⟨fun _ _ hcs hds h => exists_renaming_of_key_eq hcs hds h,
    fun _ _ hp hq h => exists_rename_eq_of_filter hp hq h⟩

/-- A label, a name and a variable that the rule language does not have. -/
theorem same_name_same_structure_of_odd_names :
    let tagged (v : String) : Pattern := ⟨.var ⟨v⟩, .iri "p", .blank "b.1"⟩
    let inner (v w : String) : Clause :=
      .nested (some "my rule") [.pattern ⟨.var ⟨v⟩, .iri "q", .var ⟨w⟩⟩] []
    let cs : List Clause := [.pattern (tagged "x y"), inner "x y" "z"]
    let ds : List Clause := [inner "a" "b", .pattern (tagged "a")]
    ((form 720 cs).key = (form 1 ds).key ∧
      ∃ σ : Variable → Variable, Set.InjOn σ {v | v ∈ cs.flatMap Clause.mentions} ∧
        Clause.Rearranged (cs.map (Clause.rename σ)) ds) ∧
    ((Draft.filter {} (tagged "x y")).1.name = (Draft.filter {} (tagged "a")).1.name ∧
      ∃ σ : Variable → Variable, Set.InjOn σ {v | v ∈ (tagged "x y").mentions} ∧
        (tagged "x y").rename σ = tagged "a") := by
  intro tagged inner cs ds
  have hlabel : IsWord "b.1" := by decide
  have hname : IsTitle "my rule" := by decide
  have htagged : ∀ v, (tagged v).Delimited Set.univ := fun v =>
    Pattern.delimited_iff.2 ⟨trivial, (by decide : IsEnclosed "p"), hlabel⟩
  have hinner : ∀ v w, (inner v w).Delimited Set.univ := fun v w =>
    .nested (fun n hn => Option.mem_some_iff.1 hn ▸ hname)
      (List.forall_mem_singleton.2 (.pattern (Pattern.delimited_iff.2
        ⟨trivial, (by decide : IsEnclosed "q"), trivial⟩))) nofun
  have hkey : (form 720 cs).key = (form 1 ds).key := by decide +kernel
  have hfilter :
      (Draft.filter {} (tagged "x y")).1.name = (Draft.filter {} (tagged "a")).1.name := by
    decide +kernel
  obtain ⟨hlists, hfilters⟩ := same_name_same_structure 720 1 {} {}
  refine ⟨⟨hkey, hlists cs ds ?_ ?_ hkey⟩, hfilter, hfilters _ _ (htagged _) (htagged _) hfilter⟩
  · exact List.forall_mem_cons.2 ⟨.pattern (htagged _), List.forall_mem_singleton.2 (hinner _ _)⟩
  · exact List.forall_mem_cons.2 ⟨hinner _ _, List.forall_mem_singleton.2 (.pattern (htagged _))⟩

/-- The end of an IRI inside an IRI is not escaped: two patterns without variables that differ have
one key, and two rules take the tuples of one filter for them. -/
theorem one_key_of_two_patterns :
    let p : Pattern := ⟨.iri "a> <b", .iri "c", .iri "d"⟩
    let q : Pattern := ⟨.iri "a", .iri "b> <c", .iri "d"⟩
    let rules : List Rule := [⟨some "one", [.pattern p], []⟩, ⟨some "two", [.pattern q], []⟩]
    (form 720 [.pattern p]).key = (form 720 [.pattern q]).key ∧
    (compile {} rules).map (fun n => n.terminals.map (·.prior)) =
      .ok ["(<a> <b> <c> <d>)", "(<a> <b> <c> <d>)"] ∧
    ∀ σ : Variable → Variable,
      ¬ Clause.Rearranged ([Clause.pattern p].map (Clause.rename σ)) [.pattern q] := by
  intro p q rules
  refine ⟨by decide +kernel, by decide +kernel, fun σ h => ?_⟩
  have hperm : ([p.rename σ].map Clause.pattern).Perm [.pattern q] :=
    Clause.Rearranged.perm_of_patterns (by simpa using h)
  have hsame : p = q := Clause.pattern.inj (List.singleton_perm_singleton.1 hperm)
  exact absurd hsame (by decide)

end RuleFlow.Network
