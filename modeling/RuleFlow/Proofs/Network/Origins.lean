import RuleFlow.Proofs.Network.Correctness

/-!
# Where the operators of a network come from

Within one plan all operators have different names, and each is the one that matches the whole
body or is taken by a planned join (`Plan.Chained`). The registry admits an operator of a plan,
or has one of its name and kind that an earlier plan brought (`Registry.adoptAll_origin`). So
every filter and join of a compiled network is one that was planned for a compiled rule, and of
what was planned for a rule only operators are missing whose names earlier rules gave to theirs
(`Registry.Gathers`, `compile_gathers`). A rule that is compiled alone has all operators of its
plan (`operators_of_singleton`).

Nothing here depends on how rules are written.
-/

namespace RuleFlow

/-- The operator takes the tuples that are given out under the name. -/
def Operator.Takes : Operator → String → Prop
  | .join j, name => j.left = name ∨ j.right = name
  | .terminal t, name => t.prior = name
  | _, _ => False

instance (op : Operator) (name : String) : Decidable (op.Takes name) := by
  cases op <;> unfold Operator.Takes <;> infer_instance

namespace Network
open Canonical

/-! ## Plans -/

/-- What holds, beside their being lined, of the operators planned so far and of the pieces that
are left to be joined. -/
structure Chained (bound : ℕ) (d : Draft) (work : List Piece) : Prop
    extends Lined bound d work where
  /-- No two operators have one name. -/
  nodup : (d.operators.map Operator.name).Nodup
  /-- What no piece is left for is taken by a join. -/
  taken : ∀ op ∈ d.operators, op.name ∈ work.map Piece.name ∨
    ∃ taker ∈ d.operators, taker.Takes op.name

section
variable {bound : ℕ} {d : Draft} {work : List Piece}

/-- The name of the next operator is one that no operator has. -/
lemma Lined.operator_name_notMem (h : Lined bound d work) {key : String} (hkey : IsClosed key) :
    occurrenceName d.keys key ∉ d.operators.map Operator.name := by
  intro hmem
  obtain ⟨op, hop, hname⟩ := List.mem_map.1 hmem
  obtain ⟨before, key', after, hkeys, hop'⟩ := h.named op hop
  have hkey' : IsClosed key' := h.closed key' (hkeys ▸ by simp)
  rw [hkeys, hop'] at hname
  exact occurrenceName_ne hkey hkey' hname.symm

/-- One more operator is planned, which takes what it takes away from the work list. -/
lemma Chained.add (h : Chained bound d work) {d' : Draft} {work' : List Piece} {op : Operator}
    {key : String} (hlined : Lined bound d' work') (hops : d'.operators = d.operators ++ [op])
    (hkey : IsClosed key) (hname : op.name = occurrenceName d.keys key)
    (hnew : op.name ∈ work'.map Piece.name)
    (hold : ∀ name ∈ work.map Piece.name, name ∈ work'.map Piece.name ∨ op.Takes name) :
    Chained bound d' work' := by
  refine { toLined := hlined, nodup := ?_, taken := ?_ }
  · rw [hops, List.map_append, List.map_singleton, ← List.concat_eq_append, hname]
    exact h.nodup.concat (h.toLined.operator_name_notMem hkey)
  · rw [hops]
    refine List.forall_mem_append.2 ⟨fun op' hop' => ?_, List.forall_mem_singleton.2 (.inl hnew)⟩
    rcases h.taken op' hop' with hwork | ⟨taker, htaker, htakes⟩
    · refine (hold _ hwork).imp id fun htakes => ?_
      exact ⟨op, List.mem_append_right _ (List.mem_singleton.2 rfl), htakes⟩
    · exact .inr ⟨taker, List.mem_append_left _ htaker, htakes⟩

/-- The filter of one more pattern is planned. -/
lemma Chained.filter (h : Chained bound d work) (p : Pattern) :
    Chained bound (d.filter p).2 (work ++ [(d.filter p).1]) := by
  have hlined := h.toLined.filter p
  have hsame : (Operator.filter (filterOf d p)).name =
      occurrenceName d.keys (formOf bound [p]).key := by
    rw [formOf_singleton]
    rfl
  rw [filter_eq bound] at hlined ⊢
  refine h.add hlined rfl (isClosed_key bound (List.cons_ne_nil p [])) hsame ?_ fun name hname => ?_
  · rw [List.map_append, hsame]
    exact List.mem_append_right _ (List.mem_singleton.2 rfl)
  · rw [List.map_append]
    exact .inl (List.mem_append_left _ hname)

/-- The filters of several patterns are planned. -/
lemma Chained.filters (h : Chained bound d work) (ps : List Pattern) :
    Chained bound (d.filters ps).2 (work ++ (d.filters ps).1) := by
  induction ps generalizing d work with
  | nil => rwa [Draft.filters, List.append_nil]
  | cons p ps ih =>
    have hrest := ih (h.filter p)
    rwa [List.append_assoc] at hrest

/-- The first piece is joined with its partner. -/
lemma Chained.join (window : Window) {first next : Piece} {rest : List Piece}
    (h : Chained bound d (first :: next :: rest)) :
    let found := partner first next rest
    let joined := d.join bound window first found.1
    Chained bound joined.2 (found.2 ++ [joined.1]) := by
  intro found joined
  have hperm : (first :: found.1 :: found.2).Perm (first :: next :: rest) :=
    (perm_partner first next rest).cons first
  have hfirst := h.formed first (hperm.subset (by simp))
  have hfound := h.formed found.1 (hperm.subset (by simp))
  have hlined : Lined bound joined.2 (found.2 ++ [joined.1]) := h.toLined.join window
  have heq := @join_eq bound d first found.1 window hfirst.clauses hfound.clauses
  rw [show joined = _ from heq] at hlined ⊢
  have hpatterns : first.patterns ++ found.1.patterns ≠ [] :=
    List.append_ne_nil_of_left_ne_nil hfirst.ne_nil _
  refine h.add hlined rfl (isClosed_key bound hpatterns) rfl ?_ fun name hname => ?_
  · rw [List.map_append]
    exact List.mem_append_right _ (List.mem_singleton.2 rfl)
  · -- the two sides leave the work list
    obtain ⟨piece, hpiece, rfl⟩ := List.mem_map.1 hname
    rw [List.map_append]
    rcases List.mem_cons.1 (hperm.mem_iff.2 hpiece) with rfl | hpiece
    · exact .inr (.inl rfl)
    · rcases List.mem_cons.1 hpiece with rfl | hpiece
      · exact .inr (.inr rfl)
      · exact .inl (List.mem_append_left _ (List.mem_map_of_mem hpiece))

lemma chained_empty (bound : ℕ) : Chained bound {} [] where
  toLined := lined_empty bound
  nodup := List.nodup_nil
  taken := List.forall_mem_nil _

/-- The operators of a plan have different names, and each is the last one or taken by a join of
the plan. -/
structure Plan.Chained (plan : Plan) : Prop where
  /-- No two operators have one name. -/
  nodup : (plan.operators.map Operator.name).Nodup
  /-- The operators are taken. -/
  taken : ∀ op ∈ plan.operators, op.name = plan.prior.name ∨
    ∃ taker ∈ plan.operators, taker.Takes op.name

/-- Every plan is chained. -/
theorem planBody_chained {window : Window} {ps : List Pattern} {plan : Plan}
    (h : planBody bound window ps = some plan) : plan.Chained := by
  obtain ⟨first, rest, hwork, rfl⟩ := planBody_cases h
  have hfilters := (chained_empty bound).filters ps.eraseDups
  rw [hwork, List.nil_append] at hfilters
  have hlast := reduce_induction (fun _ _ _ _ h => h.join window) hfilters
  exact ⟨hlast.nodup, fun op hop => (hlast.taken op hop).imp_left List.mem_singleton.1⟩

end

end Network

namespace Registry
open Network

/-! ## Registries -/

/-- What a registry has of the filters and joins that were planned, plan by plan. -/
structure Gathers (r : Registry) (plans : List RulePlan) : Prop where
  /-- Names are given once. -/
  tidy : r.Tidy
  /-- Every filter and every join is one of a plan. -/
  planned : ∀ op ∈ r.toList, op.kind.isShared = true → ∃ p ∈ plans, op ∈ p.plan.operators
  /-- An operator of a plan is there, or an earlier plan gave its name to another one. -/
  present : ∀ before p after, plans = before ++ p :: after → ∀ op ∈ p.plan.operators,
    op ∈ r.toList ∨ ∃ q ∈ before, ∃ found ∈ q.plan.operators, found ∈ r.toList ∧
      found.name = op.name ∧ found.kind = op.kind
  /-- Every plan has a terminal. -/
  ended : ∀ p ∈ plans, ∃ t, .terminal t ∈ r.toList ∧ Ends p t

section
variable {r r' : Registry} {p : RulePlan} {plans : List RulePlan}

/-- Of operators with different names those are admitted whose names are free; under the names of
the others the registry has operators of the same kinds. -/
theorem adoptAll_origin {ops : List Operator} (hr : r.Tidy)
    (hnodup : (ops.map Operator.name).Nodup) (h : ops.foldlM Registry.adopt r = .ok r') :
    r'.Tidy ∧ ∃ added, r'.toList = r.toList ++ added ∧ added.Sublist ops ∧
      ∀ op ∈ ops, op ∈ added ∨ ∃ found ∈ r.toList, found.name = op.name ∧ found.kind = op.kind := by
  induction ops using List.reverseRecOn generalizing r' with
  | nil =>
    obtain rfl := Except.ok.inj h
    exact ⟨hr, [], (List.append_nil _).symm, .slnil, List.forall_mem_nil _⟩
  | append_singleton ops op ih =>
    obtain ⟨mid, hmid, hlast⟩ := foldlM_snoc h
    rw [List.map_append, List.map_singleton, ← List.concat_eq_append, List.nodup_concat] at hnodup
    obtain ⟨hnew, hnodup⟩ := hnodup
    obtain ⟨htidy, added, hlist, hsub, hall⟩ := ih hnodup hmid
    obtain ⟨-, hregister⟩ | ⟨rfl, found, hget, hkind, -⟩ := adopt_cases hlast
    · obtain ⟨-, -, -, hlist'⟩ := register_spec hregister
      refine ⟨htidy.register hregister, added ++ [op], ?_, hsub.append_right [op], ?_⟩
      · rw [hlist', hlist, List.append_assoc]
      · refine List.forall_mem_append.2 ⟨fun op' hop' => ?_, List.forall_mem_singleton.2 ?_⟩
        · exact (hall op' hop').imp_left fun hmem => List.mem_append_left _ hmem
        · exact .inl (List.mem_append_right _ (List.mem_singleton.2 rfl))
    · obtain ⟨hfound, hname⟩ := (htidy.get?_iff _ _).1 hget
      refine ⟨htidy, added, hlist, hsub.trans (List.sublist_append_left ops [op]), ?_⟩
      refine List.forall_mem_append.2 ⟨hall, List.forall_mem_singleton.2 (.inr ?_)⟩
      -- the operators that were admitted for the plan have other names
      rcases List.mem_append.1 (hlist ▸ hfound) with hmem | hmem
      · exact ⟨found, hmem, hname, hkind⟩
      · exact absurd (hname ▸ List.mem_map_of_mem (hsub.subset hmem)) hnew

/-- What the registry has behind a rule: what it had, some operators of the plan and the terminal of
the rule. -/
lemma install_origin (hr : r.Tidy) (hp : p.plan.Chained) (h : install r p = .ok r') :
    r'.Tidy ∧ ∃ added t, r'.toList = r.toList ++ added ++ [.terminal t] ∧ Ends p t ∧
      added.Sublist p.plan.operators ∧ ∀ op ∈ p.plan.operators,
        op ∈ added ∨ ∃ found ∈ r.toList, found.name = op.name ∧ found.kind = op.kind := by
  unfold Network.install at h
  obtain ⟨mid, hmid, hlast⟩ := bind_eq_ok h
  obtain ⟨htidy, added, hlist, hsub, hall⟩ := adoptAll_origin hr hp.nodup hmid
  obtain ⟨-, -, -, hlist'⟩ := register_spec hlast
  exact ⟨htidy.register hlast, added, terminalOf mid p, hlist ▸ hlist',
    ⟨rfl, rfl, rfl, rfl, rfl⟩, hsub, hall⟩

/-- A registry without filters and joins admits all operators of a plan. -/
theorem install_first (hr : r.Tidy) (hnone : ∀ op ∈ r.toList, op.kind.isShared = false)
    (hlined : p.plan.Lined) (hp : p.plan.Chained) (h : install r p = .ok r') :
    ∃ t, r'.toList = r.toList ++ p.plan.operators ++ [.terminal t] ∧ Ends p t := by
  obtain ⟨-, added, t, hlist, hends, hsub, hall⟩ := install_origin hr hp h
  have hmem : p.plan.operators ⊆ added := by
    intro op hop
    refine (hall op hop).resolve_right ?_
    rintro ⟨found, hfound, -, hkind⟩
    have hshared := hlined.shared op hop
    rw [← hkind, hnone found hfound] at hshared
    exact nomatch hshared
  have hnodup : p.plan.operators.Nodup := hp.nodup.of_map
  obtain rfl : added = p.plan.operators :=
    hsub.eq_of_length_le (hnodup.subperm hmem).length_le
  exact ⟨t, hlist, hends⟩

/-- One more rule is admitted. -/
theorem Gathers.install (hr : r.Gathers plans) (hlined : p.plan.Lined) (hp : p.plan.Chained)
    (h : install r p = .ok r') : r'.Gathers (plans ++ [p]) := by
  obtain ⟨htidy, added, t, hlist, hends, hsub, hall⟩ := install_origin hr.tidy hp h
  have hold : ∀ op ∈ r.toList, op ∈ r'.toList := by
    intro op hop
    rw [hlist]
    simp [hop]
  have hnew : ∀ op ∈ added, op ∈ r'.toList := by
    intro op hop
    rw [hlist]
    simp [hop]
  refine ⟨htidy, ?_, ?_, ?_⟩
  · intro op hop hshared
    rw [hlist, List.mem_append, List.mem_append, List.mem_singleton] at hop
    rcases hop with (hop | hop) | rfl
    · obtain ⟨q, hq, hmem⟩ := hr.planned op hop hshared
      exact ⟨q, List.mem_append_left _ hq, hmem⟩
    · exact ⟨p, List.mem_append_right _ (List.mem_singleton.2 rfl), hsub.subset hop⟩
    · exact nomatch hshared
  · intro before q after hsplit op hop
    rcases List.eq_nil_or_concat after with rfl | ⟨after, last, rfl⟩
    · -- the plan is the new one
      obtain ⟨rfl, hlast⟩ := List.append_inj' hsplit rfl
      obtain rfl := List.singleton_inj.1 hlast
      rcases hall op hop with hmem | ⟨found, hfound, hname, hkind⟩
      · exact .inl (hnew op hmem)
      · obtain ⟨q, hq, hmem⟩ := hr.planned found hfound (hkind ▸ hlined.shared op hop)
        exact .inr ⟨q, hq, found, hmem, hold found hfound, hname, hkind⟩
    · rw [List.concat_eq_append, ← List.cons_append, ← List.append_assoc] at hsplit
      rcases hr.present before q after (List.append_inj' hsplit rfl).1 op hop with
        hmem | ⟨q', hq', found, hfound, hmem, hsame⟩
      · exact .inl (hold op hmem)
      · exact .inr ⟨q', hq', found, hfound, hold found hmem, hsame⟩
  · refine List.forall_mem_append.2 ⟨fun q hq => ?_, List.forall_mem_singleton.2 ?_⟩
    · obtain ⟨u, hu, hends'⟩ := hr.ended q hq
      exact ⟨u, hold _ hu, hends'⟩
    · exact ⟨t, hlist ▸ List.mem_append_right _ (List.mem_singleton.2 rfl), hends⟩

/-- Rules are admitted one after another. -/
theorem Gathers.installAll (hr : r.Gathers [])
    (hplans : ∀ p ∈ plans, p.plan.Lined ∧ p.plan.Chained)
    (h : plans.foldlM Network.install r = .ok r') : r'.Gathers plans := by
  induction plans using List.reverseRecOn generalizing r' with
  | nil => exact Except.ok.inj h ▸ hr
  | append_singleton plans p ih =>
    obtain ⟨mid, hmid, hlast⟩ := foldlM_snoc h
    obtain ⟨hall, hone⟩ := List.forall_mem_append.1 hplans
    obtain ⟨hlined, hchained⟩ := hone p (List.mem_singleton.2 rfl)
    exact (ih hall hmid).install hlined hchained hlast

end

end Registry

namespace Network
open Canonical Registry

/-! ## Compilations -/

section
variable {options : CompileOptions} {rules : List Rule} {n : Network} {p : RulePlan}

/-- The plans of rules are lined and chained. -/
lemma plan_of_mem_plansOf (h : p ∈ plansOf options rules) : p.plan.Lined ∧ p.plan.Chained := by
  obtain ⟨name, r, -, hplan⟩ := exists_planRule_of_mem_plansOf h
  obtain ⟨-, -, hbody, -⟩ := planRule_cases hplan
  exact ⟨planRule_lined hplan, planBody_chained hbody⟩

/-- A compiled network has the operators of its plans. -/
theorem compile_gathers (h : compile options rules = .ok n) :
    n.registry.Gathers (plansOf options rules) := by
  obtain ⟨hbuild, -⟩ := compile_cases h
  unfold build at hbuild
  obtain ⟨base, hbase, hfold⟩ := bind_eq_ok hbuild
  obtain ⟨hordered, -, hlist⟩ := foundation_spec hbase
  have hbegin : base.Gathers [] := by
    refine ⟨hordered.tidy, fun op hop hshared => ?_, fun before p after hsplit => ?_,
      List.forall_mem_nil _⟩
    · rw [hlist] at hop
      simp only [List.mem_cons, List.not_mem_nil, or_false] at hop
      rcases hop with rfl | rfl
      · exact nomatch hshared
      · exact nomatch hshared
    · simp at hsplit
  exact hbegin.installAll (fun p hp => plan_of_mem_plansOf hp) hfold

/-- The plan of a rule does not depend on the name. -/
lemma plan_eq {name name' : String} {r : Rule} {p' : RulePlan}
    (h : planRule options name r = .ok p) (h' : planRule options name' r = .ok p') :
    p.plan = p'.plan := by
  obtain ⟨-, hrule, hbody, -⟩ := planRule_cases h
  obtain ⟨-, hrule', hbody', -⟩ := planRule_cases h'
  rw [hrule] at hbody
  rw [hrule'] at hbody'
  exact Option.some.inj (hbody.symm.trans hbody')

/-- The network of one rule has all operators of its plan. -/
theorem operators_of_singleton {name : String} {r : Rule} (h : compile options [r] = .ok n)
    (hp : planRule options name r = .ok p) :
    ∃ t, n.operators = .conflictSet n.conflictSet :: .axiomSource n.axiomSource (axiomsOf [r]) ::
      (p.plan.operators ++ [.terminal t]) := by
  obtain ⟨hbuild, -, haxioms, hconflict, -⟩ := compile_cases h
  -- the rule is compiled, so its plan is the one that is installed
  have hcompiled : isCompiled r = true := (exists_planRule_iff options name r).1 ⟨p, hp⟩
  have hone : compiledRules [r] = [(r.name.getD ("rule_" ++ toString 1), r)] :=
    List.filter_cons_of_pos (a := (_, r)) hcompiled
  obtain ⟨-, hplans⟩ := plans_of_compiledRules options [r]
  rw [hone, List.forall₂_cons_left_iff] at hplans
  obtain ⟨p', ps, hp', hnil, heq⟩ := hplans
  rw [List.forall₂_nil_left_iff] at hnil
  have hplansOf : plansOf options [r] = [p'] := heq.trans (congrArg _ hnil)
  obtain ⟨hlined, hchained⟩ := plan_of_mem_plansOf (hplansOf ▸ List.mem_singleton.2 rfl)
  unfold build at hbuild
  obtain ⟨base, hbase, hfold⟩ := bind_eq_ok hbuild
  obtain ⟨hordered, -, hlist⟩ := foundation_spec hbase
  rw [hplansOf, List.foldlM_cons] at hfold
  obtain ⟨last, hinstall, hdone⟩ := bind_eq_ok hfold
  obtain rfl := Except.ok.inj hdone
  have hnone : ∀ op ∈ base.toList, op.kind.isShared = false := by
    rw [hlist]
    exact List.forall_mem_cons.2 ⟨rfl, List.forall_mem_singleton.2 rfl⟩
  obtain ⟨t, hlast, -⟩ := install_first hordered.tidy hnone hlined hchained hinstall
  refine ⟨t, ?_⟩
  rw [operators, hlast, hlist, haxioms, hconflict, plan_eq hp hp', List.append_assoc]
  rfl

end
end Network
end RuleFlow
