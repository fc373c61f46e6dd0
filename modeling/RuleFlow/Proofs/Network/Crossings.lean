import RuleFlow.Proofs.Clause.Connected
import RuleFlow.Proofs.Network.Origins
import RuleFlow.Proofs.Network.Sharing

/-!
# How many joins are crosses

A join is a cross when its sides have no variable in common (`isCross_joinOf`). The work list
begins with a filter for each different pattern of a body, so it has the components of the body
(`componentCount_filters`). A join takes the first piece and one that meets it, if there is one
(`meets_partner`), and puts both into one piece. When they meet, this leaves the components as
they are; when the first piece meets none of the others, it is a component of its own, the join is
a cross and one component is gone (`componentCount_join`). At the end one piece is left, so there
is one cross less than there were components (`planBody_counted`), and each has its warning
(`exists_warnings`).

The counts are taken of the canonical form of a rule, whose patterns are alike to those of the
rule itself (`counts_canonicalRule`).
-/

namespace RuleFlow

namespace Network
open Canonical

/-! ## Pieces that meet -/

/-- Pieces meet when they share a variable. -/
lemma meets_iff {left right : Piece} : left.meets right = true ↔ Shares Piece.vars left right := by
  simp [Piece.meets, Shares, List.any_eq_true]

/-- The partner of a piece meets it when any piece does. -/
lemma meets_of_partner? {left right : Piece} {pieces others : List Piece}
    (h : partner? left pieces = some (right, others)) : left.meets right = true := by
  induction pieces generalizing others with
  | nil => exact nomatch h
  | cons p ps ih =>
    unfold partner? at h
    split at h
    · next hmeets =>
      obtain ⟨rfl, -⟩ := Prod.mk.inj (Option.some.inj h)
      exact hmeets
    · obtain ⟨⟨q, rest⟩, hq, e⟩ := Option.map_eq_some_iff.1 h
      obtain ⟨rfl, -⟩ := Prod.mk.inj e
      exact ih hq

lemma partner?_eq_none {left : Piece} {pieces : List Piece} (h : partner? left pieces = none) :
    ∀ p ∈ pieces, left.meets p = false := by
  induction pieces with
  | nil => exact List.forall_mem_nil _
  | cons p ps ih =>
    unfold partner? at h
    split at h
    · exact absurd h (Option.some_ne_none _)
    · next hmeets =>
      exact List.forall_mem_cons.2
        ⟨Bool.eq_false_iff.2 hmeets, ih (Option.map_eq_none_iff.1 h)⟩

/-- A piece meets its partner, or it meets none of the pieces. -/
theorem meets_partner (first next : Piece) (rest : List Piece) :
    first.meets (partner first next rest).1 = true ∨
    ∀ p ∈ next :: rest, first.meets p = false := by
  unfold partner
  cases h : partner? first (next :: rest) with
  | none => exact .inr (partner?_eq_none h)
  | some found => exact .inl (meets_of_partner? h)

/-- A join is a cross when its sides do not meet. -/
lemma isCross_joinOf (bound : ℕ) (window : Window) (d : Draft) (left right : Piece) :
    (joinOf bound window d left right).isCross = !left.meets right := by
  rw [Bool.eq_iff_iff, Bool.not_eq_true', ← Bool.not_eq_true, meets_iff]
  simp only [Join.isCross, joinOf, positions, List.all_map, List.all_eq_true, Function.comp_apply,
    Option.isNone_iff_eq_none, List.findIdx?_eq_none_iff, Shares, not_exists, not_and]
  simp only [beq_eq_false_iff_ne]
  exact forall₂_congr fun v _ => ⟨fun h hv => h v hv rfl, fun h w hw e => h (e ▸ hw)⟩

section
variable {bound : ℕ} {d : Draft} {work : List Piece}

/-- The variables of a piece are those of its patterns. -/
lemma Piece.Formed.mem_vars_iff {piece : Piece} (h : piece.Formed bound) {v : Variable} :
    v ∈ piece.vars ↔ ∃ p ∈ piece.patterns, v ∈ p.mentions := by
  rw [h.vars, mem_order_formOf_iff]

/-- The piece of a join has the patterns of both sides. -/
lemma patterns_join (window : Window) {left right : Piece} (hleft : left.Formed bound)
    (hright : right.Formed bound) :
    (d.join bound window left right).1.patterns = left.patterns ++ right.patterns := by
  rw [join_eq window hleft.clauses hright.clauses]
  exact filterMap_map_pattern _

/-- A join adds one operator, and one pair of names when it is a cross. -/
lemma operators_join (window : Window) {left right : Piece} (hleft : left.Formed bound)
    (hright : right.Formed bound) :
    (d.join bound window left right).2.operators =
      d.operators ++ [.join (joinOf bound window d left right)] ∧
    (d.join bound window left right).2.crossJoins.length =
      d.crossJoins.length + if left.meets right then 0 else 1 := by
  rw [join_eq window hleft.clauses hright.clauses]
  refine ⟨rfl, ?_⟩
  cases left.meets right <;> simp

/-- The pieces of filters have one pattern each. -/
lemma patterns_filters (d : Draft) (ps : List Pattern) :
    (d.filters ps).1.map Piece.patterns = ps.map ([·]) := by
  induction ps generalizing d with
  | nil => rfl
  | cons p ps ih =>
    show (d.filter p).1.patterns :: ((d.filter p).2.filters ps).1.map Piece.patterns = _
    rw [ih]
    rfl

/-- The pieces of filters are named by their patterns. -/
lemma named_filters (bound : ℕ) (d : Draft) (ps : List Pattern) :
    ∀ piece ∈ (d.filters ps).1, IsNamed piece.name (formOf bound piece.patterns).key := by
  induction ps generalizing d with
  | nil => exact List.forall_mem_nil _
  | cons p ps ih =>
    refine List.forall_mem_cons.2 ⟨?_, ih _⟩
    show IsNamed (d.filter p).1.name (formOf bound (d.filter p).1.patterns).key
    rw [filter_eq bound]
    exact isNamed_occurrenceName d.keys _

/-- Planning filters adds one for each pattern, no join and no warning. -/
lemma operators_filters (d : Draft) (ps : List Pattern) :
    (d.filters ps).2.operators.filterMap Operator.join? = d.operators.filterMap Operator.join? ∧
    ((d.filters ps).2.operators.filterMap Operator.filter?).length =
      (d.operators.filterMap Operator.filter?).length + ps.length ∧
    (d.filters ps).2.crossJoins = d.crossJoins := by
  induction ps generalizing d with
  | nil => exact ⟨rfl, rfl, rfl⟩
  | cons p ps ih =>
    obtain ⟨hjoins, hfilters, hcrosses⟩ := ih (d.filter p).2
    have hstep : (d.filter p).2.operators = d.operators ++ [.filter (filterOf d p)] := by
      rw [filter_eq 0]
    refine ⟨hjoins.trans ?_, hfilters.trans ?_, hcrosses⟩
    · rw [hstep, List.filterMap_append]
      exact List.append_nil _
    · rw [hstep, List.filterMap_append, List.length_append, List.length_cons, Nat.add_assoc,
        Nat.add_comm ps.length]
      rfl

/-- What holds of the numbers of operators and of components while the work list is reduced. -/
structure Counted (bound : ℕ) (ps : List Pattern) (d : Draft) (work : List Piece) : Prop
    extends Lined bound d work where
  /-- Each cross joins two components. -/
  components : componentCount Piece.vars work + d.crossJoins.length =
    componentCount Pattern.mentions ps
  /-- There is one filter for each pattern. -/
  filters : (d.operators.filterMap Operator.filter?).length = ps.length
  /-- Each join leaves one piece less. -/
  joins : (d.operators.filterMap Operator.join?).length + work.length = ps.length
  /-- The crosses are warned about. -/
  crosses : ((d.operators.filterMap Operator.join?).filter Join.isCross).length =
    d.crossJoins.length

/-- The filters of different patterns have the components of the patterns. -/
lemma componentCount_filters (bound : ℕ) {ps : List Pattern} (hps : ps.Nodup) :
    componentCount Piece.vars (Draft.filters {} ps).1 = componentCount Pattern.mentions ps := by
  have hlined : Lined bound (Draft.filters {} ps).2 (Draft.filters {} ps).1 :=
    (lined_empty bound).filters ps
  have hpatterns := patterns_filters {} ps
  have hmem : ∀ qs, qs ∈ (Draft.filters {} ps).1.map Piece.patterns ↔ ∃ p ∈ ps, [p] = qs := by
    intro qs
    rw [hpatterns, List.mem_map]
  have hvars : ∀ piece ∈ (Draft.filters {} ps).1, ∀ p, piece.patterns = [p] →
      ∀ v, v ∈ piece.vars ↔ v ∈ p.mentions := by
    intro piece hpiece p heq v
    rw [(hlined.formed piece hpiece).mem_vars_iff, heq]
    simp only [List.mem_singleton, exists_eq_left]
  -- different pieces have different patterns
  have hinj : ∀ a ∈ (Draft.filters {} ps).1, ∀ b ∈ (Draft.filters {} ps).1,
      a.patterns = b.patterns → a = b := by
    refine fun a ha b hb => List.inj_on_of_nodup_map ?_ ha hb
    rw [hpatterns]
    exact hps.map fun p q h => List.singleton_inj.1 h
  refine componentCount_eq_of_matching (fun piece p => piece.patterns = [p]) ?_ ?_ ?_ ?_
  · intro piece hpiece
    obtain ⟨p, hp, heq⟩ := (hmem _).1 (List.mem_map_of_mem hpiece)
    exact ⟨p, hp, heq.symm⟩
  · intro p hp
    obtain ⟨piece, hpiece, heq⟩ := List.mem_map.1 ((hmem [p]).2 ⟨p, hp, rfl⟩)
    exact ⟨piece, hpiece, heq⟩
  · rintro a ha b hb p - q - hap hbq
    constructor
    · rintro rfl
      exact List.singleton_inj.1 (hap.symm.trans hbq)
    · rintro rfl
      exact hinj a ha b hb (hap.trans hbq.symm)
  · rintro a ha b hb p - q - hap hbq
    simp only [Shares, hvars a ha p hap, hvars b hb q hbq]

/-- The filters are the first step. -/
lemma counted_filters (bound : ℕ) {ps : List Pattern} (hps : ps.Nodup) :
    Counted bound ps (Draft.filters {} ps).2 (Draft.filters {} ps).1 := by
  obtain ⟨hjoins, hfilters, hcrosses⟩ := operators_filters {} ps
  have hnone : ({} : Draft).operators = [] ∧ ({} : Draft).crossJoins = [] := ⟨rfl, rfl⟩
  refine
    { toLined := (lined_empty bound).filters ps, components := ?_, filters := ?_,
      joins := ?_, crosses := ?_ }
  · rw [hcrosses, componentCount_filters bound hps]
    rfl
  · rw [hfilters]
    exact Nat.zero_add _
  · rw [hjoins, length_filters]
    exact Nat.zero_add _
  · rw [hjoins, hcrosses]
    rfl

/-- A join leaves as many components when its sides meet, and else one less. -/
lemma componentCount_join (window : Window) {first next : Piece} {rest : List Piece}
    (h : Lined bound d (first :: next :: rest)) :
    let found := partner first next rest
    let joined := d.join bound window first found.1
    componentCount Piece.vars (found.2 ++ [joined.1]) +
        (if first.meets found.1 then 0 else 1) =
      componentCount Piece.vars (first :: next :: rest) := by
  intro found joined
  have hperm : (first :: found.1 :: found.2).Perm (first :: next :: rest) :=
    (perm_partner first next rest).cons first
  have hnodup : (first :: found.1 :: found.2).Nodup :=
    ((hperm.map Piece.name).nodup_iff.2 h.distinct).of_map
  obtain ⟨hfirst, hfound⟩ := List.nodup_cons.1 hnodup
  obtain ⟨hfound, -⟩ := List.nodup_cons.1 hfound
  have hlined : Lined bound joined.2 (found.2 ++ [joined.1]) := h.join window
  have hnew : joined.1 ∉ found.2 := by
    have hdistinct : (found.2 ++ [joined.1]).Nodup := hlined.distinct.of_map
    rw [← List.concat_eq_append, List.nodup_concat] at hdistinct
    exact hdistinct.1
  have hformed := h.formed first List.mem_cons_self
  have hformed' := h.formed found.1 (hperm.subset (by simp))
  have hjoined := hlined.formed joined.1 (by simp)
  have hvars : ∀ v, v ∈ joined.1.vars ↔ v ∈ first.vars ∨ v ∈ found.1.vars := by
    intro v
    rw [hjoined.mem_vars_iff, hformed.mem_vars_iff, hformed'.mem_vars_iff,
      show joined.1.patterns = _ from patterns_join window hformed hformed']
    simp only [List.mem_append, or_and_right, exists_or]
  have hwork : componentCount Piece.vars (first :: next :: rest) =
      componentCount Piece.vars (first :: found.1 :: found.2) :=
    componentCount_congr fun p => hperm.mem_iff.symm
  have hresult : componentCount Piece.vars (found.2 ++ [joined.1]) =
      componentCount Piece.vars (joined.1 :: found.2) :=
    componentCount_congr fun p => by simp [or_comm]
  rw [hwork, hresult]
  rcases meets_partner first next rest with hmeets | hnone
  · rw [if_pos hmeets, Nat.add_zero]
    exact (componentCount_merge (fun hmem => hfirst (List.mem_cons_of_mem _ hmem)) hfound hnew
      hvars (meets_iff.1 hmeets)).symm
  · -- the first piece meets none of the others
    have hfree : ∀ p ∈ found.1 :: found.2, ¬ Shares Piece.vars first p := by
      intro p hp
      have hmem : p ∈ next :: rest := (perm_partner first next rest).subset hp
      rw [← meets_iff, hnone p hmem]
      exact Bool.false_ne_true
    rw [if_neg (mt meets_iff.1 (hfree found.1 List.mem_cons_self))]
    exact (componentCount_absorb hfirst hfound hnew hvars hfree).symm

/-- Joining the first piece with its partner keeps the numbers. -/
lemma Counted.join {ps : List Pattern} (window : Window) {first next : Piece} {rest : List Piece}
    (h : Counted bound ps d (first :: next :: rest)) :
    let found := partner first next rest
    let joined := d.join bound window first found.1
    Counted bound ps joined.2 (found.2 ++ [joined.1]) := by
  intro found joined
  have hcomponents : componentCount Piece.vars (found.2 ++ [joined.1]) +
      (if first.meets found.1 then 0 else 1) = componentCount Piece.vars (first :: next :: rest) :=
    componentCount_join window h.toLined
  have hmem : found.1 ∈ first :: next :: rest :=
    List.mem_cons_of_mem first ((perm_partner first next rest).subset List.mem_cons_self)
  obtain ⟨hops, hcrosses⟩ := operators_join (d := d) window
    (h.formed first List.mem_cons_self) (h.formed found.1 hmem)
  change joined.2.operators = _ at hops
  change joined.2.crossJoins.length = _ at hcrosses
  have hjoins : joined.2.operators.filterMap Operator.join? =
      d.operators.filterMap Operator.join? ++ [joinOf bound window d first found.1] := by
    rw [hops, List.filterMap_append]
    rfl
  refine
    { toLined := h.toLined.join window, components := ?_, filters := ?_, joins := ?_,
      crosses := ?_ }
  · rw [hcrosses, ← h.components, ← hcomponents]
    omega
  · rw [hops, List.filterMap_append, ← h.filters]
    exact congrArg List.length (List.append_nil _)
  · have hlength : found.2.length = rest.length := length_partner first next rest
    rw [hjoins, ← h.joins]
    simp only [List.length_append, List.length_cons, List.length_nil, hlength]
    omega
  · rw [hjoins, List.filter_append, List.length_append, h.crosses, hcrosses, List.filter_cons,
      isCross_joinOf]
    cases first.meets found.1 <;> rfl

/-- The numbers of operators in a plan for patterns. -/
structure Plan.Counted (plan : Plan) (ps : List Pattern) : Prop where
  /-- There is one filter for each pattern. -/
  filters : (plan.operators.filterMap Operator.filter?).length = ps.eraseDups.length
  /-- There is one join less. -/
  joins : (plan.operators.filterMap Operator.join?).length + 1 = ps.eraseDups.length
  /-- The crosses are warned about. -/
  crosses : ((plan.operators.filterMap Operator.join?).filter Join.isCross).length =
    plan.crossJoins.length
  /-- There is one cross less than there are components. -/
  components : plan.crossJoins.length + 1 = componentCount Pattern.mentions ps

/-- Every plan has these numbers. -/
theorem planBody_counted {window : Window} {ps : List Pattern} {plan : Plan}
    (h : planBody bound window ps = some plan) : plan.Counted ps := by
  obtain ⟨first, rest, hwork, rfl⟩ := planBody_cases h
  have hfilters := counted_filters bound (nodup_eraseDups ps)
  rw [hwork] at hfilters
  have hlast := reduce_induction (fun _ _ _ _ h => h.join window) hfilters
  refine ⟨hlast.filters, hlast.joins, hlast.crosses, ?_⟩
  have hall : componentCount Pattern.mentions ps.eraseDups = componentCount Pattern.mentions ps :=
    componentCount_congr fun p => List.mem_eraseDups
  rw [← hall, ← hlast.components, componentCount_singleton, Nat.add_comm]

end

end Network

/-- The number of different patterns in the body. -/
def Rule.patternCount (r : Rule) : ℕ := r.bodyPatterns.eraseDups.length

/-- The number of connected components of the patterns in the body. -/
noncomputable def Rule.componentCount (r : Rule) : ℕ :=
  RuleFlow.componentCount Pattern.mentions r.bodyPatterns

namespace Network
open Canonical

/-! ## Rules -/

section
variable {options : CompileOptions} {rules : List Rule} {n : Network}

/-- What counts for a rule counts for its canonical form. -/
lemma counts_canonicalRule (bound : ℕ) (r : Rule) :
    (canonicalRule bound r).patternCount = r.patternCount ∧
    (canonicalRule bound r).componentCount = r.componentCount := by
  have halike : Alike r.bodyPatterns (canonicalRule bound r).bodyPatterns.eraseDups :=
    alike_bodyPatterns (.refl _)
  have hdistinct : Alike r.bodyPatterns.eraseDups (canonicalRule bound r).bodyPatterns.eraseDups :=
    (Alike.of_mem_iff fun _ => List.mem_eraseDups.symm).trans halike
  obtain ⟨σ, -, hperm⟩ := hdistinct.exists_perm (nodup_eraseDups _) (nodup_eraseDups _)
  constructor
  · rw [Rule.patternCount, Rule.patternCount, ← hperm.length_eq, List.length_map]
  · rw [Rule.componentCount, Rule.componentCount, halike.componentCount_eq]
    exact componentCount_congr fun p => List.mem_eraseDups.symm

/-- The numbers of operators in the plan of a rule. -/
theorem planRule_counts {name : String} {r : Rule} {p : RulePlan}
    (h : planRule options name r = .ok p) :
    (p.plan.operators.filterMap Operator.filter?).length = r.patternCount ∧
    (p.plan.operators.filterMap Operator.join?).length + 1 = r.patternCount ∧
    ((p.plan.operators.filterMap Operator.join?).filter Join.isCross).length + 1 =
      r.componentCount ∧
    p.plan.crossJoins.length + 1 = r.componentCount := by
  obtain ⟨-, hrule, hbody, -⟩ := planRule_cases h
  obtain ⟨hpatterns, hcomponents⟩ := counts_canonicalRule (boundFor options.searchBound) r
  have hcounted := planBody_counted hbody
  have hcrosses : p.plan.crossJoins.length + 1 = r.componentCount := by
    rw [← hcomponents, ← hrule]
    exact hcounted.components
  rw [← hpatterns, ← hrule]
  exact ⟨hcounted.filters, hcounted.joins, hcounted.crosses ▸ hcrosses, hcrosses⟩

/-- A report names the compiled rules and has the warnings about them, plan by plan. -/
lemma report_of_compile (h : compile options rules = .ok n) :
    n.report.compiled = (compiledRules rules).map (·.1) ∧
    n.report.warnings = ((plansOf options rules).map (·.warnings)).flatten := by
  obtain ⟨-, -, -, -, hreport⟩ := compile_cases h
  obtain ⟨hnames, -⟩ := plans_of_compiledRules options rules
  rw [hreport]
  exact ⟨hnames, List.flatMap_def⟩

/-- What a report says of a compiled rule: some builtins that cannot run, and one cross less than
the body has components. -/
def WarnsOf (x : String × Rule) (ws : List Warning) : Prop :=
  ∃ (builtins : List String) (crosses : List (String × String)),
    ws = builtins.map (.unsupportedBuiltin x.1) ++
      crosses.map (fun c => .crossJoin x.1 c.1 c.2) ∧
    crosses.length + 1 = x.2.componentCount

/-- The warnings come rule by rule. -/
theorem exists_warnings (h : compile options rules = .ok n) :
    ∃ wss, n.report.warnings = wss.flatten ∧
      List.Forall₂ WarnsOf (compiledRules rules) wss := by
  obtain ⟨-, hplans⟩ := plans_of_compiledRules options rules
  refine ⟨_, (report_of_compile h).2, List.forall₂_map_right_iff.2 (hplans.imp ?_)⟩
  intro x p hp
  obtain ⟨-, -, -, builtins, hwarnings⟩ := planRule_cases hp
  obtain ⟨-, -, -, hcrosses⟩ := planRule_counts hp
  exact ⟨builtins, p.plan.crossJoins, hwarnings, hcrosses⟩

/-- The numbers of operators in the network of one rule. -/
theorem counts_of_singleton {x : String × Rule} (hx : x ∈ compiledRules rules)
    (h : compile options [x.2] = .ok n) :
    n.filters.length = x.2.patternCount ∧ n.joins.length + 1 = x.2.patternCount ∧
    (n.joins.filter Join.isCross).length + 1 = x.2.componentCount := by
  obtain ⟨p, hp⟩ := (exists_planRule_iff options x.1 x.2).2 (List.mem_filter.1 hx).2
  obtain ⟨t, hops⟩ := operators_of_singleton h hp
  obtain ⟨hfilters, hjoins, hcrosses, -⟩ := planRule_counts hp
  have hf : n.filters = p.plan.operators.filterMap Operator.filter? := by
    simp [filters, hops, List.filterMap_cons, Operator.filter?]
  have hj : n.joins = p.plan.operators.filterMap Operator.join? := by
    simp [joins, hops, List.filterMap_cons, Operator.join?]
  rw [hf, hj]
  exact ⟨hfilters, hjoins, hcrosses⟩

end

end Network
end RuleFlow
