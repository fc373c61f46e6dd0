import RuleFlow.Proofs.Network.Crossings

/-!
# Crosses before a terminal

A piece of the work list is connected, or it holds a whole component of the body beside other
patterns (`Torn`), which no later join mends. So a join of connected patterns is not a cross and
its sides are connected as well (`Divides`, `planBody_divides`).

Rules share operators by name, and the join that stands before a terminal may be one that another
rule brought, with other sides. But a name has one key, and patterns with one key are alike, so
patterns with the name of connected ones are connected (`Divides.namesConnected`). From an operator
with such a name all ways back lead through operators with such names, whoever planned them
(`NamesConnected.of_draws`), and hence through no crosses (`compile_counts`).

The last step is one about rules as they are written: only their names and terms cannot be mistaken
for one another in a key.
-/

namespace RuleFlow

namespace Network
open Canonical

/-! ## Parts of a body -/

/-- Some of the patterns `qs` have no variable in common with the other patterns of the body, and
others are left. -/
def Torn (body qs : List Pattern) : Prop :=
  ∃ P : Pattern → Prop, (∃ q ∈ qs, P q) ∧ (∃ q ∈ qs, ¬ P q) ∧
    ∀ p ∈ body, ∀ q ∈ body, Shares Pattern.mentions p q → P p → P q

/-- Patterns that are torn stay so when there are more of them. -/
lemma Torn.mono {body qs qs' : List Pattern} (h : Torn body qs) (hsub : ∀ q ∈ qs, q ∈ qs') :
    Torn body qs' := by
  obtain ⟨P, ⟨p, hp, hP⟩, ⟨q, hq, hnot⟩, hclosed⟩ := h
  exact ⟨P, ⟨p, hsub p hp, hP⟩, ⟨q, hsub q hq, hnot⟩, hclosed⟩

/-- What is torn apart within the body is not connected. -/
lemma Torn.not_connected {body qs : List Pattern} (h : Torn body qs) (hsub : ∀ q ∈ qs, q ∈ body) :
    ¬ Connected Pattern.mentions qs := by
  obtain ⟨P, ⟨p, hp, hP⟩, ⟨q, hq, hnot⟩, hclosed⟩ := h
  intro hconnected
  exact hnot (hconnected P (fun a ha b hb => hclosed a (hsub a ha) b (hsub b hb)) p hp hP q hq)

/-- The names of a join are keys of patterns of the body, perhaps with numbers, and a join of
connected patterns joins connected patterns on variables. -/
structure Divides (bound : ℕ) (body : List Pattern) (j : Join) (left right : List Pattern) :
    Prop where
  /-- There are patterns on the left. -/
  left_ne_nil : left ≠ []
  /-- There are patterns on the right. -/
  right_ne_nil : right ≠ []
  /-- They are patterns of the body. -/
  subset : ∀ p ∈ left ++ right, p ∈ body
  /-- The join is named by all the patterns. -/
  named : IsNamed j.name (formOf bound (left ++ right)).key
  /-- The left side is named by those on the left. -/
  named_left : IsNamed j.left (formOf bound left).key
  /-- The right side is named by those on the right. -/
  named_right : IsNamed j.right (formOf bound right).key
  /-- Connected patterns are joined from connected patterns. -/
  connected : Connected Pattern.mentions (left ++ right) → j.isCross = false ∧
    Connected Pattern.mentions left ∧ Connected Pattern.mentions right

section
variable {bound : ℕ} {body : List Pattern} {d : Draft} {work : List Piece}

/-- What holds of the pieces that are left to be joined and of the joins planned so far. -/
structure Divided (bound : ℕ) (body : List Pattern) (d : Draft) (work : List Piece) : Prop
    extends Lined bound d work where
  /-- The pieces have the patterns of the body. -/
  perm : (work.flatMap Piece.patterns).Perm body
  /-- They are named by their patterns. -/
  keyed : ∀ piece ∈ work, IsNamed piece.name (formOf bound piece.patterns).key
  /-- They are connected, or else torn for good. -/
  whole : ∀ piece ∈ work, Connected Pattern.mentions piece.patterns ∨ Torn body piece.patterns
  /-- The joins divide the patterns. -/
  joins : ∀ j, .join j ∈ d.operators → ∃ left right, Divides bound body j left right

/-- The filters of different patterns are the first step. -/
lemma divided_filters (bound : ℕ) (ps : List Pattern) :
    Divided bound ps (Draft.filters {} ps).2 (Draft.filters {} ps).1 := by
  have hpatterns := patterns_filters {} ps
  obtain ⟨hjoins, -, -⟩ := operators_filters {} ps
  refine
    { toLined := (lined_empty bound).filters ps, perm := ?_, keyed := ?_, whole := ?_,
      joins := fun j hj => ?_ }
  · rw [List.flatMap_def, hpatterns, ← List.flatMap_def, List.flatMap_singleton']
  · exact named_filters bound {} ps
  · intro piece hpiece
    obtain ⟨p, -, heq⟩ := List.mem_map.1 (hpatterns ▸ List.mem_map_of_mem hpiece)
    rw [← heq]
    exact .inl (componentCount_eq_one_iff.1 (componentCount_singleton p)).2
  · have hmem : j ∈ (Draft.filters {} ps).2.operators.filterMap Operator.join? :=
      List.mem_filterMap.2 ⟨_, hj, rfl⟩
    rw [hjoins] at hmem
    exact absurd hmem List.not_mem_nil

section
variable {first next : Piece} {rest : List Piece}

/-- The first piece meets those pieces with whose patterns its own share variables. -/
lemma Divided.meets_of_shares (h : Divided bound body d (first :: rest)) {piece : Piece}
    (hpiece : piece ∈ first :: rest) {p q : Pattern} (hp : p ∈ first.patterns)
    (hq : q ∈ piece.patterns) (hshares : Shares Pattern.mentions p q) :
    first.meets piece = true := by
  obtain ⟨v, hv, hv'⟩ := hshares
  exact meets_iff.2 ⟨v, (h.formed first List.mem_cons_self).mem_vars_iff.2 ⟨p, hp, hv⟩,
    (h.formed piece hpiece).mem_vars_iff.2 ⟨q, hq, hv'⟩⟩

/-- The first piece and its partner have different patterns of the body. -/
lemma Divided.perm_partner (h : Divided bound body d (first :: next :: rest)) :
    let found := partner first next rest
    (first.patterns ++ found.1.patterns ++ found.2.flatMap Piece.patterns).Perm body := by
  intro found
  have hperm : (first :: found.1 :: found.2).Perm (first :: next :: rest) :=
    (Network.perm_partner first next rest).cons first
  rw [List.append_assoc]
  exact (hperm.flatMap_right Piece.patterns).trans h.perm

/-- No pattern is on both sides of a join. -/
lemma Divided.notMem_first (hbody : body.Nodup) (h : Divided bound body d (first :: next :: rest)) :
    ∀ q ∈ (partner first next rest).1.patterns, q ∉ first.patterns := by
  intro q hq hq'
  have hnodup := h.perm_partner.nodup_iff.2 hbody
  exact (List.nodup_append.1 (List.nodup_append.1 hnodup).1).2.2 q hq' q hq rfl

/-- The patterns of both sides of a join are connected, or torn for good. -/
lemma Divided.whole_join (hbody : body.Nodup)
    (h : Divided bound body d (first :: next :: rest)) :
    let found := partner first next rest
    Connected Pattern.mentions (first.patterns ++ found.1.patterns) ∨
      Torn body (first.patterns ++ found.1.patterns) := by
  intro found
  have hmem : found.1 ∈ next :: rest :=
    (Network.perm_partner first next rest).subset List.mem_cons_self
  have hfirst := h.formed first List.mem_cons_self
  have hfound := h.formed found.1 (List.mem_cons_of_mem first hmem)
  rcases meets_partner first next rest with hmeets | hnone
  · rcases h.whole first List.mem_cons_self with hleft | htorn
    · rcases h.whole found.1 (List.mem_cons_of_mem first hmem) with hright | htorn
      · obtain ⟨v, hv, hv'⟩ := meets_iff.1 hmeets
        obtain ⟨p, hp, hpv⟩ := hfirst.mem_vars_iff.1 hv
        obtain ⟨q, hq, hqv⟩ := hfound.mem_vars_iff.1 hv'
        exact .inl (hleft.append hright ⟨p, hp, q, hq, v, hpv, hqv⟩)
      · exact .inr (htorn.mono fun q => List.mem_append_right _)
    · exact .inr (htorn.mono fun q => List.mem_append_left _)
  · -- the patterns of the first piece share no variable with any others of the body
    obtain ⟨p, hp⟩ := List.exists_mem_of_ne_nil _ hfirst.ne_nil
    obtain ⟨q, hq⟩ := List.exists_mem_of_ne_nil _ hfound.ne_nil
    refine .inr ⟨(· ∈ first.patterns), ⟨p, List.mem_append_left _ hp, hp⟩,
      ⟨q, List.mem_append_right _ hq, h.notMem_first hbody q hq⟩, ?_⟩
    intro a _ b hb hshares ha
    obtain ⟨piece, hpiece, hb⟩ := List.mem_flatMap.1 (h.perm.mem_iff.2 hb)
    rcases List.mem_cons.1 hpiece with rfl | hrest
    · exact hb
    · have hmeets := h.meets_of_shares hpiece ha hb hshares
      rw [hnone piece hrest] at hmeets
      exact nomatch hmeets

/-- The join of the first piece with its partner divides the patterns of both. -/
lemma Divided.divides (window : Window) (hbody : body.Nodup)
    (h : Divided bound body d (first :: next :: rest)) :
    let found := partner first next rest
    Divides bound body (joinOf bound window d first found.1) first.patterns found.1.patterns := by
  intro found
  have hmem : found.1 ∈ first :: next :: rest :=
    List.mem_cons_of_mem first ((Network.perm_partner first next rest).subset List.mem_cons_self)
  have hfirst := h.formed first List.mem_cons_self
  have hfound := h.formed found.1 hmem
  have hsub : ∀ p ∈ first.patterns ++ found.1.patterns, p ∈ body := fun p hp =>
    h.perm_partner.subset (List.mem_append_left _ hp)
  refine ⟨hfirst.ne_nil, hfound.ne_nil, hsub, isNamed_occurrenceName d.keys _,
    h.keyed first List.mem_cons_self, h.keyed found.1 hmem, fun hconnected => ⟨?_, ?_, ?_⟩⟩
  · -- a property of the patterns on the left gets to the right somewhere
    rw [isCross_joinOf, Bool.not_eq_false']
    by_contra hnot
    obtain ⟨p, hp⟩ := List.exists_mem_of_ne_nil _ hfirst.ne_nil
    obtain ⟨q, hq⟩ := List.exists_mem_of_ne_nil _ hfound.ne_nil
    refine h.notMem_first hbody q hq (hconnected (· ∈ first.patterns) ?_ p
      (List.mem_append_left _ hp) hp q (List.mem_append_right _ hq))
    intro a _ b hb hshares ha
    refine (List.mem_append.1 hb).resolve_right fun hb => hnot ?_
    exact h.meets_of_shares hmem ha hb hshares
  · refine (h.whole first List.mem_cons_self).resolve_right fun htorn => ?_
    exact (htorn.mono fun q => List.mem_append_left _).not_connected hsub hconnected
  · refine (h.whole found.1 hmem).resolve_right fun htorn => ?_
    exact (htorn.mono fun q => List.mem_append_right _).not_connected hsub hconnected

/-- Joining the first piece with its partner divides the patterns of both. -/
lemma Divided.join (window : Window) (hbody : body.Nodup)
    (h : Divided bound body d (first :: next :: rest)) :
    let found := partner first next rest
    let joined := d.join bound window first found.1
    Divided bound body joined.2 (found.2 ++ [joined.1]) := by
  intro found joined
  have hmem : ∀ piece ∈ found.1 :: found.2, piece ∈ first :: next :: rest := fun piece hpiece =>
    List.mem_cons_of_mem first ((Network.perm_partner first next rest).subset hpiece)
  have hfirst := h.formed first List.mem_cons_self
  have hfound := h.formed found.1 (hmem _ List.mem_cons_self)
  have hpatterns : joined.1.patterns = first.patterns ++ found.1.patterns :=
    patterns_join window hfirst hfound
  have hname : joined.1.name =
      occurrenceName d.keys (formOf bound (first.patterns ++ found.1.patterns)).key := by
    rw [show joined = _ from join_eq window hfirst.clauses hfound.clauses]
  obtain ⟨hops, -⟩ := operators_join (d := d) window hfirst hfound
  refine
    { toLined := h.toLined.join window, perm := ?_, keyed := ?_, whole := ?_, joins := ?_ }
  · rw [List.flatMap_append, List.flatMap_singleton, hpatterns]
    exact List.perm_append_comm.trans h.perm_partner
  · refine List.forall_mem_append.2 ⟨fun piece hpiece => ?_, List.forall_mem_singleton.2 ?_⟩
    · exact h.keyed piece (hmem _ (List.mem_cons_of_mem _ hpiece))
    · rw [hname, hpatterns]
      exact isNamed_occurrenceName d.keys _
  · refine List.forall_mem_append.2 ⟨fun piece hpiece => ?_, List.forall_mem_singleton.2 ?_⟩
    · exact h.whole piece (hmem _ (List.mem_cons_of_mem _ hpiece))
    · rw [hpatterns]
      exact h.whole_join hbody
  · intro j hj
    rw [show joined.2.operators = _ from hops] at hj
    rcases List.mem_append.1 hj with hj | hj
    · exact h.joins j hj
    · obtain rfl := Operator.join.inj (List.mem_singleton.1 hj)
      exact ⟨_, _, h.divides window hbody⟩

end

/-- Every join of a plan divides patterns of the body. -/
theorem planBody_divides {window : Window} {ps : List Pattern} {plan : Plan}
    (h : planBody bound window ps = some plan) :
    ∀ j, .join j ∈ plan.operators → ∃ left right, Divides bound ps.eraseDups j left right := by
  obtain ⟨first, rest, hwork, rfl⟩ := planBody_cases h
  have hfilters := divided_filters bound ps.eraseDups
  rw [hwork] at hfilters
  exact (reduce_induction (fun _ _ _ _ h => h.join window (nodup_eraseDups ps)) hfilters).joins

end

/-! ## Names of connected patterns -/

/-- The name is the key of connected patterns, perhaps with a number. -/
def NamesConnected (bound : ℕ) (name : String) : Prop :=
  ∃ ps : List Pattern, (∀ p ∈ ps, p.Legible) ∧ ps ≠ [] ∧ Connected Pattern.mentions ps ∧
    IsNamed name (formOf bound ps).key

/-- A join with the name of connected patterns is none of the crosses, and its sides have names of
connected patterns as well, whoever planned it. -/
theorem Divides.namesConnected {bound : ℕ} {body left right : List Pattern} {j : Join}
    (h : Divides bound body j left right) (hbody : ∀ p ∈ body, p.Legible)
    (hname : NamesConnected bound j.name) :
    j.isCross = false ∧ NamesConnected bound j.left ∧ NamesConnected bound j.right := by
  obtain ⟨ps, hps, hne, hconnected, hnamed⟩ := hname
  have hlegible : ∀ p ∈ left ++ right, p.Legible := fun p hp => hbody p (h.subset p hp)
  have hsides : left ++ right ≠ [] := List.append_ne_nil_of_left_ne_nil h.left_ne_nil right
  -- the name has one key, and patterns with one key are alike
  have hkey : (formOf bound ps).key = (formOf bound (left ++ right)).key :=
    hnamed.unique h.named (isClosed_key bound hne) (isClosed_key bound hsides)
  have hone : componentCount Pattern.mentions (left ++ right) = 1 := by
    rw [← (alike_of_key_eq hps hlegible hkey).componentCount_eq]
    exact componentCount_eq_one_iff.2 ⟨hne, hconnected⟩
  obtain ⟨hcross, hleft, hright⟩ := h.connected (componentCount_eq_one_iff.1 hone).2
  obtain ⟨hlegibleLeft, hlegibleRight⟩ := List.forall_mem_append.1 hlegible
  exact ⟨hcross, ⟨left, hlegibleLeft, h.left_ne_nil, hleft, h.named_left⟩,
    ⟨right, hlegibleRight, h.right_ne_nil, hright, h.named_right⟩⟩

/-- A join with the first name takes its tuples from the operator of the second name. -/
def Draws (n : Network) (name side : String) : Prop :=
  ∃ j ∈ n.joins, j.name = name ∧ (Operator.join j).Takes side

section
variable {options : CompileOptions} {rules : List Rule} {n : Network}

/-- Every join of a network was planned for a rule whose patterns it divides. -/
lemma exists_divides (hrules : ∀ r ∈ rules, r.Legible) (h : compile options rules = .ok n)
    {j : Join} (hj : j ∈ n.joins) : ∃ body left right, (∀ p ∈ body, p.Legible) ∧
      Divides (boundFor options.searchBound) body j left right := by
  obtain ⟨p, hp, hmem⟩ := (compile_gathers h).planned _ (mem_joins_iff.1 hj) rfl
  obtain ⟨name, r, hr, hplan⟩ := exists_planRule_of_mem_plansOf hp
  obtain ⟨-, hrule, hbody, -⟩ := planRule_cases hplan
  obtain ⟨left, right, hdivides⟩ := planBody_divides hbody j hmem
  refine ⟨_, left, right, fun q hq => ?_, hdivides⟩
  rw [hrule] at hq
  exact legible_bodyPatterns (hrules r (of_mem_named hr).1) q (List.mem_eraseDups.1 hq)

/-- What stands before an operator with the name of connected patterns has such a name too. -/
lemma NamesConnected.of_draws (hrules : ∀ r ∈ rules, r.Legible)
    (h : compile options rules = .ok n) {name before : String}
    (hname : NamesConnected (boundFor options.searchBound) name)
    (hway : Relation.ReflTransGen n.Draws name before) :
    NamesConnected (boundFor options.searchBound) before := by
  induction hway with
  | refl => exact hname
  | tail _ hstep ih =>
    obtain ⟨j, hj, rfl, htakes⟩ := hstep
    obtain ⟨body, left, right, hbody, hdivides⟩ := exists_divides hrules h hj
    obtain ⟨-, hleft, hright⟩ := hdivides.namesConnected hbody ih
    rcases htakes with rfl | rfl
    · exact hleft
    · exact hright

/-- Before an operator with the name of connected patterns there are no crosses. -/
theorem isCross_of_draws (hrules : ∀ r ∈ rules, r.Legible) (h : compile options rules = .ok n)
    {name : String} (hname : NamesConnected (boundFor options.searchBound) name) {j : Join}
    (hj : j ∈ n.joins) (hway : Relation.ReflTransGen n.Draws name j.name) : j.isCross = false := by
  obtain ⟨body, left, right, hbody, hdivides⟩ := exists_divides hrules h hj
  exact (hdivides.namesConnected hbody (hname.of_draws hrules h hway)).1

/-- The terminal of a rule whose body is connected takes the tuples of an operator with the name of
connected patterns. -/
lemma namesConnected_prior {name : String} {r : Rule} {p : RulePlan} {t : Terminal}
    (hr : r.Legible) (hp : planRule options name r = .ok p) (ht : Ends p t)
    (hone : r.componentCount = 1) : NamesConnected (boundFor options.searchBound) t.prior := by
  obtain ⟨qs, -, hqs, halike, hprior⟩ := exists_key_eq_prior hr hp ht
  rw [Rule.componentCount, halike.componentCount_eq] at hone
  obtain ⟨hne, hconnected⟩ := componentCount_eq_one_iff.1 hone
  exact ⟨qs, hqs, hne, hconnected, "", by rw [hprior, String.append_empty], by simp⟩

/-- Of every compiled rule the report has one cross less than the body has components. Compiled
alone the rule has a filter for each different pattern of its body, one join less, and as many
crosses among the joins as there are warnings. When the rules were read and the body of a rule is
connected there is no cross before its terminal. -/
theorem compile_counts (h : compile options rules = .ok n) :
    n.report.compiled = (compiledRules rules).map (·.1) ∧
    (∃ wss, n.report.warnings = wss.flatten ∧ List.Forall₂ WarnsOf (compiledRules rules) wss) ∧
    (∀ x ∈ compiledRules rules, ∀ m, compile options [x.2] = .ok m →
      m.filters.length = x.2.patternCount ∧ m.joins.length + 1 = x.2.patternCount ∧
      (m.joins.filter Join.isCross).length + 1 = x.2.componentCount) ∧
    (∀ text ps, Reader.document .standard text = (ps, .ok rules) →
      List.Forall₂ (fun x t => t.rule = x.1 ∧ (x.2.componentCount = 1 → ∀ j ∈ n.joins,
        Relation.ReflTransGen n.Draws t.prior j.name → j.isCross = false))
        (compiledRules rules) n.terminals) := by
  refine ⟨(report_of_compile h).1, exists_warnings h, fun x hx m hm => counts_of_singleton hx hm,
    fun text ps hread => ?_⟩
  have hrules := (Reader.legible_of_document Prefixes.legible_standard hread).2
  obtain ⟨-, -, hall⟩ := compile_spec hrules h
  have hlegible : ∀ x ∈ compiledRules rules, x.2.Legible :=
    fun x hx => hrules _ (mem_of_mem_compiledRules hx)
  refine ((List.forall₂_and_left _ _).2 ⟨hlegible, hall⟩).imp ?_
  rintro x t ⟨hx, p, hp, -, hends⟩
  refine ⟨hends.rule.trans (planRule_spec hx hp).1, fun hone j hj hway => ?_⟩
  exact isCross_of_draws hrules h (namesConnected_prior hx hp hends hone) hj hway

/-- A cross of two filters does not stand before the join of a connected body that takes one of
them. -/
theorem compile_counts_of_two_components :
    let text := "[(?x <p> ?y) (?u <r> ?v) ->] [(?a <p> ?b) (?b <q> ?c) -> (?a <q> ?c)]"
    let edge (s p o : String) : Pattern := ⟨.var ⟨s⟩, .iri p, .var ⟨o⟩⟩
    let apart : Rule := ⟨none, [.pattern (edge "x" "p" "y"), .pattern (edge "u" "r" "v")], []⟩
    let path : Rule := ⟨none, [.pattern (edge "a" "p" "b"), .pattern (edge "b" "q" "c")],
      [.pattern (edge "a" "q" "c")]⟩
    Reader.document .standard text = (.standard, .ok [apart, path]) ∧
    apart.componentCount = 2 ∧ path.componentCount = 1 ∧
    ∃ n m, compile {} [apart, path] = .ok n ∧ compile {} [apart] = .ok m ∧
      n.report.warnings = [.crossJoin "rule_1" "(?0 <p> ?1)" "(?0 <r> ?1)"] ∧
      m.filters.length = 2 ∧ m.joins.length = 1 ∧ (m.joins.filter Join.isCross).length = 1 ∧
      ∃ t ∈ n.terminals, t.rule = "rule_2" ∧ ∀ j ∈ n.joins,
        Relation.ReflTransGen n.Draws t.prior j.name → j.isCross = false := by
  intro text edge apart path
  have hread : Reader.document .standard text = (.standard, .ok [apart, path]) := by
    decide +kernel
  have hapart : apart.componentCount = 2 := by
    have hfree : ∀ p ∈ [edge "u" "r" "v"], ¬ Shares Pattern.mentions (edge "x" "p" "y") p := by
      decide
    exact (componentCount_cons (by decide) hfree).trans
      (congrArg (· + 1) (componentCount_singleton _))
  have hpath : path.componentCount = 1 := by
    have hone : ∀ p : Pattern, Connected Pattern.mentions [p] := fun p =>
      (componentCount_eq_one_iff.1 (componentCount_singleton p)).2
    refine componentCount_eq_one_iff.2 ⟨nofun, ?_⟩
    exact (hone (edge "a" "p" "b")).append (hone (edge "b" "q" "c")) (by decide)
  refine ⟨hread, hapart, hpath, ?_⟩
  have hrun : (compile {} [apart, path]).map (fun n => n.report.warnings) =
      .ok [.crossJoin "rule_1" "(?0 <p> ?1)" "(?0 <r> ?1)"] := by decide +kernel
  have halone : (compile {} [apart]).isOk = true := by decide +kernel
  have hrules : compiledRules [apart, path] = [("rule_1", apart), ("rule_2", path)] := by
    decide +kernel
  cases hcompile : compile {} [apart, path] with
  | error e => rw [hcompile] at hrun; exact nomatch hrun
  | ok n =>
    cases hsingle : compile {} [apart] with
    | error e => rw [hsingle] at halone; exact nomatch halone
    | ok m =>
      rw [hcompile] at hrun
      obtain ⟨-, -, hcounts, hconnected⟩ := compile_counts hcompile
      obtain ⟨hfilters, hjoins, hcrosses⟩ :=
        hcounts ("rule_1", apart) (hrules ▸ List.mem_cons_self) m hsingle
      have htwo : apart.patternCount = 2 := by decide
      rw [htwo] at hfilters hjoins
      rw [hapart] at hcrosses
      refine ⟨n, m, rfl, rfl, Except.ok.inj hrun, hfilters, Nat.succ.inj hjoins,
        Nat.succ.inj hcrosses, ?_⟩
      have hterminals := hconnected text _ hread
      rw [hrules] at hterminals
      obtain ⟨u, ts, -, hrest, hts⟩ := List.forall₂_cons_left_iff.1 hterminals
      obtain ⟨t, _, ⟨hname, hbefore⟩, -, rfl⟩ := List.forall₂_cons_left_iff.1 hrest
      exact ⟨t, hts ▸ List.mem_cons_of_mem _ List.mem_cons_self, hname, hbefore hpath⟩

end

end Network
end RuleFlow
