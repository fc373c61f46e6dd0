import RuleFlow.Network.Compile
import RuleFlow.Proofs.Network.Planning
import RuleFlow.Proofs.Network.Positions
import RuleFlow.Proofs.Network.Registry

/-!
# Networks are built in layers

An operator is linked to others when these give out what it takes: a join has its two sides
among them, and its positions fit the tuples of the sides; a terminal has its prior
(`Linked`). Operators are layered when each is linked to those before it.

What is planned for a body is layered (`Lined`, which is kept while the work list is reduced).
When a planned operator is adopted, the registry may have another one of its name, but always
one of the same kind and with as many variables, so the registry is layered as well
(`Layered.adoptAll`). Nothing here depends on how rules are written: it holds for all rules,
also for those that no text is read as.

Every join and every terminal of a compiled network is therefore linked to operators before it
(`compile_linked`).
-/

namespace RuleFlow

namespace Network
open Canonical

/-! ## Linked operators -/

/-- A filter or a join among the operators gives out tuples of `n` values under the name. -/
def Supplies (ops : List Operator) (name : String) (n : ℕ) : Prop :=
  ∃ op ∈ ops, op.kind.isShared = true ∧ op.name = name ∧ op.arity = n

/-- What the operator takes its tuples from is among the others, and its positions fit. -/
def Linked (others : List Operator) : Operator → Prop
  | .join j => ∃ m n, Supplies others j.left m ∧ Supplies others j.right n ∧
      j.left ≠ j.right ∧ j.Fits m n
  | .terminal t => Supplies others t.prior t.vars.length
  | _ => True

/-- Each of the operators is linked to those before it. -/
def Layered (ops : List Operator) : Prop :=
  ∀ before op after, ops = before ++ op :: after → Linked before op

lemma Supplies.mono {ops ops' : List Operator} {name : String} {n : ℕ}
    (h : Supplies ops name n) (hsub : ops ⊆ ops') : Supplies ops' name n := by
  obtain ⟨op, hop, hshared⟩ := h
  exact ⟨op, hsub hop, hshared⟩

/-- An operator stays linked when whatever was given out is given out. -/
lemma Linked.transfer {others others' : List Operator} {op : Operator} (h : Linked others op)
    (hsub : ∀ name n, Supplies others name n → Supplies others' name n) :
    Linked others' op := by
  cases op with
  | join j =>
    obtain ⟨m, n, hleft, hright, hrest⟩ := h
    exact ⟨m, n, hsub _ _ hleft, hsub _ _ hright, hrest⟩
  | terminal t => exact hsub _ _ h
  | _ => trivial

lemma layered_nil : Layered [] := by
  intro before op after h
  simp at h

/-- Each of layered operators is linked to others of them. -/
lemma Layered.linked {ops : List Operator} (h : Layered ops) : ∀ op ∈ ops, Linked ops op := by
  intro op hop
  obtain ⟨before, after, hsplit⟩ := List.append_of_mem hop
  refine (h before op after hsplit).transfer fun name k hname => hname.mono ?_
  rw [hsplit]
  exact List.subset_append_left _ _

/-- The last operator is linked to those before it, and these are layered. -/
theorem layered_snoc_iff {ops : List Operator} {op : Operator} :
    Layered (ops ++ [op]) ↔ Layered ops ∧ Linked ops op := by
  constructor
  · intro h
    refine ⟨fun before op' after heq => ?_, h ops op [] rfl⟩
    refine h before op' (after ++ [op]) ?_
    rw [heq, List.append_assoc]
    rfl
  · rintro ⟨h, hop⟩ before op' after heq
    -- the operator is the last one, or the last one stands behind it
    rcases List.eq_nil_or_concat after with rfl | ⟨after, last, rfl⟩
    · obtain ⟨rfl, hlast⟩ := List.append_inj' heq rfl
      exact List.singleton_inj.1 hlast ▸ hop
    · rw [List.concat_eq_append, ← List.cons_append, ← List.append_assoc] at heq
      exact h before op' after (List.append_inj' heq rfl).1

/-! ## Plans -/

/-- The piece is one of patterns, with the variables of their form. -/
structure Piece.Formed (bound : ℕ) (piece : Piece) : Prop where
  /-- The piece has patterns alone. -/
  clauses : piece.clauses = piece.patterns.map .pattern
  /-- It has one at least. -/
  ne_nil : piece.patterns ≠ []
  /-- Its variables are those with numbers. -/
  vars : piece.vars = (formOf bound piece.patterns).order

/-- What holds of the operators planned so far and the pieces that are left to be joined. -/
structure Lined (bound : ℕ) (d : Draft) (work : List Piece) : Prop where
  /-- The operators are linked one to another. -/
  layered : Layered d.operators
  /-- They are filters and joins. -/
  shared : ∀ op ∈ d.operators, op.kind.isShared = true
  /-- Their keys end with a parenthesis. -/
  closed : ∀ key ∈ d.keys, IsClosed key
  /-- Their names are those of the occurrences of their keys. -/
  named : ∀ op ∈ d.operators, ∃ before key after, d.keys = before ++ key :: after ∧
    op.name = occurrenceName before key
  /-- Each piece is given out by an operator. -/
  supplied : ∀ piece ∈ work, Supplies d.operators piece.name piece.vars.length
  /-- The pieces are formed of patterns. -/
  formed : ∀ piece ∈ work, piece.Formed bound
  /-- No two pieces have one name. -/
  distinct : (work.map Piece.name).Nodup

section
variable {bound : ℕ} {d d' : Draft} {work : List Piece}

/-- The name of the next operator is one that no piece has. -/
lemma Lined.name_notMem (h : Lined bound d work) {key : String} (hkey : IsClosed key) :
    occurrenceName d.keys key ∉ work.map Piece.name := by
  intro hmem
  obtain ⟨piece, hpiece, hname⟩ := List.mem_map.1 hmem
  obtain ⟨op, hop, -, hsame, -⟩ := h.supplied piece hpiece
  obtain ⟨before, key', after, hkeys, hop'⟩ := h.named op hop
  have hkey' : IsClosed key' := h.closed key' (hkeys ▸ by simp)
  rw [hkeys, ← hsame, hop'] at hname
  exact occurrenceName_ne hkey hkey' hname.symm

/-- Some of the pieces may be left out, and their order may change. -/
lemma Lined.of_subset (h : Lined bound d work) {work' : List Piece} (hsub : work' ⊆ work)
    (hdistinct : (work'.map Piece.name).Nodup) : Lined bound d work' :=
  { h with
    supplied := fun piece hp => h.supplied piece (hsub hp)
    formed := fun piece hp => h.formed piece (hsub hp)
    distinct := hdistinct }

/-- One more operator is planned, for a new piece. -/
lemma Lined.add (h : Lined bound d work) {op : Operator} {key : String} {piece : Piece}
    (hops : d'.operators = d.operators ++ [op]) (hkeys : d'.keys = d.keys ++ [key])
    (hkey : IsClosed key) (hname : op.name = occurrenceName d.keys key)
    (hshared : op.kind.isShared = true) (hlinked : Linked d.operators op)
    (hpiece : piece.Formed bound) (hsame : op.name = piece.name)
    (harity : op.arity = piece.vars.length) : Lined bound d' (work ++ [piece]) where
  layered := hops ▸ layered_snoc_iff.2 ⟨h.layered, hlinked⟩
  shared := hops ▸ List.forall_mem_append.2 ⟨h.shared, List.forall_mem_singleton.2 hshared⟩
  closed := hkeys ▸ List.forall_mem_append.2 ⟨h.closed, List.forall_mem_singleton.2 hkey⟩
  named := by
    rw [hops, hkeys]
    refine List.forall_mem_append.2 ⟨fun op' hop' => ?_, List.forall_mem_singleton.2 ?_⟩
    · obtain ⟨before, key', after, heq, hname'⟩ := h.named op' hop'
      exact ⟨before, key', after ++ [key], by rw [heq, List.append_assoc]; rfl, hname'⟩
    · exact ⟨d.keys, key, [], rfl, hname⟩
  supplied := by
    rw [hops]
    refine List.forall_mem_append.2 ⟨fun piece' hp => ?_, List.forall_mem_singleton.2 ?_⟩
    · exact (h.supplied piece' hp).mono (List.subset_append_left _ _)
    · exact ⟨op, List.mem_append_right _ (List.mem_singleton.2 rfl), hshared, hsame, harity⟩
  formed := List.forall_mem_append.2 ⟨h.formed, List.forall_mem_singleton.2 hpiece⟩
  distinct := by
    rw [List.map_append, List.map_singleton, ← hsame, hname, ← List.concat_eq_append]
    exact h.distinct.concat (h.name_notMem hkey)

/-- The filter of one more pattern is planned. -/
lemma Lined.filter (h : Lined bound d work) (p : Pattern) :
    Lined bound (d.filter p).2 (work ++ [(d.filter p).1]) := by
  have hform := formOf_singleton bound p
  rw [filter_eq bound]
  refine h.add rfl rfl (isClosed_key bound (List.cons_ne_nil p [])) ?_ rfl trivial
    ⟨rfl, List.cons_ne_nil p [], rfl⟩ ?_ ?_
  · rw [hform]
    rfl
  · rw [hform]
    rfl
  · rw [hform]
    exact length_numberedVariables _

/-- The filters of several patterns are planned. -/
lemma Lined.filters (h : Lined bound d work) (ps : List Pattern) :
    Lined bound (d.filters ps).2 (work ++ (d.filters ps).1) := by
  induction ps generalizing d work with
  | nil => rwa [Draft.filters, List.append_nil]
  | cons p ps ih =>
    have hrest := ih (h.filter p)
    rwa [List.append_assoc] at hrest

/-- The first piece is joined with its partner. -/
lemma Lined.join (window : Window) {first next : Piece} {rest : List Piece}
    (h : Lined bound d (first :: next :: rest)) :
    let found := partner first next rest
    let joined := d.join bound window first found.1
    Lined bound joined.2 (found.2 ++ [joined.1]) := by
  intro found joined
  have hperm : (first :: found.1 :: found.2).Perm (first :: next :: rest) :=
    (perm_partner first next rest).cons first
  have hdistinct : ((first :: found.1 :: found.2).map Piece.name).Nodup :=
    (hperm.map Piece.name).nodup_iff.2 h.distinct
  have hall : Lined bound d (first :: found.1 :: found.2) := h.of_subset hperm.subset hdistinct
  have hfirst := hall.formed first (by simp)
  have hfound := hall.formed found.1 (by simp)
  have hothers : Lined bound d found.2 :=
    hall.of_subset (by simp) (List.nodup_cons.1 (List.nodup_cons.1 hdistinct).2).2
  have hne : first.name ≠ found.1.name := fun heq =>
    (List.nodup_cons.1 hdistinct).1 (heq ▸ List.mem_cons_self)
  -- the form of both sides together has the variables of both
  have hvars : ∀ v, v ∈ (formOf bound (first.patterns ++ found.1.patterns)).order ↔
      v ∈ first.vars ∨ v ∈ found.1.vars := by
    intro v
    rw [hfirst.vars, hfound.vars]
    simp only [mem_order_formOf_iff, List.mem_append, or_and_right, exists_or]
  have hfits : (joinOf bound window d first found.1).Fits first.vars.length
      found.1.vars.length := by
    refine fits_of_positions ?_ ?_ (nodup_order bound _) hvars (length_numberedVariables _)
      rfl rfl rfl rfl
    · exact hfirst.vars ▸ nodup_order bound _
    · exact hfound.vars ▸ nodup_order bound _
  have hpatterns : first.patterns ++ found.1.patterns ≠ [] :=
    List.append_ne_nil_of_left_ne_nil hfirst.ne_nil _
  have heq := @join_eq bound d first found.1 window hfirst.clauses hfound.clauses
  have hpiece : joined.1.Formed bound := by
    have hall : joined.1.patterns = first.patterns ++ found.1.patterns := by
      rw [show joined = _ from heq]
      exact filterMap_map_pattern _
    refine ⟨?_, hall ▸ hpatterns, ?_⟩
    · rw [hall, show joined = _ from heq]
    · rw [hall, show joined = _ from heq]
  rw [show joined = _ from heq] at hpiece ⊢
  refine hothers.add rfl rfl (isClosed_key bound hpatterns) rfl rfl ?_ hpiece rfl
    (length_numberedVariables _)
  exact ⟨_, _, hall.supplied first (by simp), hall.supplied found.1 (by simp), hne, hfits⟩

lemma lined_empty (bound : ℕ) : Lined bound {} [] where
  layered := layered_nil
  shared := List.forall_mem_nil _
  closed := List.forall_mem_nil _
  named := List.forall_mem_nil _
  supplied := List.forall_mem_nil _
  formed := List.forall_mem_nil _
  distinct := List.nodup_nil

/-- The operators of a plan are filters and joins, each linked to those before it, and give out
tuples for the whole body. -/
structure Plan.Lined (plan : Plan) : Prop where
  /-- Each operator is linked to those before it. -/
  layered : Layered plan.operators
  /-- The operators are filters and joins. -/
  shared : ∀ op ∈ plan.operators, op.kind.isShared = true
  /-- The body is given out. -/
  supplied : Supplies plan.operators plan.prior.name plan.prior.vars.length

/-- Every plan is lined. -/
theorem planBody_lined {window : Window} {ps : List Pattern} {plan : Plan}
    (h : planBody bound window ps = some plan) : plan.Lined := by
  obtain ⟨first, rest, hwork, rfl⟩ := planBody_cases h
  have hfilters := (lined_empty bound).filters ps.eraseDups
  rw [hwork, List.nil_append] at hfilters
  have hlast := reduce_induction (fun _ _ _ _ h => h.join window) hfilters
  exact ⟨hlast.layered, hlast.shared, hlast.supplied _ (List.mem_singleton.2 rfl)⟩

end

end Network

namespace Registry
open Network

/-! ## Registries -/

/-- Each operator of the registry is linked to those that came before it. -/
structure Ordered (r : Registry) : Prop where
  /-- Names are given once. -/
  tidy : r.Tidy
  /-- Operators are linked. -/
  layered : Layered r.toList

/-- The registry has the same reserved names and the same operators, and behind these other ones
that rules bring. -/
structure Extends (r r' : Registry) : Prop where
  /-- The same names are reserved. -/
  reserved : r'.reserved = r.reserved
  /-- Operators came behind the others. -/
  added : ∃ ops, r'.toList = r.toList ++ ops ∧
    ∀ op ∈ ops, op.kind.isShared = true ∨ op.kind = .terminal

theorem Extends.refl (r : Registry) : Extends r r :=
  ⟨rfl, [], (List.append_nil _).symm, List.forall_mem_nil _⟩

theorem Extends.trans {r r' r'' : Registry} (h : Extends r r') (h' : Extends r' r'') :
    Extends r r'' := by
  obtain ⟨hres, ops, hlist, hops⟩ := h
  obtain ⟨hres', ops', hlist', hops'⟩ := h'
  refine ⟨hres'.trans hres, ops ++ ops', ?_, List.forall_mem_append.2 ⟨hops, hops'⟩⟩
  rw [hlist', hlist, List.append_assoc]

/-- What was given out is given out. -/
lemma Extends.supplies {r r' : Registry} (h : Extends r r') {name : String} {n : ℕ}
    (hname : Supplies r.toList name n) : Supplies r'.toList name n := by
  obtain ⟨-, ops, hlist, -⟩ := h
  exact hname.mono (hlist ▸ List.subset_append_left _ _)

section
variable {r r' : Registry} {op : Operator}

/-- A linked operator is registered. -/
theorem Ordered.register (hr : r.Ordered) (hop : Linked r.toList op)
    (hkind : op.kind.isShared = true ∨ op.kind = .terminal) (h : r.register op = .ok r') :
    r'.Ordered ∧ Extends r r' := by
  obtain ⟨-, -, -, hlist⟩ := register_spec h
  refine ⟨⟨hr.tidy.register h, ?_⟩, reserved_register h, [op], hlist, ?_⟩
  · exact hlist ▸ layered_snoc_iff.2 ⟨hr.layered, hop⟩
  · exact List.forall_mem_singleton.2 hkind

/-- A linked operator is adopted, and its tuples are given out under its name. -/
theorem Ordered.adopt (hr : r.Ordered) (hop : Linked r.toList op)
    (hshared : op.kind.isShared = true) (h : r.adopt op = .ok r') :
    r'.Ordered ∧ Extends r r' ∧ Supplies r'.toList op.name op.arity := by
  obtain ⟨-, hnew⟩ | ⟨rfl, found, hget, hkind, harity⟩ := adopt_cases h
  · obtain ⟨hordered, hextends⟩ := hr.register hop (.inl hshared) hnew
    obtain ⟨-, -, -, hlist⟩ := register_spec hnew
    have hmem : op ∈ r'.toList := hlist ▸ List.mem_append_right _ (List.mem_singleton.2 rfl)
    exact ⟨hordered, hextends, op, hmem, hshared, rfl, rfl⟩
  · obtain ⟨hmem, hname⟩ := (hr.tidy.get?_iff _ _).1 hget
    exact ⟨hr, .refl _, found, hmem, hkind ▸ hshared, hname, harity⟩

/-- Layered operators are adopted one after another, and what they give out is given out. -/
theorem Ordered.adoptAll {ops : List Operator} (hr : r.Ordered) (hops : Layered ops)
    (hshared : ∀ op ∈ ops, op.kind.isShared = true) (h : ops.foldlM Registry.adopt r = .ok r') :
    r'.Ordered ∧ Extends r r' ∧ ∀ name n, Supplies ops name n → Supplies r'.toList name n := by
  induction ops using List.reverseRecOn generalizing r' with
  | nil =>
    obtain rfl := Except.ok.inj h
    exact ⟨hr, .refl r, fun name n ⟨op, hop, _⟩ => absurd hop List.not_mem_nil⟩
  | append_singleton ops op ih =>
    obtain ⟨mid, hmid, hlast⟩ := foldlM_snoc h
    obtain ⟨hlayered, hop⟩ := layered_snoc_iff.1 hops
    obtain ⟨hall, hone⟩ := List.forall_mem_append.1 hshared
    obtain ⟨hordered, hextends, hsupplies⟩ := ih hlayered hall hmid
    -- what the operator takes is given out by the registry
    obtain ⟨hordered', hextends', hsupplies'⟩ :=
      hordered.adopt (hop.transfer hsupplies) (hone op (List.mem_singleton.2 rfl)) hlast
    refine ⟨hordered', hextends.trans hextends', ?_⟩
    rintro name n ⟨op', hop', hrest⟩
    rcases List.mem_append.1 hop' with hop' | hop'
    · exact hextends'.supplies (hsupplies name n ⟨op', hop', hrest⟩)
    · obtain rfl := List.mem_singleton.1 hop'
      obtain ⟨-, rfl, rfl⟩ := hrest
      exact hsupplies'

/-- The operators of a rule and its terminal are admitted. -/
theorem Ordered.install {p : RulePlan} (hr : r.Ordered) (hp : p.plan.Lined)
    (h : install r p = .ok r') : r'.Ordered ∧ Extends r r' := by
  unfold Network.install at h
  obtain ⟨mid, hmid, hlast⟩ := bind_eq_ok h
  obtain ⟨hordered, hextends, hsupplies⟩ := hr.adoptAll hp.layered hp.shared hmid
  have hlinked : Linked mid.toList (.terminal (terminalOf mid p)) := hsupplies _ _ hp.supplied
  obtain ⟨hordered', hextends'⟩ := hordered.register hlinked (.inr rfl) hlast
  exact ⟨hordered', hextends.trans hextends'⟩

end

end Registry

namespace Network
open Registry

/-! ## Compilations -/

/-- The axioms of the rules. -/
def axiomsOf (rules : List Rule) : List Pattern :=
  (kept (axiomResults (named rules))).flatMap (·.2)

/-- The plans of the rules that have one. -/
def plansOf (options : CompileOptions) (rules : List Rule) : List RulePlan :=
  (kept (planResults options (named rules))).map (·.2)

/-- A compilation gives the registry of its axioms and plans, its names and its report. -/
theorem compile_cases {options : CompileOptions} {rules : List Rule} {n : Network}
    (h : compile options rules = .ok n) :
    build options (axiomsOf rules) (plansOf options rules) = .ok n.registry ∧
    n.source = options.source ∧ n.axiomSource = options.axiomSource ∧
    n.conflictSet = options.conflictSet ∧
    n.report = {
      compiled := (kept (planResults options (named rules))).map (·.1)
      axioms := (kept (axiomResults (named rules))).map (·.1)
      skipped := skips (axiomResults (named rules)) ++ skips (planResults options (named rules))
      warnings := (plansOf options rules).flatMap (·.warnings) } := by
  unfold compile at h
  split at h
  · exact nomatch h
  · simp only at h
    split at h
    · exact nomatch h
    · next registry hbuild =>
      obtain rfl := Except.ok.inj h
      refine ⟨hbuild, rfl, rfl, rfl, ?_⟩
      rw [plansOf, List.flatMap_map]

/-- The results that are kept are the successful ones. -/
lemma mem_kept_iff {α : Type} {results : List (String × Except SkipReason α)} {name : String}
    {a : α} : (name, a) ∈ kept results ↔ (name, .ok a) ∈ results := by
  rw [kept, List.mem_filterMap]
  constructor
  · rintro ⟨⟨name', result⟩, hmem, heq⟩
    cases result with
    | ok a' =>
      obtain ⟨rfl, rfl⟩ := Prod.mk.inj (Option.some.inj heq)
      exact hmem
    | error reason => exact nomatch heq
  · exact fun hmem => ⟨_, hmem, rfl⟩

/-- Each plan is one of a rule. -/
lemma exists_planRule_of_mem_plansOf {options : CompileOptions} {rules : List Rule} {p : RulePlan}
    (h : p ∈ plansOf options rules) :
    ∃ name r, (name, r) ∈ named rules ∧ planRule options name r = .ok p := by
  obtain ⟨⟨name, p⟩, hmem, rfl⟩ := List.mem_map.1 h
  obtain ⟨⟨name', r⟩, hrule, heq⟩ := List.mem_map.1 (mem_kept_iff.1 hmem)
  obtain ⟨-, hplan⟩ := Prod.mk.inj heq
  exact ⟨name', r, (List.mem_filter.1 hrule).1, hplan⟩

lemma planRule_lined {options : CompileOptions} {name : String} {r : Rule} {p : RulePlan}
    (h : planRule options name r = .ok p) : p.plan.Lined := by
  obtain ⟨-, -, hbody, -⟩ := planRule_cases h
  exact planBody_lined hbody

/-- A compilation begins with the conflict set and the axiom source. -/
theorem foundation_spec {options : CompileOptions} {axioms : List Pattern} {r : Registry}
    (h : foundation options axioms = .ok r) : r.Ordered ∧ r.reserved = [options.source] ∧
    r.toList = [.conflictSet options.conflictSet, .axiomSource options.axiomSource axioms] := by
  unfold foundation at h
  obtain ⟨mid, hfirst, hlast⟩ := bind_eq_ok h
  have htidy := ((tidy_reserve_empty options.source).register hfirst).register hlast
  obtain ⟨-, -, -, hlist⟩ := register_spec hfirst
  obtain ⟨-, -, -, hlist'⟩ := register_spec hlast
  have hlayered : Layered r.toList := by
    have hone : Layered ([] ++ [.conflictSet options.conflictSet]) :=
      layered_snoc_iff.2 ⟨layered_nil, trivial⟩
    rw [hlist', hlist]
    exact layered_snoc_iff.2 ⟨hone, trivial⟩
  refine ⟨⟨htidy, hlayered⟩, (reserved_register hlast).trans (reserved_register hfirst), ?_⟩
  rw [hlist', hlist]
  rfl

/-- A compiled network begins with the conflict set and the axiom source, has the operators of
the rules behind them, each linked to those before it, and no operator of the name of the source
of facts. -/
theorem compile_ordered {options : CompileOptions} {rules : List Rule} {n : Network}
    (h : compile options rules = .ok n) :
    n.registry.Ordered ∧ n.registry.reserved = [n.source] ∧
    ∃ ops, n.operators = .conflictSet n.conflictSet ::
        .axiomSource n.axiomSource (axiomsOf rules) :: ops ∧
      ∀ op ∈ ops, op.kind.isShared = true ∨ op.kind = .terminal := by
  obtain ⟨hbuild, hsource, haxioms, hconflict, -⟩ := compile_cases h
  unfold build at hbuild
  obtain ⟨base, hbase, hfold⟩ := bind_eq_ok hbuild
  obtain ⟨hordered, hreserved, hlist⟩ := foundation_spec hbase
  have hstep : ∀ p ∈ plansOf options rules, ∀ r r' : Registry,
      r.Ordered ∧ Extends base r → install r p = .ok r' → r'.Ordered ∧ Extends base r' := by
    rintro p hp r r' ⟨hr, hextends⟩ hinstall
    obtain ⟨name, rule, -, hplan⟩ := exists_planRule_of_mem_plansOf hp
    obtain ⟨hr', hextends'⟩ := hr.install (planRule_lined hplan) hinstall
    exact ⟨hr', hextends.trans hextends'⟩
  obtain ⟨hregistry, hsame, ops, hops, hkinds⟩ :=
    foldlM_invariant hstep ⟨hordered, .refl base⟩ hfold
  rw [hsource, haxioms, hconflict]
  refine ⟨hregistry, hsame.trans hreserved, ops, ?_, hkinds⟩
  rw [operators, hops, hlist]
  rfl

/-- An operator that gives something out under a name is the one of this name. -/
lemma exists_of_supplies {r : Registry} (hr : r.Tidy) {before after : List Operator}
    (hsplit : r.toList = before ++ after) {name : String} {k : ℕ} (h : Supplies before name k) :
    ∃ op ∈ before, op.kind.isShared = true ∧ r.get? name = some op ∧ op.name = name ∧
      op.arity = k := by
  obtain ⟨op, hop, hshared, hname, harity⟩ := h
  have hmem : op ∈ r.toList := hsplit ▸ List.mem_append_left _ hop
  exact ⟨op, hop, hshared, (hr.get?_iff name op).2 ⟨hmem, hname⟩, hname, harity⟩

/-- Every join of a compiled network takes its tuples from two different filters or joins that
came before it, with positions and keys that fit their tuples, and every terminal takes its own
from a filter or a join that came before it and has as many variables. -/
theorem compile_linked {options : CompileOptions} {rules : List Rule} {n : Network}
    (h : compile options rules = .ok n) :
    (∀ before j after, n.operators = before ++ .join j :: after →
      ∃ left ∈ before, ∃ right ∈ before,
        left.kind.isShared = true ∧ right.kind.isShared = true ∧ j.left ≠ j.right ∧
        n.registry.get? j.left = some left ∧ left.name = j.left ∧
        n.registry.get? j.right = some right ∧ right.name = j.right ∧
        j.Fits left.arity right.arity ∧ j.KeysFit left.arity right.arity) ∧
    (∀ before t after, n.operators = before ++ .terminal t :: after →
      ∃ prior ∈ before, prior.kind.isShared = true ∧ n.registry.get? t.prior = some prior ∧
        prior.name = t.prior ∧ prior.arity = t.vars.length) := by
  obtain ⟨⟨htidy, hlayered⟩, -, -⟩ := compile_ordered h
  refine ⟨fun before j after hsplit => ?_, fun before t after hsplit => ?_⟩
  · obtain ⟨m, k, hleft, hright, hne, hfits⟩ := hlayered before (.join j) after hsplit
    obtain ⟨left, hl, hlshared, hlget, hlname, rfl⟩ := exists_of_supplies htidy hsplit hleft
    obtain ⟨right, hr, hrshared, hrget, hrname, rfl⟩ := exists_of_supplies htidy hsplit hright
    exact ⟨left, hl, right, hr, hlshared, hrshared, hne, hlget, hlname, hrget, hrname, hfits,
      hfits.keysFit⟩
  · have hprior : Supplies before t.prior t.vars.length :=
      hlayered before (.terminal t) after hsplit
    exact exists_of_supplies htidy hsplit hprior

/-- A rule that joins one pattern with itself. -/
theorem compile_linked_of_transitive_rule :
    let edge (s o : String) : Clause := .pattern ⟨.var ⟨s⟩, .iri "p", .var ⟨o⟩⟩
    let rules : List Rule := [⟨some "t", [edge "a" "b", edge "b" "c"], [edge "a" "c"]⟩]
    ∃ n before j after, compile {} rules = .ok n ∧ n.operators = before ++ .join j :: after ∧
      j.left = "(?0 <p> ?1)" ∧ j.right = "(?0 <p> ?1)#2" ∧ j.leftKey = [1] ∧ j.rightKey = [0] ∧
      ∃ left ∈ before, ∃ right ∈ before, left.name = j.left ∧ right.name = j.right ∧
        j.Fits left.arity right.arity ∧ j.KeysFit left.arity right.arity := by
  intro edge rules
  have hrun : (compile {} rules).map (fun n => (n.operators[4]?.bind Operator.join?).map
      fun j => (j.left, j.right, j.leftKey, j.rightKey)) =
        .ok (some ("(?0 <p> ?1)", "(?0 <p> ?1)#2", [1], [0])) := by decide +kernel
  cases hcompile : compile {} rules with
  | error e => rw [hcompile] at hrun; exact nomatch hrun
  | ok n =>
    rw [hcompile] at hrun
    obtain ⟨j, hj, hvalues⟩ := Option.map_eq_some_iff.1 (Except.ok.inj hrun)
    obtain ⟨op, hop, hjoin⟩ := Option.bind_eq_some_iff.1 hj
    obtain rfl := Operator.join?_eq_some_iff.1 hjoin
    obtain ⟨hlt, hget⟩ := List.getElem?_eq_some_iff.1 hop
    have hsplit : n.operators = n.operators.take 4 ++ .join j :: n.operators.drop 5 := by
      rw [← hget, List.cons_getElem_drop_succ, List.take_append_drop]
    obtain ⟨left, hl, right, hr, -, -, -, -, hlname, -, hrname, hfits, hkeys⟩ :=
      (compile_linked hcompile).1 _ _ _ hsplit
    simp only [Prod.mk.injEq] at hvalues
    obtain ⟨hleft, hright, hlk, hrk⟩ := hvalues
    exact ⟨n, _, j, _, rfl, hsplit, hleft, hright, hlk, hrk, left, hl, right, hr, hlname, hrname,
      hfits, hkeys⟩

end Network
end RuleFlow
