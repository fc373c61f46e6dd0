import RuleFlow.Network.Compile
import RuleFlow.Proofs.Network.Planning
import RuleFlow.Proofs.Network.Registry

/-!
# What the registry keeps

A registry is sound when each of its operators is under its own name and well built among the
others. Admitting what was planned keeps it sound, whether an operator is new or one of that
name was there before: in either case the registry then has an operator that does what was
planned (`StandsIn`), and all that was there is still there (`Grows`).

One planned operator is `Sound.adopt`, the operators of a rule are `Sound.adoptAll`, a rule is
`install_spec`, and the rules of a compilation are `installAll_spec`.
-/

namespace RuleFlow

namespace Registry
open Network

/-- Each operator is under its own name and well built among the others. -/
structure Sound (bound : ℕ) (r : Registry) : Prop where
  /-- Operators are under their names. -/
  keyed : ∀ name op, r.get? name = some op → op.name = name
  /-- Operators are well built. -/
  built : ∀ name op, r.get? name = some op → WellBuilt bound r.Holds op

/-- The registry has an operator of this name that is made for all that the given one is made
for. -/
def StandsIn (bound : ℕ) (r : Registry) (op : Operator) : Prop :=
  ∃ op', r.Holds op' ∧ op'.name = op.name ∧ ∀ ps, MadeFor bound ps op → MadeFor bound ps op'

/-- The terminals in order. -/
def terminals (r : Registry) : List Terminal := r.toList.filterMap Operator.terminal?

/-- What stands in for an operator does so as the registry grows. -/
theorem StandsIn.grow {bound : ℕ} {r r' : Registry} {op : Operator} (h : r.StandsIn bound op)
    (hgrow : Grows r r') : r'.StandsIn bound op := by
  obtain ⟨op', hop', hname, hmade⟩ := h
  exact ⟨op', hgrow.holds hop', hname, hmade⟩

/-! ## One operator -/

section
variable {bound : ℕ} {r r' : Registry} {op : Operator}

theorem Sound.register (hr : r.Sound bound) (hop : WellBuilt bound r.Holds op)
    (h : r.register op = .ok r') : r'.Sound bound := by
  obtain ⟨hself, hother, hgrow, -⟩ := register_spec h
  -- one operator is new, under its own name; the others were there
  refine ⟨fun name op' hop' => ?_, fun name op' hop' => ?_⟩
  · by_cases hname : name = op.name
    · rw [hname, hself] at hop'
      rw [← Option.some.inj hop', hname]
    · rw [hother name hname] at hop'
      exact hr.keyed name op' hop'
  · by_cases hname : name = op.name
    · rw [hname, hself] at hop'
      exact Option.some.inj hop' ▸ hop.mono fun _ => hgrow.holds
    · rw [hother name hname] at hop'
      exact (hr.built name op' hop').mono fun _ => hgrow.holds

/-- Adopting a planned operator leaves a registry with an operator that does what was planned. -/
theorem Sound.adopt (hr : r.Sound bound) (hop : WellBuilt bound r.Holds op)
    (hshared : op.kind.isShared = true) (h : r.adopt op = .ok r') :
    r'.Sound bound ∧ Grows r r' ∧ r'.StandsIn bound op ∧ r'.terminals = r.terminals := by
  obtain ⟨-, hnew⟩ | ⟨rfl, found, hget, hkind, -⟩ := adopt_cases h
  · obtain ⟨hself, -, hgrow, hlist⟩ := register_spec hnew
    refine ⟨hr.register hop hnew, hgrow, ⟨op, hself, rfl, fun _ hmade => hmade⟩, ?_⟩
    have hterminal : op.terminal? = none := by
      cases op with
      | terminal t => exact nomatch hshared
      | _ => rfl
    rw [terminals, hlist, List.filterMap_append]
    simp [terminals, hterminal]
  · -- the operator that was there has the name and the kind
    have hname : found.name = op.name := hr.keyed _ _ hget
    obtain ⟨qs, hfound⟩ := (hr.built _ _ hget).exists_madeFor (hkind ▸ hshared)
    refine ⟨hr, .refl _, ⟨found, ?_, hname, fun ps hmade => ?_⟩, rfl⟩
    · rw [Holds, hname, hget]
    · exact hmade.of_same_name hfound hname.symm

end

/-! ## The operators of a rule -/

section
variable {bound : ℕ} {r r' : Registry}

/-- Adopting planned operators one after another leaves a registry with operators that do what
was planned. -/
theorem Sound.adoptAll {ops : List Operator} (hr : r.Sound bound) (hops : Planned bound ops)
    (h : ops.foldlM Registry.adopt r = .ok r') :
    r'.Sound bound ∧ Grows r r' ∧ (∀ op ∈ ops, r'.StandsIn bound op) ∧
    r'.terminals = r.terminals := by
  induction hops generalizing r' with
  | nil =>
    obtain rfl := Except.ok.inj h
    exact ⟨hr, .refl r, fun op hop => absurd hop List.not_mem_nil, rfl⟩
  | @snoc ops op _ hop hshared ih =>
    obtain ⟨mid, hmid, hlast⟩ := foldlM_snoc h
    obtain ⟨hsound, hgrow, hstand, hterminals⟩ := ih hmid
    -- what the operator is built on stands in the registry already
    have hbuilt : WellBuilt bound mid.Holds op := hop.transfer hstand
    obtain ⟨hsound', hgrow', hstand', hterminals'⟩ := hsound.adopt hbuilt hshared hlast
    refine ⟨hsound', hgrow.trans hgrow', ?_, hterminals'.trans hterminals⟩
    refine List.forall_mem_append.2 ⟨fun op' hop' => (hstand op' hop').grow hgrow', ?_⟩
    exact List.forall_mem_singleton.2 hstand'

end

end Registry

namespace Network
open Registry

/-! ## Rules -/

/-- The terminal fires the rule of the plan for the tuples of the plan's last operator. -/
structure Ends (p : RulePlan) (t : Terminal) : Prop where
  /-- The name of the rule. -/
  rule : t.rule = p.name
  /-- The operator that matches the body. -/
  prior : t.prior = p.plan.prior.name
  /-- The variables at its positions. -/
  vars : t.vars = p.plan.prior.vars
  /-- The functors of the body. -/
  guards : t.guards = p.rule.guards
  /-- The head. -/
  head : t.head = p.rule.head

/-- The operators of the plan are well built and match the whole body in the end. -/
structure RulePlan.Sound (bound : ℕ) (p : RulePlan) : Prop where
  /-- The operators are well built one on another. -/
  planned : Planned bound p.plan.operators
  /-- The last one matches the body. -/
  prior : Backed bound (· ∈ p.plan.operators) p.plan.prior

section
variable {bound : ℕ} {r r' : Registry}

/-- A rule leaves operators that match its body and one terminal. -/
theorem install_spec {p : RulePlan} (hr : r.Sound bound) (hp : p.Sound bound)
    (h : install r p = .ok r') :
    r'.Sound bound ∧ Grows r r' ∧ Backed bound r'.Holds p.plan.prior ∧
    ∃ t, r'.terminals = r.terminals ++ [t] ∧ Ends p t := by
  unfold Network.install at h
  obtain ⟨mid, hmid, hlast⟩ := bind_eq_ok h
  obtain ⟨hsound, hgrow, hstand, hterminals⟩ := hr.adoptAll hp.planned hmid
  obtain ⟨-, -, hgrow', hlist⟩ := register_spec hlast
  refine ⟨hsound.register (.other rfl) hlast, hgrow.trans hgrow', ?_, terminalOf mid p, ?_,
    ⟨rfl, rfl, rfl, rfl, rfl⟩⟩
  · exact hp.prior.transfer fun op hop => (hstand op hop).grow hgrow'
  · rw [Registry.terminals, hlist, List.filterMap_append, ← hterminals]
    rfl

/-- Rules leave operators that match their bodies and one terminal each, in their order. -/
theorem installAll_spec {plans : List RulePlan} (hr : r.Sound bound)
    (hplans : ∀ p ∈ plans, p.Sound bound) (h : plans.foldlM install r = .ok r') :
    r'.Sound bound ∧ Grows r r' ∧ (∀ p ∈ plans, Backed bound r'.Holds p.plan.prior) ∧
    ∃ ts, r'.terminals = r.terminals ++ ts ∧ List.Forall₂ Ends plans ts := by
  induction plans generalizing r with
  | nil =>
    obtain rfl := Except.ok.inj h
    exact ⟨hr, .refl r, List.forall_mem_nil _, [], (List.append_nil _).symm, .nil⟩
  | cons p plans ih =>
    obtain ⟨hp, hplans⟩ := List.forall_mem_cons.1 hplans
    rw [List.foldlM_cons] at h
    obtain ⟨mid, hfirst, h⟩ := bind_eq_ok h
    obtain ⟨hsound, hgrow, hback, t, hterminals, hends⟩ := install_spec hr hp hfirst
    obtain ⟨hsound', hgrow', hbacks, ts, hterminals', hall⟩ := ih hsound hplans h
    refine ⟨hsound', hgrow.trans hgrow', ?_, t :: ts, ?_, .cons hends hall⟩
    · exact List.forall_mem_cons.2 ⟨hback.mono fun _ => hgrow'.holds, hbacks⟩
    · rw [hterminals', hterminals, List.append_assoc]
      rfl

/-- A registry without operators is sound. -/
theorem sound_reserve_empty (bound : ℕ) (name : String) :
    (Registry.empty.reserve name).Sound bound := by
  have hnone : ∀ key, (Registry.empty.reserve name).get? key = none := by
    simp [get?, Registry.empty, reserve, Table.find?]
  refine ⟨fun key op hget => ?_, fun key op hget => ?_⟩
  · exact absurd ((hnone key).symm.trans hget).symm (Option.some_ne_none op)
  · exact absurd ((hnone key).symm.trans hget).symm (Option.some_ne_none op)

/-- The registry that a compilation begins with has no terminal and is sound. -/
theorem sound_foundation (bound : ℕ) {options : CompileOptions} {axioms : List Pattern}
    (h : foundation options axioms = .ok r) : r.Sound bound ∧ r.terminals = [] := by
  unfold foundation at h
  obtain ⟨mid, hfirst, hlast⟩ := bind_eq_ok h
  have hmid := (sound_reserve_empty bound options.source).register (.other rfl) hfirst
  obtain ⟨-, -, -, hlist⟩ := register_spec hfirst
  obtain ⟨-, -, -, hlist'⟩ := register_spec hlast
  refine ⟨hmid.register (.other rfl) hlast, ?_⟩
  rw [Registry.terminals, hlist', hlist]
  rfl

end

end Network
end RuleFlow
