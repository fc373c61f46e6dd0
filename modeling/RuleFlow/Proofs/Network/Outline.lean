import RuleFlow.Proofs.Network.WellBuilt

/-!
# Outlines of operators

What rules agree on when they share an operator is its outline: the name, the kind, the clauses
that it matches and its variables. The sides of a join and its positions do not belong to it,
because rules may put one join together from different parts.

Well-built filters and joins of one name have one outline (`WellBuilt.outline_eq`): the name
determines the clauses, and these determine the rest, since a filter matches one pattern and a
join more than one, and since the variables are those of the clauses in the order of their
numbers.
-/

namespace RuleFlow.Network
open Canonical

/-- What rules agree on when they share an operator. -/
structure Outline where
  /-- The name. -/
  name : String
  /-- Whether it is a filter or a join. -/
  kind : Kind
  /-- The pattern of a filter or the template of a join. -/
  body : List Clause
  /-- The variables at the positions of the tuples. -/
  vars : List Variable
  deriving DecidableEq

/-- The outline of an operator. -/
def outline (op : Operator) : Outline := ⟨op.name, op.kind, op.subRule.body, op.vars⟩

/-- The outlines of the filters and joins among the operators. -/
def outlines (ops : List Operator) : List Outline := (ops.filter (·.kind.isShared)).map outline

/-- The outlines are those of the shared operators. -/
lemma mem_outlines {ops : List Operator} {o : Outline} :
    o ∈ outlines ops ↔ ∃ op ∈ ops, op.kind.isShared = true ∧ outline op = o := by
  simp only [outlines, List.mem_map, List.mem_filter, and_assoc]

lemma outlines_append (ops ops' : List Operator) :
    outlines (ops ++ ops') = outlines ops ++ outlines ops' := by
  rw [outlines, List.filter_append, List.map_append]
  rfl

lemma outlines_singleton (op : Operator) :
    outlines [op] = if op.kind.isShared then [outline op] else [] := by
  cases h : op.kind.isShared <;> simp [outlines, h]

/-! ## The name determines the outline -/

section
variable {bound : ℕ} {ps : List Pattern} {op op' : Operator} {among among' : Operator → Prop}

/-- A filter matches one pattern and a join more than one. -/
lemma WellBuilt.kind_eq_filter_iff (h : WellBuilt bound among op)
    (hshared : op.kind.isShared = true) : op.kind = .filter ↔ op.subRule.body.length = 1 := by
  cases h with
  | filter h => exact iff_of_true rfl rfl
  | @join j left right h hleft hright =>
    have hl := List.length_pos_iff.2 hleft.ne_nil
    have hr := List.length_pos_iff.2 hright.ne_nil
    refine iff_of_false nofun ?_
    rw [h.body, length_formOf, List.length_append]
    omega
  | other h => rw [h] at hshared; exact nomatch hshared

/-- Well-built filters and joins of one name have one outline. -/
theorem WellBuilt.outline_eq (h : WellBuilt bound among op) (h' : WellBuilt bound among' op')
    (hshared : op.kind.isShared = true) (hshared' : op'.kind.isShared = true)
    (hname : op.name = op'.name) : outline op = outline op' := by
  obtain ⟨ps, hmade⟩ := h.exists_madeFor hshared
  obtain ⟨qs, hmade'⟩ := h'.exists_madeFor hshared'
  have hbody := hmade.body_eq hmade' hname
  have hvars := hmade.vars_eq hmade' hname
  have hkind : op.kind = op'.kind := by
    have hiff := h.kind_eq_filter_iff hshared
    rw [hbody, ← h'.kind_eq_filter_iff hshared'] at hiff
    cases op <;> cases op' <;> simp_all [Operator.kind, Kind.isShared]
  rw [outline, outline, hname, hkind, hbody, hvars]

/-- The name of an operator that is made for patterns begins with a parenthesis. -/
theorem MadeFor.isOpened_name (h : MadeFor bound ps op) : IsOpened op.name := by
  obtain ⟨s, hname, -⟩ := h.named
  exact hname ▸ (isOpened_key bound h.ne_nil).append s

end

end RuleFlow.Network
