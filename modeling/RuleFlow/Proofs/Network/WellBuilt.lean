import RuleFlow.Proofs.Canonical.Patterns
import RuleFlow.Proofs.Network.Meaning

/-!
# Operators and the patterns that they are made for

A filter or a join is made for a list of patterns when its template and its variables are the
canonical form of the list and its name is the key of the form, perhaps with a number behind it
(`MadeFor`). The name alone then determines the template and the variables, whichever rule the
operator was planned for (`MadeFor.body_eq`, `MadeFor.vars_eq`). This is what makes it safe to
share operators by name.

An operator is well built among others when it is a filter made for something, or a join made
for the patterns of two pieces that operators among the others match, with the positions of its
tuples taken from the variables of these pieces.
-/

namespace RuleFlow

/-- The patterns of the rule that the operator matches. -/
def Network.Piece.patterns (piece : Network.Piece) : List Pattern :=
  piece.clauses.filterMap Clause.pattern?

namespace Network
open Canonical

/-- The canonical form of a list of patterns. -/
def formOf (bound : ℕ) (ps : List Pattern) : CanonicalForm := form bound (ps.map .pattern)

/-! ## Forms of patterns -/

lemma legible_map_pattern {ps : List Pattern} (h : ∀ p ∈ ps, p.Legible) :
    ∀ c ∈ ps.map Clause.pattern, c.Legible := by
  intro c hc
  obtain ⟨p, hp, rfl⟩ := List.mem_map.1 hc
  exact .pattern (h p hp)

lemma filterMap_map_pattern (ps : List Pattern) :
    (ps.map Clause.pattern).filterMap Clause.pattern? = ps := by
  rw [List.filterMap_map]
  exact List.filterMap_some

/-- The variables of a form are those that the patterns mention. -/
lemma mem_order_formOf_iff {bound : ℕ} {ps : List Pattern} {v : Variable} :
    v ∈ (formOf bound ps).order ↔ ∃ p ∈ ps, v ∈ p.mentions := by
  rw [formOf, mem_order_iff, List.mem_flatMap]
  constructor
  · rintro ⟨c, hc, hv⟩
    obtain ⟨p, hp, rfl⟩ := List.mem_map.1 hc
    exact ⟨p, hp, hv⟩
  · rintro ⟨p, hp, hv⟩
    exact ⟨.pattern p, List.mem_map_of_mem hp, hv⟩

/-- The template of a form has the same answers at the numbered variables as the patterns have
at the variables with these numbers. -/
theorem answers_formOf (facts : Set Pattern) (bound : ℕ) (ps : List Pattern) :
    answers facts (formOf bound ps).vars
        ((formOf bound ps).clauses.filterMap Clause.pattern?) =
      answers facts (formOf bound ps).order ps := by
  obtain ⟨qs, hqs, hclauses⟩ := exists_perm_form bound ps
  have hvars : (formOf bound ps).vars =
      (formOf bound ps).order.map (numbering (formOf bound ps).order) :=
    (map_numbering (nodup_order bound _)).symm
  have hpatterns : (formOf bound ps).clauses.filterMap Clause.pattern? =
      qs.map (Pattern.rename (numbering (formOf bound ps).order)) := by
    rw [formOf, hclauses, filterMap_map_pattern]
  rw [hvars, hpatterns, answers_rename (numbering_injOn _), answers_perm hqs]
  exact fun q hq v hv => mem_order_formOf_iff.2 ⟨q, hqs.mem_iff.1 hq, hv⟩

lemma length_formOf (bound : ℕ) (ps : List Pattern) :
    (formOf bound ps).clauses.length = ps.length := by
  obtain ⟨qs, hqs, hclauses⟩ := exists_perm_form bound ps
  rw [formOf, hclauses, List.length_map, List.length_map, hqs.length_eq]

/-- The numbered variables of a form are those that its clauses mention. -/
lemma mem_vars_formOf_iff {bound : ℕ} {ps : List Pattern} {v : Variable} :
    v ∈ (formOf bound ps).vars ↔ ∃ c ∈ (formOf bound ps).clauses, v ∈ c.mentions := by
  obtain ⟨qs, hqs, hclauses⟩ := exists_perm_form bound ps
  have hvars : (formOf bound ps).vars =
      (formOf bound ps).order.map (numbering (formOf bound ps).order) :=
    (map_numbering (nodup_order bound _)).symm
  change (formOf bound ps).clauses = _ at hclauses
  rw [hvars, hclauses, List.mem_map]
  constructor
  · rintro ⟨w, hw, rfl⟩
    obtain ⟨p, hp, hmention⟩ := mem_order_formOf_iff.1 hw
    refine ⟨_, List.mem_map_of_mem (List.mem_map_of_mem (hqs.mem_iff.2 hp)), ?_⟩
    show _ ∈ (Pattern.rename _ p).mentions
    rw [Pattern.mentions_rename]
    exact List.mem_map_of_mem hmention
  · rintro ⟨c, hc, hmention⟩
    simp only [List.mem_map, exists_exists_and_eq_and] at hc
    obtain ⟨q, hq, rfl⟩ := hc
    change v ∈ (Pattern.rename _ q).mentions at hmention
    rw [Pattern.mentions_rename, List.mem_map] at hmention
    obtain ⟨w, hw, rfl⟩ := hmention
    exact ⟨w, mem_order_formOf_iff.2 ⟨q, hqs.mem_iff.1 hq, hw⟩, rfl⟩

lemma nodup_vars_formOf (bound : ℕ) (ps : List Pattern) : (formOf bound ps).vars.Nodup :=
  List.Nodup.map numberedVariable_injective List.nodup_range

/-- Forms with the same clauses have the same variables. -/
theorem vars_eq_of_clauses_eq {bound : ℕ} {ps qs : List Pattern}
    (h : (formOf bound ps).clauses = (formOf bound qs).clauses) :
    (formOf bound ps).vars = (formOf bound qs).vars := by
  have hperm : (formOf bound ps).vars.Perm (formOf bound qs).vars := by
    rw [List.perm_ext_iff_of_nodup (nodup_vars_formOf bound ps) (nodup_vars_formOf bound qs)]
    intro v
    rw [mem_vars_formOf_iff, mem_vars_formOf_iff, h]
  have hcount := hperm.length_eq
  rw [CanonicalForm.vars, CanonicalForm.vars, length_numberedVariables,
    length_numberedVariables] at hcount
  rw [CanonicalForm.vars, CanonicalForm.vars, hcount]

/-! ## Operators made for patterns -/

/-- The operator has the canonical form of the patterns as its template and is named by it. -/
structure MadeFor (bound : ℕ) (ps : List Pattern) (op : Operator) : Prop where
  /-- There is something to be matched. -/
  ne_nil : ps ≠ []
  /-- The patterns can be written. -/
  legible : ∀ p ∈ ps, p.Legible
  /-- The operator is a filter or a join. -/
  shared : op.kind.isShared = true
  /-- The name is the key with perhaps a number behind it. -/
  named : IsNamed op.name (formOf bound ps).key
  /-- The template is the canonical form. -/
  body : op.subRule.body = (formOf bound ps).clauses
  /-- The positions are those of the numbered variables. -/
  vars : op.vars = (formOf bound ps).vars

section
variable {bound : ℕ} {ps qs : List Pattern} {op op' : Operator}

/-- Operators with one name are made for patterns with one key. -/
theorem MadeFor.key_eq (h : MadeFor bound ps op) (h' : MadeFor bound qs op')
    (hname : op.name = op'.name) : (formOf bound ps).key = (formOf bound qs).key :=
  h.named.unique (hname ▸ h'.named) (isClosed_key bound h.ne_nil) (isClosed_key bound h'.ne_nil)

/-- The name of an operator determines its template. -/
theorem MadeFor.body_eq (h : MadeFor bound ps op) (h' : MadeFor bound qs op')
    (hname : op.name = op'.name) : op.subRule.body = op'.subRule.body := by
  rw [h.body, h'.body]
  exact clauses_eq_of_key_eq (legible_map_pattern h.legible) (legible_map_pattern h'.legible)
    (h.key_eq h' hname)

/-- The name of an operator determines its variables. -/
theorem MadeFor.vars_eq (h : MadeFor bound ps op) (h' : MadeFor bound qs op')
    (hname : op.name = op'.name) : op.vars = op'.vars := by
  have hbody := h.body_eq h' hname
  rw [h.body, h'.body] at hbody
  rw [h.vars, h'.vars]
  exact vars_eq_of_clauses_eq hbody

/-- An operator of the same name does what an operator was made for. -/
theorem MadeFor.of_same_name (h : MadeFor bound ps op) (h' : MadeFor bound qs op')
    (hname : op.name = op'.name) : MadeFor bound ps op' where
  ne_nil := h.ne_nil
  legible := h.legible
  shared := h'.shared
  named := hname ▸ h.named
  body := by rw [← h.body_eq h' hname, h.body]
  vars := by rw [← h.vars_eq h' hname, h.vars]

/-- What an operator's template asks for are the answers to what it is made for. -/
theorem MadeFor.answers_eq (h : MadeFor bound ps op) (facts : Set Pattern) :
    answers facts op.vars op.subRule.bodyPatterns = answers facts (formOf bound ps).order ps := by
  rw [Rule.bodyPatterns, h.body, h.vars, answers_formOf]

end

/-! ## Pieces and operators among others -/

/-- One of the operators was made for the patterns of the piece. -/
structure Backed (bound : ℕ) (among : Operator → Prop) (piece : Piece) : Prop where
  /-- The piece has patterns alone. -/
  clauses : piece.clauses = piece.patterns.map .pattern
  /-- The variables of the piece are those with numbers. -/
  vars : piece.vars = (formOf bound piece.patterns).order
  /-- The operator. -/
  operator : ∃ op, among op ∧ op.name = piece.name ∧ MadeFor bound piece.patterns op

/-- The variables of a piece are those that its patterns mention. -/
theorem Backed.mem_vars_iff {bound : ℕ} {among : Operator → Prop} {piece : Piece}
    (h : Backed bound among piece) {v : Variable} :
    v ∈ piece.vars ↔ ∃ p ∈ piece.patterns, v ∈ p.mentions := by
  rw [h.vars, mem_order_formOf_iff]

/-- A piece that is matched by an operator has patterns. -/
theorem Backed.ne_nil {bound : ℕ} {among : Operator → Prop} {piece : Piece}
    (h : Backed bound among piece) : piece.patterns ≠ [] := by
  obtain ⟨op, -, -, hmade⟩ := h.operator
  exact hmade.ne_nil

/-- The patterns of a piece are legible. -/
theorem Backed.legible {bound : ℕ} {among : Operator → Prop} {piece : Piece}
    (h : Backed bound among piece) : ∀ p ∈ piece.patterns, p.Legible := by
  obtain ⟨op, -, -, hmade⟩ := h.operator
  exact hmade.legible

/-- The operator is made for something, and so are those that a join takes its tuples from. -/
inductive WellBuilt (bound : ℕ) (among : Operator → Prop) : Operator → Prop
  /-- A filter that is made for patterns. -/
  | filter {f : Filter} {ps : List Pattern} (h : MadeFor bound ps (.filter f)) :
      WellBuilt bound among (.filter f)
  /-- A join that is made for the patterns of two pieces. -/
  | join {j : Join} {left right : Piece}
      (h : MadeFor bound (left.patterns ++ right.patterns) (.join j))
      (hleft : Backed bound among left) (hright : Backed bound among right)
      (left_eq : j.left = left.name) (right_eq : j.right = right.name)
      (match_eq : j.matchLeft = positions left.vars right.vars)
      (templateLeft_eq : j.templateLeft =
        positions (formOf bound (left.patterns ++ right.patterns)).order left.vars)
      (templateRight_eq : j.templateRight =
        positions (formOf bound (left.patterns ++ right.patterns)).order right.vars) :
      WellBuilt bound among (.join j)
  /-- An operator that no rules share. -/
  | other {op : Operator} (h : op.kind.isShared = false) : WellBuilt bound among op

section
variable {bound : ℕ} {among among' : Operator → Prop}

/-- Operators that stand in for others, name by name, back the same pieces. -/
theorem Backed.transfer {piece : Piece} (h : Backed bound among piece)
    (hsub : ∀ op, among op → ∃ op', among' op' ∧ op'.name = op.name ∧
      ∀ ps, MadeFor bound ps op → MadeFor bound ps op') : Backed bound among' piece := by
  obtain ⟨op, hop, hname, hmade⟩ := h.operator
  obtain ⟨op', hop', hname', hmade'⟩ := hsub op hop
  exact ⟨h.clauses, h.vars, op', hop', hname'.trans hname, hmade' _ hmade⟩

/-- A well-built operator stays so among operators with these names, made for the same patterns. -/
theorem WellBuilt.transfer {op : Operator} (h : WellBuilt bound among op)
    (hsub : ∀ op, among op → ∃ op', among' op' ∧ op'.name = op.name ∧
      ∀ ps, MadeFor bound ps op → MadeFor bound ps op') : WellBuilt bound among' op := by
  cases h with
  | filter h => exact .filter h
  | join h hleft hright hl hr hm htl htr =>
    exact .join h (hleft.transfer hsub) (hright.transfer hsub) hl hr hm htl htr
  | other h => exact .other h

theorem Backed.mono {piece : Piece} (h : Backed bound among piece)
    (hsub : ∀ op, among op → among' op) : Backed bound among' piece :=
  h.transfer fun op hop => ⟨op, hsub op hop, rfl, fun _ hmade => hmade⟩

/-- An operator is well built among more operators as well. -/
theorem WellBuilt.mono {op : Operator} (h : WellBuilt bound among op)
    (hsub : ∀ op, among op → among' op) : WellBuilt bound among' op :=
  h.transfer fun op hop => ⟨op, hsub op hop, rfl, fun _ hmade => hmade⟩

/-- A well-built filter or join is made for something. -/
theorem WellBuilt.exists_madeFor {op : Operator} (h : WellBuilt bound among op)
    (hshared : op.kind.isShared = true) : ∃ ps, MadeFor bound ps op := by
  cases h with
  | filter h => exact ⟨_, h⟩
  | join h => exact ⟨_, h⟩
  | other h => rw [h] at hshared; exact nomatch hshared

end

/-- Filters and joins in an order in which each is well built among those before it. -/
inductive Planned (bound : ℕ) : List Operator → Prop
  /-- Nothing is planned. -/
  | nil : Planned bound []
  /-- One more operator is planned. -/
  | snoc {ops : List Operator} {op : Operator} (hops : Planned bound ops)
      (hop : WellBuilt bound (· ∈ ops) op) (hshared : op.kind.isShared = true) :
      Planned bound (ops ++ [op])

end Network
end RuleFlow
