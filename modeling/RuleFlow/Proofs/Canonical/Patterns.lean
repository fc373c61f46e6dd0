import Mathlib.Data.List.Perm.Basic
import RuleFlow.Proofs.Canonical.Reading

/-!
# Canonical forms of patterns

On a list of patterns a canonical form does two things: it permutes the list and it numbers the
variables (`exists_perm_form`), and both can be undone, since different variables get
different numbers (`numbering_injOn`). The key of the form ends with the parenthesis that closes
its last pattern, so that a key can be told from what is put behind it to name an operator
(`IsNamed.unique`).
-/

namespace RuleFlow.Canonical

/-! ## Lists of patterns -/

/-- A canonical form of a list of patterns is a permutation with numbered variables. -/
theorem exists_perm_form (bound : ℕ) (ps : List Pattern) :
    ∃ qs : List Pattern, qs.Perm ps ∧ (form bound (ps.map .pattern)).clauses =
      (qs.map (Pattern.rename (numbering (form bound (ps.map .pattern)).order))).map .pattern := by
  obtain ⟨ds, hds, -, hclauses, -⟩ := form_eq_inOrder bound (ps.map .pattern)
  have hperm : (ps.map .pattern).Perm ds := hds.perm_of_patterns
  obtain ⟨qs, rfl, hqs⟩ : Relation.Comp (fun a b => a = b.map Clause.pattern) List.Perm ds ps := by
    rw [List.eq_map_comp_perm]
    exact hperm.symm
  refine ⟨qs, hqs, ?_⟩
  rw [hclauses, List.map_map, List.map_map]
  exact List.map_congr_left fun p _ => Clause.rename_pattern _ p

/-- The canonical form of one pattern, which leaves nothing to be ordered. -/
theorem form_singleton (bound : ℕ) (p : Pattern) :
    form bound [.pattern p] =
      ⟨(pattern p []).text, [.pattern (pattern p []).value], (pattern p []).seen⟩ := by
  obtain ⟨o, ho, heq⟩ := clauses_eq_together bound [.pattern p] []
  obtain rfl : o = [.pattern p] := List.perm_singleton.1 (perm_of_mem_orders ho)
  show CanonicalForm.mk _ _ _ = _
  rw [heq]
  rfl

/-! ## Names made of keys -/

/-- The text ends with a closing parenthesis. -/
def IsClosed (text : String) : Prop := ∃ s, text.toList = s ++ [')']

/-- The text begins with an opening parenthesis. -/
def IsOpened (text : String) : Prop := text.toList.head? = some '('

instance : DecidablePred IsOpened := fun _ => inferInstanceAs (Decidable (_ = _))

/-- The name is the key with something behind it that holds no closing parenthesis. -/
def IsNamed (name key : String) : Prop := ∃ s, name = key ++ s ∧ ')' ∉ s.toList

/-- A name has one key. -/
theorem IsNamed.unique {name key key' : String} (h : IsNamed name key) (h' : IsNamed name key')
    (hkey : IsClosed key) (hkey' : IsClosed key') : key = key' := by
  -- the key is what is left when everything behind the last parenthesis is dropped
  have hdrop : ∀ k : String, IsNamed name k → IsClosed k →
      name.toList.reverse.dropWhile (· ≠ ')') = k.toList.reverse := by
    rintro k ⟨s, rfl, hs⟩ ⟨u, hu⟩
    have hbehind : ∀ c ∈ s.toList.reverse, decide (c ≠ ')') = true := by
      intro c hc
      refine decide_eq_true fun e => hs ?_
      rw [← e]
      exact List.mem_reverse.1 hc
    rw [String.toList_append, List.reverse_append, List.dropWhile_append_of_pos hbehind, hu,
      List.reverse_append]
    exact List.dropWhile_cons_of_neg (by decide)
  rw [← String.toList_inj, ← List.reverse_inj, ← hdrop key h hkey, hdrop key' h' hkey']

/-- A written pattern ends with a parenthesis. -/
lemma isClosed_render (p : Pattern) : IsClosed p.render :=
  ⟨_, by rw [Pattern.render, String.toList_append]; rfl⟩

lemma IsClosed.append {text : String} (h : IsClosed text) (front : String) :
    IsClosed (front ++ text) := by
  obtain ⟨s, hs⟩ := h
  exact ⟨front.toList ++ s, by rw [String.toList_append, hs, List.append_assoc]⟩

/-- The key of a list of patterns ends with a closing parenthesis. -/
theorem isClosed_key (bound : ℕ) {ps : List Pattern} (h : ps ≠ []) :
    IsClosed (form bound (ps.map .pattern)).key := by
  obtain ⟨-, -, -, -, hkey⟩ := form_eq_inOrder bound (ps.map .pattern)
  obtain ⟨qs, hqs, hclauses⟩ := exists_perm_form bound ps
  have hne : qs ≠ [] := fun hnil => h (List.nil_perm.1 (hnil ▸ hqs))
  rw [hkey, hclauses]
  clear hkey hclauses hqs
  generalize numbering _ = σ
  induction qs with
  | nil => exact absurd rfl hne
  | cons q qs ih =>
    cases qs with
    | nil => exact isClosed_render _
    | cons q' qs =>
      have hrest := ih (List.cons_ne_nil q' qs)
      simp only [List.map_cons, Text.joinWith_cons_cons] at hrest ⊢
      exact hrest.append _

lemma IsOpened.append {text : String} (h : IsOpened text) (back : String) :
    IsOpened (text ++ back) := by
  rw [IsOpened, String.toList_append, List.head?_append, h]
  rfl

lemma isOpened_render (p : Pattern) : IsOpened p.render := by
  have hopen : IsOpened "(" := rfl
  simpa only [Pattern.render, String.append_assoc] using hopen.append _

/-- The key of a list of patterns begins with an opening parenthesis. -/
theorem isOpened_key (bound : ℕ) {ps : List Pattern} (h : ps ≠ []) :
    IsOpened (form bound (ps.map .pattern)).key := by
  obtain ⟨-, -, -, -, hkey⟩ := form_eq_inOrder bound (ps.map .pattern)
  obtain ⟨qs, hqs, hclauses⟩ := exists_perm_form bound ps
  rw [hkey, hclauses]
  cases qs with
  | nil => exact absurd (List.nil_perm.1 hqs) h
  | cons q qs =>
    cases qs with
    | nil => exact isOpened_render _
    | cons q' qs =>
      simp only [List.map_cons, Text.joinWith_cons_cons, String.append_assoc]
      exact (isOpened_render _).append _

end RuleFlow.Canonical
