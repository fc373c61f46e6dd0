import RuleFlow.Proofs.Canonical.Patterns
import RuleFlow.Proofs.Clause.Delimited

/-!
# Keys tell structures apart

Different clauses can have one text when an IRI, a label or a name holds the characters that end
it. Delimited clauses do not, and canonical forms of delimited clauses are delimited. So their
keys determine their canonical forms (`clauses_form_eq`, `canonicalRule_eq`), hence lists with
one key differ in the names of variables and in order alone (`exists_renaming_of_key_eq`),
whatever bounds the searches had.

This asks for less than being legible (`clauses_eq_of_key_eq`): a rule may have a name with
spaces and a blank node a label that the rule language does not have.
-/

namespace RuleFlow.Canonical

/-! ## Canonical forms are delimited -/

/-- The name of a numbered variable is a word. -/
lemma numberedVariable_mem_wordy (n : ℕ) : numberedVariable n ∈ wordy := by
  intro c hc
  have hplain : Reader.isPlainChar c = true := (isRun_numberedVariable n).2 c hc
  constructor
  · rintro rfl
    exact absurd hplain (ne_true_of_eq_false (Reader.isPlainChar_eq_false (by decide)))
  · rintro rfl
    exact absurd hplain (ne_true_of_eq_false (Reader.isPlainChar_eq_false (by decide)))

/-- The entries of a canonical form are delimited, and so are the names of their variables. -/
theorem delimited_form {cs : List Clause} (hcs : ∀ c ∈ cs, c.Delimited Set.univ) (bound : ℕ) :
    ∀ c ∈ (form bound cs).clauses, c.Delimited wordy := by
  obtain ⟨ds, hds, -, hclauses, -⟩ := form_eq_inOrder bound cs
  intro c hc
  rw [hclauses] at hc
  obtain ⟨d, hd, rfl⟩ := List.mem_map.1 hc
  exact (hds.delimited hcs d hd).rename fun v _ => numberedVariable_mem_wordy _

theorem delimited_canonicalRule {r : Rule} (hr : r.Delimited Set.univ) (bound : ℕ) :
    (canonicalRule bound r).Delimited wordy := by
  obtain ⟨d, hd, hvalue, -⟩ := rule_eq_inOrder bound r
  rw [Rule.Delimited, hvalue]
  exact (hd.delimited hr).rename fun v _ => numberedVariable_mem_wordy _

/-! ## Keys determine canonical forms -/

/-- Canonical forms with one key have the same entries. -/
theorem clauses_form_eq {bound bound' : ℕ} {cs ds : List Clause}
    (hcs : ∀ c ∈ cs, c.Delimited Set.univ) (hds : ∀ d ∈ ds, d.Delimited Set.univ)
    (h : (form bound cs).key = (form bound' ds).key) :
    (form bound cs).clauses = (form bound' ds).clauses := by
  obtain ⟨-, -, -, -, hkey⟩ := form_eq_inOrder bound cs
  obtain ⟨-, -, -, -, hkey'⟩ := form_eq_inOrder bound' ds
  rw [hkey, hkey'] at h
  exact Clause.joinWith_render_inj (delimited_form hcs bound) (delimited_form hds bound') h

/-- Canonical rules with one key are one rule. -/
theorem canonicalRule_eq {bound bound' : ℕ} {r r' : Rule} (hr : r.Delimited Set.univ)
    (hr' : r'.Delimited Set.univ) (h : ruleKey bound r = ruleKey bound' r') :
    canonicalRule bound r = canonicalRule bound' r' := by
  obtain ⟨-, -, -, hkey⟩ := rule_eq_inOrder bound r
  obtain ⟨-, -, -, hkey'⟩ := rule_eq_inOrder bound' r'
  rw [hkey, hkey', ← Rule.render_toClause, ← Rule.render_toClause] at h
  obtain ⟨hclause, -⟩ := Clause.render_append_inj (delimited_canonicalRule hr bound)
    (delimited_canonicalRule hr' bound') (congrArg (·.toList ++ []) h)
  exact toClause_injective hclause

/-! ## Lists with one key -/

/-- Lists that two renamings, each of which keeps variables apart, take to one list are equal up to
such a renaming. -/
lemma exists_renaming_of_map_rename_eq {μ ν : Variable → Variable} {cs ds : List Clause}
    (hν : Set.InjOn ν {v | v ∈ cs.flatMap Clause.mentions})
    (hμ : Set.InjOn μ {v | v ∈ ds.flatMap Clause.mentions})
    (h : cs.map (Clause.rename ν) = ds.map (Clause.rename μ)) :
    ∃ σ : Variable → Variable, Set.InjOn σ {v | v ∈ cs.flatMap Clause.mentions} ∧
      cs.map (Clause.rename σ) = ds := by
  -- the second renaming is undone behind the first
  let back := Function.invFunOn μ {v | v ∈ ds.flatMap Clause.mentions}
  have hback : ∀ v ∈ ds.flatMap Clause.mentions, back (μ v) = v :=
    fun v hv => hμ.leftInvOn_invFunOn hv
  have hmentions : (cs.flatMap Clause.mentions).map ν = (ds.flatMap Clause.mentions).map μ := by
    have hmap := congrArg (List.flatMap Clause.mentions) h
    simpa only [List.flatMap_map, Clause.mentions_rename, ← List.map_flatMap] using hmap
  have hshared : ∀ v ∈ cs.flatMap Clause.mentions,
      ∃ w ∈ ds.flatMap Clause.mentions, μ w = ν v :=
    fun v hv => List.mem_map.1 (hmentions ▸ List.mem_map_of_mem hv)
  refine ⟨back ∘ ν, fun v hv w hw heq => hν hv hw ?_, ?_⟩
  · obtain ⟨v', hv', hvv'⟩ := hshared v hv
    obtain ⟨w', hw', hww'⟩ := hshared w hw
    simp only [Function.comp_apply, ← hvv', ← hww', hback v' hv', hback w' hw'] at heq
    rw [← hvv', ← hww', heq]
  · calc cs.map (Clause.rename (back ∘ ν))
        = (cs.map (Clause.rename ν)).map (Clause.rename back) := by
          rw [List.map_map]
          exact List.map_congr_left fun c _ => (Clause.rename_rename ν back c).symm
      _ = (ds.map (Clause.rename μ)).map (Clause.rename back) := by rw [h]
      _ = ds := by
          rw [List.map_map]
          refine (List.map_congr_left fun d hd => ?_).trans (List.map_id ds)
          refine (Clause.rename_rename μ back d).trans ?_
          refine (Clause.rename_congr fun v hv => ?_).trans (Clause.rename_id d)
          exact hback v (List.mem_flatMap.2 ⟨d, hd, hv⟩)

/-- Delimited lists of clauses with one key are rearrangements of each other, up to a renaming
that keeps variables apart. -/
theorem exists_renaming_of_key_eq {bound bound' : ℕ} {cs ds : List Clause}
    (hcs : ∀ c ∈ cs, c.Delimited Set.univ) (hds : ∀ d ∈ ds, d.Delimited Set.univ)
    (h : (form bound cs).key = (form bound' ds).key) :
    ∃ σ : Variable → Variable, Set.InjOn σ {v | v ∈ cs.flatMap Clause.mentions} ∧
      Clause.Rearranged (cs.map (Clause.rename σ)) ds := by
  obtain ⟨cs', hcs', -, hclauses, -⟩ := form_eq_inOrder bound cs
  obtain ⟨ds', hds', -, hclauses', -⟩ := form_eq_inOrder bound' ds
  have hsame := clauses_form_eq hcs hds h
  rw [hclauses, hclauses'] at hsame
  obtain ⟨σ, hσ, hto⟩ := exists_renaming_of_map_rename_eq
    ((numbering_injOn _).mono fun v hv => mem_order_iff.2 ((hcs'.mem_mentions v).2 hv))
    ((numbering_injOn _).mono fun v hv => mem_order_iff.2 ((hds'.mem_mentions v).2 hv)) hsame
  refine ⟨σ, hσ.mono fun v hv => (hcs'.mem_mentions v).1 hv, ?_⟩
  have hrenamed : Clause.Rearranged (cs.map (Clause.rename σ)) (cs'.map (Clause.rename σ)) :=
    hcs'.map_subst _
  rw [hto] at hrenamed
  exact hrenamed.trans hds'.symm

end RuleFlow.Canonical
