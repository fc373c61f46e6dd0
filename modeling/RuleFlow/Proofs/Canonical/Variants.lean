import RuleFlow.Proofs.Canonical.Distinct
import RuleFlow.Proofs.Canonical.Renaming

/-!
# Rules with other names and in another order

A variant of a rule has its clauses in any order, with the variables renamed. The canonical form
of a rule settles the order of the body before the head is looked at: among the orders of the
body with the smallest text it takes the first one that it comes to, and the head gets the
numbers that this one leaves. So names never matter (`canonicalRule_rename`), and neither does the
order of the head. The order of the body matters exactly when two of its orders with the smallest
text leave different texts to the head (`ruleKey_variant`).
-/

namespace RuleFlow

/-- The second rule has the name of the first and its clauses in any order, with the variables
renamed in a way that keeps them apart. -/
def Rule.Variant (r r' : Rule) : Prop :=
  ∃ σ : Variable → Variable, Set.InjOn σ {v | v ∈ r.variables} ∧ r'.name = r.name ∧
    (r.rename σ).body.Perm r'.body ∧ (r.rename σ).head.Perm r'.head

namespace Canonical

/-- The texts of the head behind the orders of the body that have the smallest text. -/
def headTexts (bound : ℕ) (r : Rule) : List String :=
  (((orders Clause.blindKey bound r.body).map fun o => together (o.map (clause bound)) []).filter
    fun b => b.text = (clauses bound r.body []).text).map
    fun b => (clauses bound r.head b.seen).text

/-- One text is left to the head, whichever order of the body is taken. -/
def HeadSettled (bound : ℕ) (r : Rule) : Prop :=
  ∀ s ∈ headTexts bound r, ∀ t ∈ headTexts bound r, s = t

instance (bound : ℕ) (r : Rule) : Decidable (HeadSettled bound r) :=
  inferInstanceAs (Decidable (∀ s ∈ headTexts bound r, ∀ t ∈ headTexts bound r, s = t))

section
variable {bound : ℕ} {r r' : Rule}

/-- The texts of the head come from the orders of the body that give its text. -/
lemma mem_headTexts {s : String} : s ∈ headTexts bound r ↔
    ∃ o ∈ orders Clause.blindKey bound r.body,
      (together (o.map (clause bound)) []).text = (clauses bound r.body []).text ∧
      (clauses bound r.head (together (o.map (clause bound)) []).seen).text = s := by
  simp only [headTexts, List.mem_map, List.mem_filter, decide_eq_true_eq]
  constructor
  · rintro ⟨_, ⟨⟨o, ho, rfl⟩, htext⟩, hs⟩
    exact ⟨o, ho, htext, hs⟩
  · rintro ⟨o, ho, htext, hs⟩
    exact ⟨_, ⟨⟨o, ho, rfl⟩, htext⟩, hs⟩

/-! ## Orders -/

/-- The key of a rule in another order has one of the texts that the body leaves to the head. -/
lemma exists_ruleKey_eq (hname : r'.name = r.name) (hbody : r.body.Perm r'.body)
    (hhead : r.head.Perm r'.head) (hb : tieCount (r.body.map Clause.blindKey) ≤ bound)
    (hh : tieCount (r.head.map Clause.blindKey) ≤ bound) :
    ∃ s ∈ headTexts bound r,
      ruleKey bound r' = ruleText r.name (clauses bound r.body []).text s := by
  obtain ⟨o, ho, heq⟩ := clauses_eq_together bound r'.body []
  have htext : (together (o.map (clause bound)) []).text = (clauses bound r.body []).text := by
    rw [← heq, text_clauses_perm hbody hb]
  refine ⟨_, mem_headTexts.2 ⟨o, (mem_orders_perm hbody hb).2 ho, htext, rfl⟩, ?_⟩
  rw [ruleKey_eq, hname, heq, htext, text_clauses_perm hhead hh]

/-- Each text that the body leaves to the head is in the key of the rule in some order. -/
lemma ruleKey_of_mem_orders {o : List Clause} (hb : tieCount (r.body.map Clause.blindKey) ≤ bound)
    (ho : o ∈ orders Clause.blindKey bound r.body)
    (htext : (together (o.map (clause bound)) []).text = (clauses bound r.body []).text) :
    ruleKey bound { r with body := o } = ruleText r.name (clauses bound r.body []).text
      (clauses bound r.head (together (o.map (clause bound)) []).seen).text := by
  obtain ⟨hperm, hsorted⟩ := (mem_orders_iff (by rwa [tieSpace_ties])).1 ho
  -- from this order the search sets out, and it finds nothing smaller
  have hstay : clauses bound o [] = together (o.map (clause bound)) [] := by
    refine clauses_eq_together_self hsorted fun o' ho' => ?_
    rw [htext]
    exact text_clauses_le [] ((mem_orders_perm hperm.symm hb).2 ho')
  rw [ruleKey_eq, hstay, htext]

/-- The text of a rule tells the text of its head. -/
private lemma ruleText_inj {name : Option String} {body head head' : String}
    (h : ruleText name body head = ruleText name body head') : head = head' := by
  have hif : (if head.isEmpty then "" else " " ++ head) =
      if head'.isEmpty then "" else " " ++ head' := by
    simpa [ruleText, String.append_assoc, String.append_left_inj, String.append_right_inj] using h
  by_cases he : head.isEmpty <;> by_cases he' : head'.isEmpty <;> simp [he, he'] at hif
  · rw [String.isEmpty_iff.1 he, String.isEmpty_iff.1 he']
  · exact hif

/-- A permuted rule is a variant. -/
lemma variant_of_perm (hname : r'.name = r.name) (hbody : r.body.Perm r'.body)
    (hhead : r.head.Perm r'.head) : r.Variant r' := by
  have hid : ∀ cs : List Clause, cs.map (Clause.rename id) = cs := fun cs =>
    (List.map_congr_left fun c _ => Clause.rename_id c).trans (List.map_id cs)
  refine ⟨id, Set.injOn_id _, hname, ?_, ?_⟩
  · show (r.body.map (Clause.rename id)).Perm r'.body
    rwa [hid]
  · show (r.head.map (Clause.rename id)).Perm r'.head
    rwa [hid]

/-- A variant is a permuted rule with its variables renamed. -/
lemma exists_perm_of_variant (h : r.Variant r') :
    ∃ (s : Rule) (σ : Variable → Variable), Set.InjOn σ {v | v ∈ s.variables} ∧
      s.name = r.name ∧ r.body.Perm s.body ∧ r.head.Perm s.head ∧ r' = s.rename σ := by
  obtain ⟨σ, hσ, hname, hbody, hhead⟩ := h
  have hback : ∀ cs ds : List Clause, (cs.map (Clause.rename σ)).Perm ds →
      ∃ es : List Clause, ds = es.map (Clause.rename σ) ∧ es.Perm cs := by
    intro cs ds hp
    have hcomp : Relation.Comp (fun a b => a = b.map (Clause.rename σ)) List.Perm ds cs := by
      rw [List.eq_map_comp_perm]
      exact hp.symm
    exact hcomp
  obtain ⟨body, hbody, hb⟩ := hback _ _ hbody
  obtain ⟨head, hhead, hh⟩ := hback _ _ hhead
  refine ⟨⟨r.name, body, head⟩, σ, hσ.mono fun v hv => ?_, rfl, hb.symm, hh.symm, ?_⟩
  · have hmentions := mem_variables_iff.1 hv
    rw [Rule.toClause, Clause.mentions_nested] at hmentions
    refine mem_variables_iff.2 ?_
    rw [Rule.toClause, Clause.mentions_nested]
    exact ((hb.append hh).flatMap_right _).mem_iff.1 hmentions
  · calc r' = ⟨r'.name, r'.body, r'.head⟩ := rfl
      _ = Rule.rename σ ⟨r.name, body, head⟩ := by rw [hname, hbody, hhead]; rfl

/-- The names are kept and the parts stay delimited in a variant. -/
lemma delimited_of_variant (h : r.Variant r') (hr : r.Delimited Set.univ) :
    r'.Delimited Set.univ := by
  obtain ⟨σ, -, hname, hbody, hhead⟩ := h
  have hsimilar : (r.toClause.rename σ).Similar r'.toClause := by
    rw [Rule.toClause, Clause.rename_nested, Rule.toClause, hname]
    exact Clause.similar_nested_iff.2 ⟨_, _, rfl, .of_perm hbody, .of_perm hhead⟩
  exact hsimilar.delimited (hr.rename fun _ _ => Set.mem_univ _)

/-- Keys and canonical forms of rules do not see the names of variables, and keys do not see the
order of the head. They do not see the order of the body either exactly when one text is left to
the head, whichever order of the body with the smallest text is taken. Delimited variants with
one key have one canonical form. -/
theorem ruleKey_variant (hb : tieCount (r.body.map Clause.blindKey) ≤ bound)
    (hh : tieCount (r.head.map Clause.blindKey) ≤ bound) :
    (∀ σ : Variable → Variable, Set.InjOn σ {v | v ∈ r.variables} →
      canonicalRule bound (r.rename σ) = canonicalRule bound r ∧
      ∀ head, (r.rename σ).head.Perm head →
        ruleKey bound { r.rename σ with head := head } = ruleKey bound r) ∧
    (HeadSettled bound r ↔ ∀ r', r.Variant r' → ruleKey bound r' = ruleKey bound r) ∧
    (r.Delimited Set.univ → ∀ r', r.Variant r' → ruleKey bound r' = ruleKey bound r →
      canonicalRule bound r' = canonicalRule bound r) := by
  refine ⟨fun σ hσ => ?_, ⟨fun hsettled r' hr' => ?_, fun hkeys s hs t ht => ?_⟩,
    fun hr r' hr' hkey => canonicalRule_eq (delimited_of_variant hr' hr) hr hkey⟩
  · obtain ⟨hform, hkey⟩ := canonicalRule_rename bound hσ
    refine ⟨hform, fun head hp => ?_⟩
    have hties : tieCount ((r.rename σ).head.map Clause.blindKey) ≤ bound := by
      rwa [Rule.rename, Clause.map_blindKey_rename]
    rw [← hkey, ruleKey_eq, ruleKey_eq, text_clauses_perm hp hties]
  · obtain ⟨s, σ, hσ, hname, hbody, hhead, rfl⟩ := exists_perm_of_variant hr'
    rw [(canonicalRule_rename bound hσ).2]
    obtain ⟨t, ht, heq⟩ := exists_ruleKey_eq hname hbody hhead hb hh
    obtain ⟨t', ht', heq'⟩ := exists_ruleKey_eq rfl (.refl r.body) (.refl r.head) hb hh
    rw [heq, heq', hsettled t ht t' ht']
  · -- the rule in the order that leaves a text to the head is a variant with this text in its key
    have hkey : ∀ u ∈ headTexts bound r,
        ruleKey bound r = ruleText r.name (clauses bound r.body []).text u := by
      intro u hu
      obtain ⟨o, ho, htext, rfl⟩ := mem_headTexts.1 hu
      have hvariant : r.Variant { r with body := o } :=
        variant_of_perm rfl (perm_of_mem_orders ho).symm (.refl _)
      rw [← hkeys _ hvariant, ruleKey_of_mem_orders hb ho htext]
    exact ruleText_inj ((hkey s hs).symm.trans (hkey t ht))

/-- Two orders of the body have the smallest text, and the head says the same behind both. -/
theorem ruleKey_variant_of_symmetry :
    let edge (p v w : String) : Clause := .pattern ⟨.var ⟨v⟩, .iri p, .var ⟨w⟩⟩
    let r : Rule := ⟨some "my rule", [edge "p" "a" "b", edge "p" "c" "d"],
      [edge "q" "a" "b", edge "q" "c" "d"]⟩
    let r' : Rule := ⟨some "my rule", [edge "p" "z" "w", edge "p" "x y" "b"],
      [edge "q" "x y" "b", edge "q" "z" "w"]⟩
    tieCount (r.body.map Clause.blindKey) = 2 ∧ tieCount (r.head.map Clause.blindKey) = 2 ∧
    (headTexts 2 r).length = 2 ∧ ruleKey 2 r' = ruleKey 2 r ∧
    canonicalRule 2 r' = canonicalRule 2 r := by
  intro edge r r'
  have hb : tieCount (r.body.map Clause.blindKey) = 2 := by decide +kernel
  have hh : tieCount (r.head.map Clause.blindKey) = 2 := by decide +kernel
  have hdelimited : r.Delimited Set.univ := by
    have hname : IsTitle "my rule" := by decide
    have hiri : ∀ p ∈ ["p", "q"], IsEnclosed p := by decide
    have hedges : ∀ p ∈ ["p", "q"], ∀ v w v' w',
        ∀ c ∈ [edge p v w, edge p v' w'], c.Delimited Set.univ := by
      intro p hp v w v' w'
      refine List.forall_mem_cons.2 ⟨.pattern ?_, List.forall_mem_singleton.2 (.pattern ?_)⟩
      · exact Pattern.delimited_iff.2 ⟨trivial, hiri p hp, trivial⟩
      · exact Pattern.delimited_iff.2 ⟨trivial, hiri p hp, trivial⟩
    exact .nested (fun n hn => Option.mem_some_iff.1 hn ▸ hname)
      (hedges "p" (by decide) _ _ _ _) (hedges "q" (by decide) _ _ _ _)
  have hvariant : r.Variant r' := by
    let σ : Variable → Variable := fun v => if v.name = "a" then ⟨"x y"⟩ else
      if v.name = "b" then ⟨"b"⟩ else if v.name = "c" then ⟨"z"⟩ else ⟨"w"⟩
    have hapart : ∀ v ∈ r.variables, ∀ w ∈ r.variables, σ v = σ w → v = w := by decide
    exact ⟨σ, fun v hv w hw => hapart v hv w hw, rfl, by decide, by decide⟩
  obtain ⟨-, hsettled, hform⟩ := ruleKey_variant hb.le hh.le
  have hkey : ruleKey 2 r' = ruleKey 2 r :=
    hsettled.1 (by decide +kernel) r' hvariant
  exact ⟨hb, hh, by decide +kernel, hkey, hform hdelimited r' hvariant hkey⟩

/-- Two orders of the body have the smallest text, and the head says something else behind each:
swapping the body changes the key. -/
theorem ruleKey_of_swapped_body :
    let edge (p v w : String) : Clause := .pattern ⟨.var ⟨v⟩, .iri p, .var ⟨w⟩⟩
    let r : Rule := ⟨some "r", [edge "p" "a" "b", edge "p" "c" "d"], [edge "q" "a" "b"]⟩
    let r' : Rule := ⟨some "r", [edge "p" "c" "d", edge "p" "a" "b"], [edge "q" "a" "b"]⟩
    r.Variant r' ∧ tieCount (r.body.map Clause.blindKey) ≤ defaultBound ∧
    tieCount (r.head.map Clause.blindKey) ≤ defaultBound ∧
    ¬ (canonicalRule defaultBound r = canonicalRule defaultBound r' ∧
      ruleKey defaultBound r = ruleKey defaultBound r') := by
  intro edge r r'
  refine ⟨variant_of_perm rfl (List.Perm.swap _ _ _) (.refl _), ?_⟩
  decide +kernel

end
end Canonical
end RuleFlow
