import RuleFlow.Proofs.Canonical.Renaming

/-!
# Canonical forms are faithful

Nothing is lost, doubled or mixed up in a canonical form. Its `order` has every variable of the
list once, putting these back in the place of their numbers gives a rearrangement of the list,
and the numbers are given in the order in which the form itself is read
(`CanonicalForm.Represents`). The body and the head of a rule get their numbers together
(`Rule.Represents`). The variables may be called by numbers already: numbers are put in for all
of them at once, and so are the variables for their numbers.

The text of a canonical form is built beside the form, by other functions than those that write
clauses. Both agree on every clause, list and rule (`text_eq_render`).
-/

namespace RuleFlow

/-- The variable that a number of the form stands for; other variables stand for themselves. -/
def CanonicalForm.original (f : CanonicalForm) (v : Variable) : Variable :=
  ((f.vars.zip f.order).lookup v).getD v

/-- The list can be read off the form, but for the order of clauses. -/
structure CanonicalForm.Represents (f : CanonicalForm) (cs : List Clause) : Prop where
  /-- No variable has two numbers. -/
  nodup : f.order.Nodup
  /-- The variables with numbers are those of the list. -/
  perm_order : f.order.Perm (Clause.variablesOf cs)
  /-- Each number stands for the variable at its place. -/
  map_original : f.vars.map f.original = f.order
  /-- With the variables in the place of their numbers the form is the list rearranged. -/
  rearranged : Clause.Rearranged cs (f.clauses.map (Clause.rename f.original))
  /-- The form mentions the numbers one after another. -/
  numbered : Clause.variablesOf f.clauses = f.vars

/-- The second rule is the first one with its variables numbered and its clauses rearranged. -/
structure Rule.Represents (s r : Rule) : Prop where
  /-- The name is kept. -/
  name : s.name = r.name
  /-- The body and the head are rearranged behind one renaming that pairs off the variables. -/
  rearranged : ∃ σ : Variable → Variable,
    Set.BijOn σ {v | v ∈ r.variables} {v | v ∈ s.variables} ∧
    Clause.Rearranged (r.body.map (Clause.rename σ)) s.body ∧
    Clause.Rearranged (r.head.map (Clause.rename σ)) s.head
  /-- The rule mentions the numbers one after another. -/
  numbered : s.variables = Canonical.numberedVariables r.variables.length

namespace Canonical

/-! ## Variables of renamed clauses -/

/-- Renamed variables are noted in the same order. -/
lemma note_map {σ : Variable → Variable} (hσ : Function.Injective σ) (seen vs : List Variable) :
    note (seen.map σ) (vs.map σ) = (note seen vs).map σ := by
  induction vs generalizing seen with
  | nil => rfl
  | cons v vs ih =>
    show note ((σ v).noteIn (seen.map σ)) (vs.map σ) = _
    rw [noteIn_map hσ, ih]
    rfl

/-- It is enough that the renaming keeps apart what is mentioned. -/
lemma note_nil_map {σ : Variable → Variable} {vs : List Variable}
    (hσ : Set.InjOn σ {v | v ∈ vs}) : note [] (vs.map σ) = (note [] vs).map σ := by
  obtain ⟨τ, hτ, hagree⟩ := exists_injective_extension hσ
  have hmap : ∀ ws : List Variable, (∀ w ∈ ws, w ∈ vs) → ws.map σ = ws.map τ :=
    fun ws hws => List.map_congr_left fun w hw => (hagree w (hws w hw)).symm
  have hnote : ∀ w ∈ note [] vs, w ∈ vs :=
    fun w hw => (mem_note.1 hw).resolve_left List.not_mem_nil
  rw [hmap vs fun _ hw => hw, hmap _ hnote]
  exact note_map hτ [] vs

/-- The variables of a list are noted as they are mentioned. -/
lemma variablesOf_eq_note (cs : List Clause) :
    Clause.variablesOf cs = note [] (cs.flatMap Clause.mentions) :=
  congrArg (note []) (Clause.mentionsOfAll_eq_flatMap cs)

lemma variables_eq_note (r : Rule) : r.variables = note [] r.toClause.mentions := by
  rw [Rule.variables, variablesOf_eq_note, Rule.toClause, Clause.mentions_nested]

/-- Variables that are numbered in the order of their mentions are read in the order of their
numbers. -/
lemma note_map_numbering (vs : List Variable) :
    note [] (vs.map (numbering (note [] vs))) = numberedVariables (note [] vs).length := by
  have hapart : Set.InjOn (numbering (note [] vs)) {v | v ∈ vs} :=
    (numbering_injOn _).mono fun v hv => mem_note.2 (.inr hv)
  rw [note_nil_map hapart]
  exact map_numbering (nodup_note List.nodup_nil)

/-- What mentions the same variables has them in another order. -/
lemma note_perm {vs ws : List Variable} (h : ∀ v, v ∈ vs ↔ v ∈ ws) :
    (note [] vs).Perm (note [] ws) := by
  rw [List.perm_ext_iff_of_nodup (nodup_note List.nodup_nil) (nodup_note List.nodup_nil)]
  intro v
  simp only [mem_note, List.not_mem_nil, false_or, h]

/-! ## Putting the variables back -/

/-- Among pairs of images and members the image of a member leads back to it. -/
lemma lookup_zip_map {σ : Variable → Variable} {vs : List Variable}
    (hσ : Set.InjOn σ {v | v ∈ vs}) {v : Variable} (hv : v ∈ vs) :
    ((vs.map σ).zip vs).lookup (σ v) = some v := by
  induction vs with
  | nil => exact absurd hv List.not_mem_nil
  | cons w vs ih =>
    rw [List.map_cons, List.zip_cons_cons, List.lookup_cons]
    by_cases heq : σ v = σ w
    · obtain rfl : v = w := hσ hv List.mem_cons_self heq
      simp
    · have hne : v ≠ w := fun e => heq (congrArg σ e)
      have hrest : v ∈ vs := (List.mem_cons.1 hv).resolve_left hne
      rw [beq_eq_false_iff_ne.2 heq]
      exact ih (hσ.mono fun _ => List.mem_cons_of_mem w) hrest

section
variable (bound : ℕ) (cs : List Clause)

/-- The variables of a form are the numbers of those that it comes from. -/
lemma vars_form : (form bound cs).vars =
    (form bound cs).order.map (numbering (form bound cs).order) :=
  (map_numbering (nodup_order bound cs)).symm

/-- A variable is put back for its number. -/
lemma original_numbering {v : Variable} (hv : v ∈ (form bound cs).order) :
    (form bound cs).original (numbering (form bound cs).order v) = v := by
  rw [CanonicalForm.original, vars_form, lookup_zip_map (numbering_injOn _) hv, Option.getD_some]

/-- A list can be read off its canonical form. -/
theorem form_represents : (form bound cs).Represents cs := by
  obtain ⟨ds, hds, horder, hclauses, -⟩ := form_eq_inOrder bound cs
  have hmem : ∀ d ∈ ds, ∀ v ∈ d.mentions, v ∈ (form bound cs).order := by
    intro d hd v hv
    rw [horder]
    exact mem_note.2 (.inr (List.mem_flatMap.2 ⟨d, hd, hv⟩))
  refine ⟨nodup_order bound cs, ?_, ?_, ?_, ?_⟩
  · rw [horder, variablesOf_eq_note]
    exact note_perm fun v => (hds.mem_mentions v).symm
  · rw [vars_form, List.map_map]
    exact (List.map_congr_left fun v hv => original_numbering bound cs hv).trans (List.map_id _)
  · -- renaming to numbers and back leaves the rearranged list as it was
    have hback : (form bound cs).clauses.map (Clause.rename (form bound cs).original) = ds := by
      rw [hclauses, List.map_map]
      refine (List.map_congr_left fun d hd => ?_).trans (List.map_id ds)
      refine (Clause.rename_rename _ _ d).trans ?_
      refine (Clause.rename_congr fun v hv => ?_).trans (Clause.rename_id d)
      exact original_numbering bound cs (hmem d hd v hv)
    rwa [hback]
  · have hmentions : (form bound cs).clauses.flatMap Clause.mentions =
        (ds.flatMap Clause.mentions).map (numbering (form bound cs).order) := by
      rw [hclauses]
      simp only [List.flatMap_map, Clause.mentions_rename, ← List.map_flatMap]
    rw [variablesOf_eq_note, hmentions, CanonicalForm.vars, horder]
    exact note_map_numbering _

end

/-! ## Rules -/

/-- A rule with its clauses rearranged and its variables renamed mentions the renamed variables. -/
lemma mem_variables_of_rearranged {σ : Variable → Variable} {r s : Rule}
    (hbody : Clause.Rearranged (r.body.map (Clause.rename σ)) s.body)
    (hhead : Clause.Rearranged (r.head.map (Clause.rename σ)) s.head) (w : Variable) :
    w ∈ s.variables ↔ ∃ v ∈ r.variables, σ v = w := by
  have hrenamed : ∀ cs : List Clause, (cs.map (Clause.rename σ)).flatMap Clause.mentions =
      (cs.flatMap Clause.mentions).map σ := by
    intro cs
    simp only [List.flatMap_map, Clause.mentions_rename, ← List.map_flatMap]
  simp only [mem_variables_iff, Rule.toClause, Clause.mentions_nested, List.flatMap_append,
    List.mem_append, ← hbody.mem_mentions, ← hhead.mem_mentions, hrenamed, List.mem_map,
    or_and_right, exists_or]

/-- The canonical form of a rule is the rule, numbered and rearranged. -/
theorem canonicalRule_represents (bound : ℕ) (r : Rule) : (canonicalRule bound r).Represents r := by
  refine ⟨rfl, ?_, ?_⟩
  · obtain ⟨σ, hσ, hbody, hhead⟩ := exists_renaming_canonicalRule bound r
    have hmem := mem_variables_of_rearranged hbody hhead
    exact ⟨σ, ⟨fun v hv => (hmem _).2 ⟨v, hv, rfl⟩, hσ, fun w hw => (hmem w).1 hw⟩, hbody, hhead⟩
  · obtain ⟨d, hd, hvalue, -⟩ := rule_eq_inOrder bound r
    have hlength : (note [] d.mentions).length = r.variables.length := by
      rw [variables_eq_note]
      exact (note_perm fun v => (hd.mem_mentions v).symm).length_eq
    rw [variables_eq_note, hvalue, Clause.mentions_rename, note_map_numbering, hlength]

/-- Canonicalization is faithful, whatever the bound of the search is: lists of clauses and rules
can be read off their canonical forms, but for the order of clauses. -/
theorem canonical_represents (bound : ℕ) :
    (∀ cs : List Clause, (form bound cs).Represents cs) ∧
    (∀ r : Rule, (canonicalRule bound r).Represents r) :=
  ⟨form_represents bound, canonicalRule_represents bound⟩

/-- Variables that are called by the numbers of each other. -/
example :
    let edge (s o : String) : Clause := .pattern ⟨.var ⟨s⟩, .iri "p", .var ⟨o⟩⟩
    let cs := [edge "1" "0", .nested none [edge "0" "1"] []]
    let f := form defaultBound cs
    f.clauses = [edge "0" "1", .nested none [edge "1" "0"] []] ∧ f.order = [⟨"1"⟩, ⟨"0"⟩] ∧
    f.clauses.map (Clause.rename f.original) = cs := by decide +kernel

/-! ## Text and value -/

/-- The text that is built beside a canonical form is what writing the form gives, for a clause
behind any variables with numbers, for a list and for a rule. -/
theorem text_eq_render (bound : ℕ) :
    (∀ (c : Clause) (seen : List Variable),
      (clause bound c seen).text = (clause bound c seen).value.render) ∧
    (∀ cs : List Clause,
      (form bound cs).key = Text.joinWith " " ((form bound cs).clauses.map Clause.render)) ∧
    (∀ r : Rule, ruleKey bound r = (canonicalRule bound r).render) := by
  refine ⟨fun c seen => ?_, fun cs => ?_, fun r => ?_⟩
  · obtain ⟨d, -, heq⟩ := clause_eq_inOrder bound c seen
    rw [heq]
    rfl
  · obtain ⟨-, -, -, -, hkey⟩ := form_eq_inOrder bound cs
    exact hkey
  · obtain ⟨-, -, -, hkey⟩ := rule_eq_inOrder bound r
    exact hkey

end Canonical
end RuleFlow
