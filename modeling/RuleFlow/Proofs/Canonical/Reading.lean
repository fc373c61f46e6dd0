import Mathlib.Control.Monad.Basic
import RuleFlow.Proofs.Canonical.InOrder
import RuleFlow.Proofs.Reader.ReadBack

/-!
# Canonical forms read back

A canonical form has numbered variables and rearranged clauses, so it is legible when the
clauses it is made of are. Its text is the written form of its clauses, and reading takes one
back to the other (`clauseList_key`, `singleRule_ruleKey`). Hence a key determines the clauses
of its form (`clauses_eq_of_key_eq`).
-/

namespace RuleFlow

open Reader

/-! ## Legible clauses under renaming and rearrangement -/

theorem Term.Legible.rename {σ : Variable → Variable} (hσ : ∀ v, IsRun isPlainChar (σ v).name)
    {t : Term} (h : t.Legible) : (t.rename σ).Legible := by
  cases t with
  | var v => exact hσ v
  | _ => exact h

namespace Clause

/-- A legible clause stays so when its variables are renamed to legible ones. -/
theorem Legible.rename {σ : Variable → Variable} (hσ : ∀ v, IsRun isPlainChar (σ v).name)
    {c : Clause} (h : c.Legible) : (c.rename σ).Legible := by
  induction c with
  | pattern p =>
    cases h with
    | pattern hp =>
    rw [rename_pattern]
    refine .pattern fun t ht => ?_
    obtain ⟨u, hu, rfl⟩ : ∃ u ∈ p.terms, u.rename σ = t := List.mem_map.1 ht
    exact (hp u hu).rename hσ
  | functor f =>
    cases h with
    | functor hf =>
    rw [rename_functor]
    refine .functor ⟨hf.1, fun t ht => ?_⟩
    obtain ⟨u, hu, rfl⟩ : ∃ u ∈ f.args, u.rename σ = t := List.mem_map.1 ht
    exact (hf.2 u hu).rename hσ
  | nested name body head ihb ihh =>
    cases h with
    | nested hn hb hh =>
    rw [rename_nested]
    refine .nested hn (fun c hc => ?_) fun c hc => ?_
    · obtain ⟨d, hd, rfl⟩ := List.mem_map.1 hc
      exact ihb d hd (hb d hd)
    · obtain ⟨d, hd, rfl⟩ := List.mem_map.1 hc
      exact ihh d hd (hh d hd)

/-- Clauses similar to legible ones are legible. -/
theorem Similar.legible {c d : Clause} (h : Similar c d) (hc : c.Legible) : d.Legible := by
  induction c generalizing d with
  | pattern p => rwa [similar_pattern_iff.1 h]
  | functor f => rwa [similar_functor_iff.1 h]
  | nested name body head ihb ihh =>
    obtain ⟨body', head', rfl, ⟨bs, hbs, pb⟩, ⟨hs, hhs, ph⟩⟩ := similar_nested_iff.1 h
    cases hc with
    | nested hn hb hh =>
    refine .nested hn ?_ ?_
    · exact forall_mem_of_forall₂ (forall₂_of_similar (fun c hc _ hd => ihb c hc hd) hbs) pb hb
    · exact forall_mem_of_forall₂ (forall₂_of_similar (fun c hc _ hd => ihh c hc hd) hhs) ph hh

/-- A rearranged list is legible. -/
theorem Rearranged.legible {cs ds : List Clause} (h : Rearranged cs ds)
    (hcs : ∀ c ∈ cs, c.Legible) : ∀ d ∈ ds, d.Legible := by
  obtain ⟨es, hs, hp⟩ := h
  exact forall_mem_of_forall₂ (hs.imp fun _ _ hcd => hcd.legible) hp hcs

end Clause

namespace Canonical

/-! ## Keys read back -/

/-- The name of a numbered variable is a number. -/
lemma isRun_numberedVariable (n : ℕ) : IsRun isPlainChar (numberedVariable n).name := by
  have hdigits : (numberedVariable n).name.toList = Nat.toDigits 10 n := Nat.toList_repr
  rw [IsRun, hdigits]
  refine ⟨Nat.toDigits_ne_nil, fun c hc => ?_⟩
  have hdigit : c.isDigit = true := Nat.isDigit_of_mem_toDigits (by omega) (by omega) hc
  have halnum : Text.isAlphanumeric c = true := by
    simp [Text.isAlphanumeric, Text.isNumeric_of_isDigit hdigit]
  simp [isPlainChar, halnum]

section
variable {bound : ℕ} {cs : List Clause} (hcs : ∀ c ∈ cs, c.Legible)
include hcs

/-- The entries of a canonical form are legible. -/
theorem legible_form : ∀ c ∈ (form bound cs).clauses, c.Legible := by
  obtain ⟨ds, hds, -, hclauses, -⟩ := form_eq_inOrder bound cs
  intro c hc
  rw [hclauses] at hc
  obtain ⟨d, hd, rfl⟩ := List.mem_map.1 hc
  exact (hds.legible hcs d hd).rename fun v => isRun_numberedVariable _

/-- A key reads back as the clauses of its form. -/
theorem clauseList_key (ps : Prefixes) :
    clauseList ps (form bound cs).key = .ok (form bound cs).clauses := by
  obtain ⟨-, -, -, -, hkey⟩ := form_eq_inOrder bound cs
  rw [hkey]
  exact clauseList_render ps (legible_form hcs)

/-- Forms with one key have the same clauses. -/
theorem clauses_eq_of_key_eq {bound' : ℕ} {ds : List Clause} (hds : ∀ d ∈ ds, d.Legible)
    (h : (form bound cs).key = (form bound' ds).key) :
    (form bound cs).clauses = (form bound' ds).clauses := by
  have hread : clauseList .standard (form bound cs).key = .ok (form bound cs).clauses :=
    clauseList_key hcs .standard
  rw [h, clauseList_key hds] at hread
  exact (Except.ok.inj hread).symm

end

theorem legible_canonicalRule {r : Rule} (hr : r.Legible) (bound : ℕ) :
    (canonicalRule bound r).Legible := by
  obtain ⟨d, hd, hvalue, -⟩ := rule_eq_inOrder bound r
  rw [Rule.Legible, hvalue]
  exact (hd.legible hr).rename fun v => isRun_numberedVariable _

/-- The key of a rule reads back as its canonical form. -/
theorem singleRule_ruleKey (ps : Prefixes) {r : Rule} (hr : r.Legible) (bound : ℕ) :
    singleRule ps (ruleKey bound r) = .ok (canonicalRule bound r) := by
  obtain ⟨-, -, -, hkey⟩ := rule_eq_inOrder bound r
  rw [hkey]
  exact singleRule_render ps (legible_canonicalRule hr bound)

/-- Whatever was read from a text is written in a form that reads back as it is: rules as they
are, their keys as their canonical forms, and the keys of clauses as theirs. -/
theorem written_reads_back (text : String) :
    (∀ rules, (document .standard text).2 = .ok rules → ∀ r ∈ rules,
      singleRule .standard r.render = .ok r ∧
      ∀ bound, singleRule .standard (ruleKey bound r) = .ok (canonicalRule bound r)) ∧
    (∀ cs, clauseList .standard text = .ok cs →
      ∀ bound, clauseList .standard (form bound cs).key = .ok (form bound cs).clauses) := by
  refine ⟨fun rules hread r hr => ?_, fun cs hread bound => ?_⟩
  · have hlegible : r.Legible :=
      (legible_of_document Prefixes.legible_standard (Prod.ext rfl hread)).2 r hr
    exact ⟨singleRule_render .standard hlegible, singleRule_ruleKey .standard hlegible⟩
  · exact clauseList_key (legible_of_clauseList Prefixes.legible_standard hread) .standard

/-- A rule with a functor, literals and a rule inside, which is also a list of one clause. -/
theorem written_reads_back_of_rule :
    let text := "[ n : (?x rdf:type \"a\\n\"@EN) f(?x, 5) -> [ -> g() ] ] // end"
    let r : Rule := ⟨some "n",
      [.pattern ⟨.var ⟨"x"⟩, .iri (Vocabulary.rdf ++ "type"), .literal ⟨"a\n", .tagged "en"⟩⟩,
        .functor ⟨"f", [.var ⟨"x"⟩, .literal ⟨"5", .typed (Vocabulary.xsd ++ "integer")⟩]⟩],
      [.nested none [] [.functor ⟨"g", []⟩]]⟩
    (document .standard text).2 = .ok [r] ∧ clauseList .standard text = .ok [r.toClause] ∧
    singleRule .standard r.render = .ok r ∧
    singleRule .standard (ruleKey 720 r) = .ok (canonicalRule 720 r) ∧
    clauseList .standard (form 720 [r.toClause]).key = .ok (form 720 [r.toClause]).clauses := by
  intro text r
  have hrule : (document .standard text).2 = .ok [r] := by decide +kernel
  have hclauses : clauseList .standard text = .ok [r.toClause] := by decide +kernel
  obtain ⟨hrules, hforms⟩ := written_reads_back text
  obtain ⟨hrender, hkey⟩ := hrules [r] hrule r (List.mem_singleton.2 rfl)
  exact ⟨hrule, hclauses, hrender, hkey 720, hforms _ hclauses 720⟩

end Canonical
end RuleFlow
