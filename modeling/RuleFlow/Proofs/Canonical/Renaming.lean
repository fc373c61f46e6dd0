import Mathlib.Data.Set.Function
import RuleFlow.Proofs.Canonical.InOrder

/-!
# Canonical forms do not see names and order

Numbering follows every renaming of variables: the text and the numbered thing stay, and the
variables with numbers are renamed (`clause_follows`, `clauses_follow`). Permuting a list of
clauses does not change which texts are compared when all its ties may be tried
(`text_clauses_perm`). Together these make the key of a list of clauses independent of the
names of its variables and of its order (`key_form_of_renamed_perm`), and the canonical form of a
rule independent of the names (`canonicalRule_rename`).
-/

namespace RuleFlow

/-- The rule with its variables renamed. -/
def Rule.rename (σ : Variable → Variable) (r : Rule) : Rule :=
  ⟨r.name, r.body.map (Clause.rename σ), r.head.map (Clause.rename σ)⟩

namespace Canonical

/-! ## Renamings that are injective everywhere -/

private lemma length_le_concat {names : List String} {s : String} (h : s ∈ names) :
    s.length ≤ (Text.concat names).length := by
  induction names with
  | nil => exact absurd h List.not_mem_nil
  | cons name names ih =>
    rw [Text.concat_cons, String.length_append]
    rcases List.mem_cons.1 h with rfl | h
    · exact Nat.le_add_right _ _
    · exact (ih h).trans (Nat.le_add_left _ _)

/-- A renaming that keeps the variables of a list apart agrees on them with one that keeps all
variables apart. -/
theorem exists_injective_extension {vs : List Variable} {σ : Variable → Variable}
    (h : Set.InjOn σ {v | v ∈ vs}) :
    ∃ τ : Variable → Variable, Function.Injective τ ∧ ∀ v ∈ vs, τ v = σ v := by
  -- the other variables get names that are longer than all names in the list's image
  let taken := vs.map fun v => (σ v).name
  let pad := Text.concat taken ++ "x"
  have hpad : ∀ v ∈ vs, ∀ w : Variable, σ v ≠ ⟨pad ++ w.name⟩ := by
    intro v hv w heq
    have hmem : pad ++ w.name ∈ taken :=
      List.mem_map.2 ⟨v, hv, congrArg Variable.name heq⟩
    have hlen := length_le_concat hmem
    have hone : "x".length = 1 := by decide
    simp only [pad, String.length_append, hone] at hlen
    omega
  refine ⟨fun v => if v ∈ vs then σ v else ⟨pad ++ v.name⟩, ?_, fun v hv => if_pos hv⟩
  intro v w heq
  by_cases hv : v ∈ vs <;> by_cases hw : w ∈ vs <;> simp only [hv, hw, if_true, if_false] at heq
  · exact h hv hw heq
  · exact absurd heq (hpad v hv w)
  · exact absurd heq.symm (hpad w hw v)
  · have hname : v.name = w.name := by simpa using heq
    cases v
    cases w
    exact congrArg Variable.mk hname

/-! ## Numbering follows renamings -/

/-- The same result with the variables that have numbers renamed. -/
def Numbered.mapSeen {α : Type} (σ : Variable → Variable) (r : Numbered α) : Numbered α :=
  ⟨r.text, r.value, r.seen.map σ⟩

section
variable {σ : Variable → Variable} (hσ : Function.Injective σ)
include hσ

/-- Renamed variables are noted where the variables were. -/
lemma noteIn_map (seen : List Variable) (v : Variable) :
    (σ v).noteIn (seen.map σ) = (v.noteIn seen).map σ := by
  by_cases hv : v ∈ seen
  · have hv' : σ v ∈ seen.map σ := (List.mem_map_of_injective hσ).2 hv
    rw [Variable.noteIn, Variable.noteIn, if_pos hv, if_pos hv']
  · have hv' : σ v ∉ seen.map σ := fun h => hv ((List.mem_map_of_injective hσ).1 h)
    rw [Variable.noteIn, Variable.noteIn, if_neg hv, if_neg hv', List.map_append,
      List.map_singleton]

lemma idxOf_map (seen : List Variable) (v : Variable) :
    (seen.map σ).idxOf (σ v) = seen.idxOf v := by
  induction seen with
  | nil => rfl
  | cons w seen ih =>
    by_cases h : w = v
    · simp [h]
    · rw [List.map_cons, List.idxOf_cons_ne _ h, List.idxOf_cons_ne _ (hσ.ne h), ih]

/-- The number of a renamed variable is that of the variable. -/
theorem term_follows (t : Term) (seen : List Variable) :
    term (t.rename σ) (seen.map σ) = (term t seen).mapSeen σ := by
  cases t with
  | var v =>
    show Numbered.mk _ _ _ = Numbered.mk _ _ _
    rw [noteIn_map hσ, idxOf_map hσ]
    rfl
  | _ => rfl

theorem pattern_follows (p : Pattern) (seen : List Variable) :
    pattern (p.rename σ) (seen.map σ) = (pattern p seen).mapSeen σ := by
  have hs := term_follows hσ p.subject seen
  have hq := term_follows hσ p.predicate (term p.subject seen).seen
  have ho := term_follows hσ p.object (term p.predicate (term p.subject seen).seen).seen
  simp only [pattern, Pattern.rename, Pattern.subst, ← Term.rename.eq_1, hs, hq, ho,
    Numbered.mapSeen]

omit hσ in
/-- What is numbered one after another follows a renaming when each thing does. -/
lemma together_follows {α β : Type} {f g : β → Numberer α} {bs : List β}
    (h : ∀ b ∈ bs, ∀ seen, g b (seen.map σ) = (f b seen).mapSeen σ) (seen : List Variable) :
    together (bs.map g) (seen.map σ) = (together (bs.map f) seen).mapSeen σ := by
  suffices hturn : inTurn (bs.map g) (seen.map σ) =
      ((inTurn (bs.map f) seen).1.map (Numbered.mapSeen σ), (inTurn (bs.map f) seen).2.map σ) by
    show Numbered.mk _ _ _ = Numbered.mk _ _ _
    rw [hturn, List.map_map, List.map_map]
    rfl
  induction bs generalizing seen with
  | nil => rfl
  | cons b bs ih =>
    have hrest := ih (fun b' hb' => h b' (List.mem_cons_of_mem _ hb')) (f b seen).seen
    show (g b (seen.map σ) :: (inTurn (bs.map g) (g b (seen.map σ)).seen).1,
      (inTurn (bs.map g) (g b (seen.map σ)).seen).2) = _
    rw [h b List.mem_cons_self]
    show ((f b seen).mapSeen σ :: (inTurn (bs.map g) ((f b seen).seen.map σ)).1,
      (inTurn (bs.map g) ((f b seen).seen.map σ)).2) = _
    rw [hrest]
    rfl

theorem functor_follows (f : Functor) (seen : List Variable) :
    functor (f.rename σ) (seen.map σ) = (functor f seen).mapSeen σ := by
  have hargs : together ((f.args.map (Term.rename σ)).map term) (seen.map σ) =
      (together (f.args.map term) seen).mapSeen σ := by
    rw [List.map_map]
    exact together_follows (fun t _ s => term_follows hσ t s) seen
  show Numbered.mk _ _ _ = Numbered.mk _ _ _
  rw [show (f.rename σ).args = f.args.map (Term.rename σ) from rfl, hargs]
  rfl

omit hσ in
/-- Renaming the variables that have numbers does not change which text is smallest. -/
lemma smallest_mapSeen {α : Type} (best : Numbered α) (rs : List (Numbered α)) :
    smallest (best.mapSeen σ) (rs.map (Numbered.mapSeen σ)) = (smallest best rs).mapSeen σ := by
  induction rs generalizing best with
  | nil => rfl
  | cons r rs ih =>
    have hstep : (if (r.mapSeen σ).text < (best.mapSeen σ).text then r.mapSeen σ
        else best.mapSeen σ) = (if r.text < best.text then r else best).mapSeen σ := by
      show (if r.text < best.text then _ else _) = _
      split <;> rfl
    rw [List.map_cons, smallest, smallest, hstep, ih]

omit hσ in
/-- A renamed list is numbered as the list is when its clauses are. -/
private lemma clauses_follow_of {bound : ℕ} {cs : List Clause}
    (ih : ∀ c ∈ cs, ∀ seen,
      clause bound (c.rename σ) (seen.map σ) = (clause bound c seen).mapSeen σ)
    (seen : List Variable) :
    clauses bound (cs.map (Clause.rename σ)) (seen.map σ) =
      (clauses bound cs seen).mapSeen σ := by
  obtain ⟨r, rs, hrs, heq⟩ := clauses_eq_smallest bound cs seen
  obtain ⟨r', rs', hrs', heq'⟩ :=
    clauses_eq_smallest bound (cs.map (Clause.rename σ)) (seen.map σ)
  -- blind keys stay as they are, so the same orders are tried on both sides
  have hresults : r' :: rs' = (r :: rs).map (Numbered.mapSeen σ) := by
    have hblind : Clause.blindKey ∘ Clause.rename σ = Clause.blindKey :=
      funext (Clause.blindKey_rename σ)
    rw [← hrs, ← hrs', orders_map, hblind, List.map_map, List.map_map]
    apply List.map_congr_left
    intro o ho
    show together ((o.map (Clause.rename σ)).map (clause bound)) (seen.map σ) = _
    rw [List.map_map]
    exact together_follows (fun c hc => ih c ((perm_of_mem_orders ho).subset hc)) seen
  obtain ⟨rfl, rfl⟩ := List.cons.inj hresults
  rw [heq, heq']
  exact smallest_mapSeen r rs

/-- Numbering a clause follows a renaming of its variables. -/
theorem clause_follows (bound : ℕ) (c : Clause) (seen : List Variable) :
    clause bound (c.rename σ) (seen.map σ) = (clause bound c seen).mapSeen σ := by
  induction c generalizing seen with
  | pattern p =>
    rw [Clause.rename_pattern, clause, clause]
    show (pattern (p.rename σ) (seen.map σ)).map Clause.pattern =
      ((pattern p seen).map Clause.pattern).mapSeen σ
    rw [pattern_follows hσ]
    rfl
  | functor f =>
    rw [Clause.rename_functor, clause, clause]
    show (functor (f.rename σ) (seen.map σ)).map Clause.functor =
      ((functor f seen).map Clause.functor).mapSeen σ
    rw [functor_follows hσ]
    rfl
  | nested name body head ihb ihh =>
    have hb := clauses_follow_of ihb seen
    -- the head goes on with the variables that the body leaves
    have hh := clauses_follow_of ihh (clauses bound body seen).seen
    rw [clauses, clauses] at hb hh
    simp only [Clause.rename_nested, clause, ruleOf, hb]
    simp only [Numbered.mapSeen, clauses, Numbered.map, Rule.toClause] at hh ⊢
    rw [hh]

/-- Numbering clauses in their best order follows a renaming of their variables. -/
theorem clauses_follow (bound : ℕ) (cs : List Clause) (seen : List Variable) :
    clauses bound (cs.map (Clause.rename σ)) (seen.map σ) = (clauses bound cs seen).mapSeen σ :=
  clauses_follow_of (fun c _ => clause_follows hσ bound c) seen

end

/-! ## Permuted lists -/

/-- When all ties may be tried, the orders do not depend on the order of the list. -/
lemma mem_orders_perm {bound : ℕ} {cs ds o : List Clause} (hp : cs.Perm ds)
    (hb : tieCount (cs.map Clause.blindKey) ≤ bound) :
    o ∈ orders Clause.blindKey bound cs ↔ o ∈ orders Clause.blindKey bound ds := by
  have hcount := tieCount_perm (hp.map Clause.blindKey)
  rw [mem_orders_iff (by rwa [tieSpace_ties]), mem_orders_iff (by rwa [tieSpace_ties, ← hcount])]
  exact and_congr_left' ⟨fun h => h.trans hp, fun h => h.trans hp.symm⟩

/-- When all ties may be tried, the text of the best order does not depend on the order of the
list. -/
theorem text_clauses_perm {bound : ℕ} {cs ds : List Clause} (hp : cs.Perm ds)
    (hb : tieCount (cs.map Clause.blindKey) ≤ bound) (seen : List Variable) :
    (clauses bound cs seen).text = (clauses bound ds seen).text := by
  obtain ⟨o, ho, heq⟩ := clauses_eq_together bound cs seen
  obtain ⟨o', ho', heq'⟩ := clauses_eq_together bound ds seen
  -- both lists have the same orders, so neither best text is above the other
  refine String.le_antisymm ?_ ?_
  · rw [heq']
    exact text_clauses_le seen ((mem_orders_perm hp hb).2 ho')
  · rw [heq]
    exact text_clauses_le seen ((mem_orders_perm hp hb).1 ho)

/-! ## Canonical forms -/

/-- The canonical form of a list with its variables renamed is the one of the list, but for the
variables with numbers, which are renamed. -/
theorem form_map_rename {σ : Variable → Variable} {cs : List Clause}
    (hσ : Set.InjOn σ {v | v ∈ cs.flatMap Clause.mentions}) (bound : ℕ) :
    form bound (cs.map (Clause.rename σ)) =
      { form bound cs with order := (form bound cs).order.map σ } := by
  -- numbering follows renamings that are injective everywhere
  obtain ⟨τ, hτ, hagree⟩ := exists_injective_extension hσ
  have hmap : cs.map (Clause.rename σ) = cs.map (Clause.rename τ) := by
    refine List.map_congr_left fun c hc => Clause.rename_congr fun v hv => ?_
    exact (hagree v (List.mem_flatMap.2 ⟨c, hc, hv⟩)).symm
  have horder : (form bound cs).order.map σ = (form bound cs).order.map τ := by
    apply List.map_congr_left
    intro v hv
    exact (hagree v (mem_order_iff.1 hv)).symm
  have hfollow : clauses bound (cs.map (Clause.rename τ)) [] = (clauses bound cs []).mapSeen τ :=
    clauses_follow hτ bound cs []
  rw [hmap, horder]
  show CanonicalForm.mk _ _ _ = CanonicalForm.mk _ _ _
  rw [hfollow]
  rfl

/-- The text of a rule is made of those of its body and of its head, numbered one after the other.
-/
lemma ruleKey_eq (bound : ℕ) (r : Rule) : ruleKey bound r =
    ruleText r.name (clauses bound r.body []).text
      (clauses bound r.head (clauses bound r.body []).seen).text :=
  rfl

/-- Canonical forms of rules do not see the names of variables. -/
theorem canonicalRule_rename {σ : Variable → Variable} {r : Rule} (bound : ℕ)
    (hσ : Set.InjOn σ {v | v ∈ r.variables}) :
    canonicalRule bound (r.rename σ) = canonicalRule bound r ∧
    ruleKey bound (r.rename σ) = ruleKey bound r := by
  obtain ⟨τ, hτ, hagree⟩ := exists_injective_extension hσ
  have hsame : r.rename σ = r.rename τ := by
    have hmap : ∀ cs ⊆ r.body ++ r.head, cs.map (Clause.rename σ) = cs.map (Clause.rename τ) := by
      refine fun cs hcs => List.map_congr_left fun c hc => Clause.rename_congr fun v hv => ?_
      refine (hagree v (mem_variables_iff.2 ?_)).symm
      rw [Rule.toClause, Clause.mentions_nested]
      exact List.mem_flatMap.2 ⟨c, hcs hc, hv⟩
    rw [Rule.rename, Rule.rename, hmap _ (List.subset_append_left _ _),
      hmap _ (List.subset_append_right _ _)]
  have hbody : clauses bound (r.rename τ).body [] = (clauses bound r.body []).mapSeen τ :=
    clauses_follow hτ bound r.body []
  have hhead : clauses bound (r.rename τ).head (clauses bound (r.rename τ).body []).seen =
      (clauses bound r.head (clauses bound r.body []).seen).mapSeen τ := by
    rw [hbody]
    exact clauses_follow hτ bound r.head (clauses bound r.body []).seen
  rw [hsame]
  constructor
  · show Rule.mk _ (clauses bound (r.rename τ).body []).value (clauses bound (r.rename τ).head
      (clauses bound (r.rename τ).body []).seen).value = _
    rw [hhead, hbody]
    rfl
  · rw [ruleKey_eq, hhead, hbody]
    rfl

/-- Lists of clauses that differ in the names of variables and in their order alone have one
key, when all ties may be tried. -/
theorem key_form_of_renamed_perm {bound : ℕ} {σ : Variable → Variable} {cs ds : List Clause}
    (hσ : Set.InjOn σ {v | v ∈ cs.flatMap Clause.mentions})
    (hp : (cs.map (Clause.rename σ)).Perm ds) (hb : tieCount (cs.map Clause.blindKey) ≤ bound) :
    (form bound ds).key = (form bound cs).key := by
  have hties : tieCount ((cs.map (Clause.rename σ)).map Clause.blindKey) ≤ bound := by
    rwa [Clause.map_blindKey_rename]
  calc (form bound ds).key
      = (form bound (cs.map (Clause.rename σ))).key :=
        (text_clauses_perm hp hties []).symm
    _ = (form bound cs).key := by rw [form_map_rename hσ]

/-- Canonical forms do not see the names of variables, and neither do keys see the order of the
clauses when all ties may be tried. -/
theorem form_invariant {σ : Variable → Variable} {cs ds : List Clause} (bound : ℕ)
    (hσ : Set.InjOn σ {v | v ∈ cs.flatMap Clause.mentions})
    (hp : (cs.map (Clause.rename σ)).Perm ds) :
    (tieCount (cs.map Clause.blindKey) ≤ bound → (form bound ds).key = (form bound cs).key) ∧
    form bound (cs.map (Clause.rename σ)) =
      { form bound cs with order := (form bound cs).order.map σ } :=
  ⟨key_form_of_renamed_perm hσ hp, form_map_rename hσ bound⟩

/-- Two tied clauses and a rule, with two variables swapped and the rule moved between them. -/
theorem form_invariant_of_swap :
    let σ : Variable → Variable := fun v => if v.name = "a" then ⟨"b"⟩ else ⟨"a"⟩
    let edge (s o : String) : Clause := .pattern ⟨.var ⟨s⟩, .iri "p", .var ⟨o⟩⟩
    let loop (v : String) : Clause := .nested none [edge v v] [.functor ⟨"f", [.var ⟨v⟩]⟩]
    let cs := [edge "a" "b", edge "b" "a", loop "a"]
    let ds := [edge "a" "b", loop "b", edge "b" "a"]
    tieCount (cs.map Clause.blindKey) = 2 ∧ (form 2 ds).key = (form 2 cs).key ∧
    form 2 (cs.map (Clause.rename σ)) = { form 2 cs with order := (form 2 cs).order.map σ } := by
  intro σ edge loop cs ds
  have hapart : ∀ v ∈ cs.flatMap Clause.mentions, ∀ w ∈ cs.flatMap Clause.mentions,
      σ v = σ w → v = w := by decide
  have hties : tieCount (cs.map Clause.blindKey) = 2 := by decide +kernel
  have h := form_invariant 2 (fun v hv w hw => hapart v hv w hw)
    (show (cs.map (Clause.rename σ)).Perm ds by decide)
  exact ⟨hties, h.1 hties.le, h.2⟩

end Canonical
end RuleFlow
