import Mathlib.Data.List.Basic
import RuleFlow.Canonical.Blind
import RuleFlow.Clause.Variables

/-!
# Terms in the place of variables

An assignment has a term for every variable. `subst` puts these terms into patterns, functors
and clauses; `rename` is the case where the terms are variables again.

What substitution yields depends on the variables that are mentioned alone
(`Clause.subst_congr`), two substitutions in a row are one (`Clause.subst_subst`), and a
renaming acts on the mentions place by place (`Clause.mentions_rename`) and leaves the blind key
as it is (`Clause.blindKey_rename`).
-/

namespace RuleFlow

/-! ## Induction on clauses -/

/-- Induction on clauses where the clauses inside a nested rule may be taken one by one. -/
@[elab_as_elim, induction_eliminator]
theorem Clause.byStructure {P : Clause → Prop} (pattern : ∀ p, P (.pattern p))
    (functor : ∀ f, P (.functor f))
    (nested : ∀ name body head, (∀ c ∈ body, P c) → (∀ c ∈ head, P c) → P (.nested name body head))
    (c : Clause) : P c :=
  @Clause.rec P (fun cs => ∀ c ∈ cs, P c) pattern functor nested
    nofun (fun _ _ hc hcs => List.forall_mem_cons.2 ⟨hc, hcs⟩) c

/-! ## Substitution -/

/-- A term for every variable. -/
abbrev Assignment := Variable → Term

namespace Term

/-- The term with the terms of an assignment in the places of its variables. -/
def subst (θ : Assignment) : Term → Term
  | .var v => θ v
  | t => t

/-- The term with its variables renamed. -/
def rename (σ : Variable → Variable) (t : Term) : Term := t.subst fun v => .var (σ v)

/-- The variables of a term. -/
def mentions (t : Term) : List Variable := t.var?.toList

/-- The variables of several terms are those of each in turn. -/
lemma mentionsIn_eq_flatMap (ts : List Term) : mentionsIn ts = ts.flatMap mentions := by
  rw [mentionsIn, List.filterMap_eq_flatMap_toList]
  rfl

/-- The terms of the mentioned variables alone matter. -/
theorem subst_congr {θ η : Assignment} {t : Term} (h : ∀ v ∈ t.mentions, θ v = η v) :
    t.subst θ = t.subst η := by
  cases t with
  | var v => exact h v (by simp [mentions, var?])
  | _ => rfl

/-- Two assignments one after the other are one assignment. -/
theorem subst_subst (θ η : Assignment) (t : Term) :
    (t.subst θ).subst η = t.subst fun v => (θ v).subst η := by
  cases t <;> rfl

@[simp] theorem subst_var (t : Term) : t.subst .var = t := by
  cases t <;> rfl

/-- The variables of a renamed term are the renamed variables. -/
theorem mentions_rename (σ : Variable → Variable) (t : Term) :
    (t.rename σ).mentions = t.mentions.map σ := by
  cases t <;> rfl

lemma mentionsIn_map_rename (σ : Variable → Variable) (ts : List Term) :
    mentionsIn (ts.map (rename σ)) = (mentionsIn ts).map σ := by
  rw [mentionsIn_eq_flatMap, mentionsIn_eq_flatMap, List.flatMap_map, List.map_flatMap]
  simp only [mentions_rename]

/-- The blind text of a term does not depend on the names of variables. -/
theorem blind_rename (σ : Variable → Variable) (t : Term) : (t.rename σ).blind = t.blind := by
  cases t <;> rfl

end Term

namespace Pattern

/-- The pattern with the terms of an assignment in the places of its variables. -/
def subst (θ : Assignment) (p : Pattern) : Pattern :=
  ⟨p.subject.subst θ, p.predicate.subst θ, p.object.subst θ⟩

/-- The pattern with its variables renamed. -/
def rename (σ : Variable → Variable) (p : Pattern) : Pattern := p.subst fun v => .var (σ v)

/-- The variables of a pattern in order, with repetitions. -/
def mentions (p : Pattern) : List Variable := Term.mentionsIn p.terms

lemma mem_mentions {p : Pattern} {v : Variable} :
    v ∈ p.mentions ↔
      v ∈ p.subject.mentions ∨ v ∈ p.predicate.mentions ∨ v ∈ p.object.mentions := by
  simp [mentions, terms, Term.mentionsIn_eq_flatMap]

theorem subst_congr {θ η : Assignment} {p : Pattern} (h : ∀ v ∈ p.mentions, θ v = η v) :
    p.subst θ = p.subst η := by
  have hs := Term.subst_congr fun v hv => h v (mem_mentions.2 (.inl hv))
  have hp := Term.subst_congr fun v hv => h v (mem_mentions.2 (.inr (.inl hv)))
  have ho := Term.subst_congr fun v hv => h v (mem_mentions.2 (.inr (.inr hv)))
  rw [subst, subst, hs, hp, ho]

theorem subst_subst (θ η : Assignment) (p : Pattern) :
    (p.subst θ).subst η = p.subst fun v => (θ v).subst η := by
  simp only [subst, Term.subst_subst]

theorem rename_congr {σ τ : Variable → Variable} {p : Pattern}
    (h : ∀ v ∈ p.mentions, σ v = τ v) : p.rename σ = p.rename τ :=
  subst_congr fun v hv => congrArg Term.var (h v hv)

/-- A renaming before an assignment can be made part of it. -/
theorem subst_rename (σ : Variable → Variable) (θ : Assignment) (p : Pattern) :
    (p.rename σ).subst θ = p.subst (θ ∘ σ) :=
  subst_subst _ θ p

theorem rename_rename (σ τ : Variable → Variable) (p : Pattern) :
    (p.rename σ).rename τ = p.rename (τ ∘ σ) :=
  subst_rename σ _ p

theorem rename_id (p : Pattern) : p.rename id = p := by
  simp only [rename, subst, id, Term.subst_var]

/-- A renaming leaves the blind text as it is. -/
theorem blind_rename (σ : Variable → Variable) (p : Pattern) : (p.rename σ).blind = p.blind := by
  simp only [blind, rename, subst, ← Term.rename.eq_1, Term.blind_rename]

theorem mentions_rename (σ : Variable → Variable) (p : Pattern) :
    (p.rename σ).mentions = p.mentions.map σ :=
  Term.mentionsIn_map_rename σ p.terms

end Pattern

namespace Functor

/-- The functor with the terms of an assignment in the places of its variables. -/
def subst (θ : Assignment) (f : Functor) : Functor := ⟨f.name, f.args.map (Term.subst θ)⟩

/-- The functor with its variables renamed. -/
def rename (σ : Variable → Variable) (f : Functor) : Functor := f.subst fun v => .var (σ v)

theorem subst_congr {θ η : Assignment} {f : Functor}
    (h : ∀ v ∈ Term.mentionsIn f.args, θ v = η v) : f.subst θ = f.subst η := by
  have hargs : f.args.map (Term.subst θ) = f.args.map (Term.subst η) := by
    refine List.map_congr_left fun t ht => Term.subst_congr fun v hv => h v ?_
    rw [Term.mentionsIn_eq_flatMap]
    exact List.mem_flatMap.2 ⟨t, ht, hv⟩
  rw [subst, subst, hargs]

theorem subst_subst (θ η : Assignment) (f : Functor) :
    (f.subst θ).subst η = f.subst fun v => (θ v).subst η := by
  simp only [subst, List.map_map, Functor.mk.injEq, true_and]
  exact List.map_congr_left fun t _ => Term.subst_subst θ η t

theorem subst_rename (σ : Variable → Variable) (θ : Assignment) (f : Functor) :
    (f.rename σ).subst θ = f.subst (θ ∘ σ) :=
  subst_subst _ θ f

end Functor

namespace Clause

mutual

/-- The clause with the terms of an assignment in the places of its variables. -/
def subst (θ : Assignment) : Clause → Clause
  | .pattern p => .pattern (p.subst θ)
  | .functor f => .functor (f.subst θ)
  | .nested name body head => .nested name (substAll θ body) (substAll θ head)

/-- The clauses with the terms of an assignment in the places of their variables. -/
def substAll (θ : Assignment) : List Clause → List Clause
  | [] => []
  | c :: cs => subst θ c :: substAll θ cs

end

/-- The clause with its variables renamed. -/
def rename (σ : Variable → Variable) (c : Clause) : Clause := c.subst fun v => .var (σ v)

/-- Terms are put in the places of variables clause by clause. -/
theorem substAll_eq_map (θ : Assignment) (cs : List Clause) : substAll θ cs = cs.map (subst θ) := by
  induction cs with
  | nil => rfl
  | cons c cs ih => rw [substAll, ih, List.map_cons]

@[simp] theorem subst_pattern (θ : Assignment) (p : Pattern) :
    (pattern p).subst θ = .pattern (p.subst θ) := by
  rw [subst]

@[simp] theorem subst_functor (θ : Assignment) (f : Functor) :
    (functor f).subst θ = .functor (f.subst θ) := by
  rw [subst]

@[simp] theorem subst_nested (θ : Assignment) (name : Option String) (body head : List Clause) :
    (nested name body head).subst θ = .nested name (body.map (subst θ)) (head.map (subst θ)) := by
  rw [subst, substAll_eq_map, substAll_eq_map]

@[simp] theorem rename_pattern (σ : Variable → Variable) (p : Pattern) :
    (pattern p).rename σ = .pattern (p.rename σ) :=
  subst_pattern _ p

@[simp] theorem rename_functor (σ : Variable → Variable) (f : Functor) :
    (functor f).rename σ = .functor (f.rename σ) :=
  subst_functor _ f

@[simp] theorem rename_nested (σ : Variable → Variable) (name : Option String)
    (body head : List Clause) :
    (nested name body head).rename σ =
      .nested name (body.map (rename σ)) (head.map (rename σ)) :=
  subst_nested _ name body head

/-- The patterns of renamed clauses are the renamed patterns. -/
lemma filterMap_pattern?_rename (σ : Variable → Variable) (cs : List Clause) :
    (cs.map (rename σ)).filterMap pattern? = (cs.filterMap pattern?).map (Pattern.rename σ) := by
  rw [List.filterMap_map, List.map_filterMap]
  refine congrArg (List.filterMap · cs) (funext fun c => ?_)
  cases c <;> simp [pattern?]

/-- Functors keep being functors when terms are put in the places of their variables. -/
lemma map_functor_subst (θ : Assignment) (fs : List Functor) :
    (fs.map functor).map (subst θ) = (fs.map (Functor.subst θ)).map functor := by
  rw [List.map_map, List.map_map]
  exact List.map_congr_left fun f _ => subst_functor θ f

lemma filterMap_functor?_rename (σ : Variable → Variable) (cs : List Clause) :
    (cs.map (rename σ)).filterMap functor? = (cs.filterMap functor?).map (Functor.rename σ) := by
  rw [List.filterMap_map, List.map_filterMap]
  refine congrArg (List.filterMap · cs) (funext fun c => ?_)
  cases c <;> simp [functor?]

/-- Renaming variables neither adds nor removes nested rules. -/
lemma any_isNested_rename (σ : Variable → Variable) (cs : List Clause) :
    (cs.map (rename σ)).any isNested = cs.any isNested := by
  rw [List.any_map]
  refine congrArg (List.any cs) (funext fun c => ?_)
  cases c <;> simp [isNested]

/-- The variables of a rule are those of its body and then those of its head. -/
lemma mentions_nested (name : Option String) (body head : List Clause) :
    (nested name body head).mentions = (body ++ head).flatMap mentions := by
  rw [mentions, mentionsOfAll_eq_flatMap, mentionsOfAll_eq_flatMap, List.flatMap_append]

/-- The result of a substitution depends on the terms for mentioned variables alone. -/
theorem subst_congr {θ η : Assignment} {c : Clause} (h : ∀ v ∈ c.mentions, θ v = η v) :
    c.subst θ = c.subst η := by
  induction c with
  | pattern p => simp only [subst_pattern, Pattern.subst_congr h]
  | functor f => simp only [subst_functor, Functor.subst_congr h]
  | nested name body head ihb ihh =>
    simp only [mentions_nested, List.mem_flatMap, List.mem_append] at h
    have hb : body.map (subst θ) = body.map (subst η) :=
      List.map_congr_left fun c hc => ihb c hc fun v hv => h v ⟨c, .inl hc, hv⟩
    have hh : head.map (subst θ) = head.map (subst η) :=
      List.map_congr_left fun c hc => ihh c hc fun v hv => h v ⟨c, .inr hc, hv⟩
    rw [subst_nested, subst_nested, hb, hh]

/-- Two substitutions in a row are one. -/
theorem subst_subst (θ η : Assignment) (c : Clause) :
    (c.subst θ).subst η = c.subst fun v => (θ v).subst η := by
  induction c with
  | pattern p => simp only [subst_pattern, Pattern.subst_subst]
  | functor f => simp only [subst_functor, Functor.subst_subst]
  | nested name body head ihb ihh =>
    rw [subst_nested, subst_nested, subst_nested, List.map_map, List.map_map]
    have hb : body.map (subst η ∘ subst θ) = body.map (subst fun v => (θ v).subst η) :=
      List.map_congr_left ihb
    have hh : head.map (subst η ∘ subst θ) = head.map (subst fun v => (θ v).subst η) :=
      List.map_congr_left ihh
    rw [hb, hh]

theorem rename_congr {σ τ : Variable → Variable} {c : Clause}
    (h : ∀ v ∈ c.mentions, σ v = τ v) : c.rename σ = c.rename τ :=
  subst_congr fun v hv => congrArg Term.var (h v hv)

theorem subst_rename (σ : Variable → Variable) (θ : Assignment) (c : Clause) :
    (c.rename σ).subst θ = c.subst (θ ∘ σ) :=
  subst_subst _ θ c

theorem rename_rename (σ τ : Variable → Variable) (c : Clause) :
    (c.rename σ).rename τ = c.rename (τ ∘ σ) :=
  subst_rename σ _ c

theorem rename_id (c : Clause) : c.rename id = c := by
  induction c with
  | pattern p => rw [rename_pattern, Pattern.rename_id]
  | functor f =>
    simp only [rename_functor, Functor.rename, Functor.subst, functor.injEq, id]
    rw [List.map_congr_left fun t _ => Term.subst_var t, List.map_id']
  | nested name body head ihb ihh =>
    rw [rename_nested, List.map_congr_left ihb, List.map_congr_left ihh, List.map_id',
      List.map_id']

/-- A renaming acts on the mentions place by place. -/
theorem mentions_rename (σ : Variable → Variable) (c : Clause) :
    (c.rename σ).mentions = c.mentions.map σ := by
  induction c with
  | pattern p => exact Term.mentionsIn_map_rename σ p.terms
  | functor f => exact Term.mentionsIn_map_rename σ f.args
  | nested name body head ihb ihh =>
    have hall : ∀ c ∈ body ++ head, (c.rename σ).mentions = c.mentions.map σ := fun c hc =>
      (List.mem_append.1 hc).elim (ihb c) (ihh c)
    rw [rename_nested, mentions_nested, mentions_nested, ← List.map_append, List.flatMap_map,
      List.map_flatMap, List.flatMap_congr hall]

/-- A renaming leaves the blind key as it is. -/
theorem blindKey_rename (σ : Variable → Variable) (c : Clause) :
    (c.rename σ).blindKey = c.blindKey := by
  induction c with
  | pattern p =>
    exact Pattern.blind_rename σ p
  | functor f =>
    show (f.rename σ).blind = f.blind
    have hargs : (f.args.map (Term.rename σ)).map Term.blind = f.args.map Term.blind := by
      rw [List.map_map]
      exact List.map_congr_left fun t _ => Term.blind_rename σ t
    rw [Functor.blind, Functor.blind, ← hargs]
    rfl
  | nested name body head ihb ihh =>
    have hall : ∀ cs : List Clause, (∀ c ∈ cs, (c.rename σ).blindKey = c.blindKey) →
        blindKeys (cs.map (rename σ)) = blindKeys cs := by
      intro cs h
      rw [blindKeys_eq_map, blindKeys_eq_map, List.map_map]
      exact List.map_congr_left h
    rw [rename_nested, blindKey, blindKey, hall body ihb, hall head ihh]

/-- The blind keys of a list do not depend on the names of variables. -/
lemma map_blindKey_rename (σ : Variable → Variable) (cs : List Clause) :
    (cs.map (rename σ)).map blindKey = cs.map blindKey := by
  rw [List.map_map]
  exact List.map_congr_left fun c _ => blindKey_rename σ c

end Clause
end RuleFlow
