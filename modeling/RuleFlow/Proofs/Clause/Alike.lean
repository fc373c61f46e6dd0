import Mathlib.Data.List.Nodup
import Mathlib.Data.Set.Function
import RuleFlow.Proofs.Clause.Substitution

/-!
# Patterns up to renaming

What a list of patterns asks for depends neither on the order of the patterns nor on
repetitions, and on the names of the variables only as far as they tell variables apart.
`Renames σ ps qs` says that `qs` has the patterns of `ps` with their variables renamed by `σ`.
When `σ` keeps the variables of `ps` apart the lists are `Alike`, and then they are related both
ways (`Alike.symm`).
-/

namespace RuleFlow

/-- The patterns of `qs` are those of `ps` with their variables renamed. -/
def Renames (σ : Variable → Variable) (ps qs : List Pattern) : Prop :=
  ∀ q, q ∈ qs ↔ ∃ p ∈ ps, p.rename σ = q

/-- The lists have the same patterns, up to a renaming that keeps their variables apart. -/
def Alike (ps qs : List Pattern) : Prop :=
  ∃ σ : Variable → Variable, Set.InjOn σ {v | v ∈ ps.flatMap Pattern.mentions} ∧ Renames σ ps qs

variable {σ τ : Variable → Variable} {ps qs rs : List Pattern}

/-! ## Renamed patterns -/

namespace Renames

/-- The variables are renamed with the patterns. -/
theorem mem_mentions_iff (h : Renames σ ps qs) {w : Variable} :
    w ∈ qs.flatMap Pattern.mentions ↔ ∃ v ∈ ps.flatMap Pattern.mentions, σ v = w := by
  constructor
  · intro hw
    obtain ⟨q, hq, hw⟩ := List.mem_flatMap.1 hw
    obtain ⟨p, hp, rfl⟩ := (h q).1 hq
    rw [Pattern.mentions_rename] at hw
    obtain ⟨v, hv, rfl⟩ := List.mem_map.1 hw
    exact ⟨v, List.mem_flatMap.2 ⟨p, hp, hv⟩, rfl⟩
  · rintro ⟨v, hv, rfl⟩
    obtain ⟨p, hp, hv⟩ := List.mem_flatMap.1 hv
    refine List.mem_flatMap.2 ⟨p.rename σ, (h _).2 ⟨p, hp, rfl⟩, ?_⟩
    rw [Pattern.mentions_rename]
    exact List.mem_map_of_mem hv

/-- Renaming twice is renaming once. -/
theorem trans (h : Renames σ ps qs) (h' : Renames τ qs rs) : Renames (τ ∘ σ) ps rs := by
  intro r
  constructor
  · intro hr
    obtain ⟨q, hq, rfl⟩ := (h' r).1 hr
    obtain ⟨p, hp, rfl⟩ := (h q).1 hq
    exact ⟨p, hp, (Pattern.rename_rename σ τ p).symm⟩
  · rintro ⟨p, hp, rfl⟩
    apply (h' _).2
    exact ⟨p.rename σ, (h _).2 ⟨p, hp, rfl⟩, Pattern.rename_rename σ τ p⟩

end Renames

/-- A renaming that keeps the variables apart can be undone. -/
lemma exists_rename_back (hσ : Set.InjOn σ {v | v ∈ ps.flatMap Pattern.mentions}) :
    ∃ τ : Variable → Variable, (∀ v ∈ ps.flatMap Pattern.mentions, τ (σ v) = v) ∧
      ∀ p ∈ ps, (p.rename σ).rename τ = p := by
  have hback : ∀ v ∈ ps.flatMap Pattern.mentions,
      Function.invFunOn σ {v | v ∈ ps.flatMap Pattern.mentions} (σ v) = v :=
    fun v hv => hσ.leftInvOn_invFunOn hv
  refine ⟨_, hback, fun p hp => ?_⟩
  rw [Pattern.rename_rename]
  refine (Pattern.rename_congr fun v hv => ?_).trans (Pattern.rename_id p)
  exact hback v (List.mem_flatMap.2 ⟨p, hp, hv⟩)

/-! ## Lists that are alike -/

namespace Alike

theorem of_mem_iff (h : ∀ p, p ∈ qs ↔ p ∈ ps) : Alike ps qs := by
  refine ⟨id, Set.injOn_id _, fun q => ?_⟩
  simp only [Pattern.rename_id, exists_eq_right, h]

theorem trans (h : Alike ps qs) (h' : Alike qs rs) : Alike ps rs := by
  obtain ⟨σ, hσ, hqs⟩ := h
  obtain ⟨τ, hτ, hrs⟩ := h'
  refine ⟨τ ∘ σ, hτ.comp hσ fun v hv => ?_, hqs.trans hrs⟩
  exact hqs.mem_mentions_iff.2 ⟨v, hv, rfl⟩

/-- Renamings that keep variables apart can be undone. -/
theorem symm (h : Alike ps qs) : Alike qs ps := by
  obtain ⟨σ, hσ, hqs⟩ := h
  obtain ⟨τ, hback, hrename⟩ := exists_rename_back hσ
  refine ⟨τ, ?_, fun p => ?_⟩
  · -- variables of `qs` come from variables of `ps`, where `τ` leads back to
    intro w hw w' hw' heq
    obtain ⟨v, hv, rfl⟩ := hqs.mem_mentions_iff.1 hw
    obtain ⟨v', hv', rfl⟩ := hqs.mem_mentions_iff.1 hw'
    rw [hback v hv, hback v' hv'] at heq
    rw [heq]
  · constructor
    · intro hp
      exact ⟨p.rename σ, (hqs _).2 ⟨p, hp, rfl⟩, hrename p hp⟩
    · rintro ⟨q, hq, rfl⟩
      obtain ⟨p, hp, rfl⟩ := (hqs q).1 hq
      rwa [hrename p hp]

/-- Without repetitions, patterns that are alike are a permutation of renamed patterns. -/
theorem exists_perm (h : Alike ps qs) (hps : ps.Nodup) (hqs : qs.Nodup) :
    ∃ σ : Variable → Variable, Set.InjOn σ {v | v ∈ ps.flatMap Pattern.mentions} ∧
      (ps.map (Pattern.rename σ)).Perm qs := by
  obtain ⟨σ, hσ, hmem⟩ := h
  obtain ⟨τ, -, hrename⟩ := exists_rename_back hσ
  refine ⟨σ, hσ, (List.perm_ext_iff_of_nodup ?_ hqs).2 fun q => ?_⟩
  · apply hps.map_on
    intro p hp p' hp' heq
    rw [← hrename p hp, heq, hrename p' hp']
  · rw [List.mem_map, hmem]

end Alike

end RuleFlow
