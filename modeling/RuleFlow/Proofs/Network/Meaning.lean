import Mathlib.Data.Set.Function
import RuleFlow.Network.Plan
import RuleFlow.Network.Registry
import RuleFlow.Proofs.Clause.Alike

/-!
# What operators give out

The facts are a set of patterns. `answers` is what a list of patterns asks for: the values of
some variables under all assignments that make every pattern a fact. `Registry.Emits` is what
the operators of a registry do: a filter gives out the values of its variables for each fact
that its pattern matches, a join puts two tuples together that agree where it wants them to.

The main statement about joins is that a join whose positions were computed from the variables
of its sides turns answers on both sides into answers to both lists of patterns
(`mem_answers_append_iff`).
-/

namespace RuleFlow

/-! ## Answers -/

/-- The assignment makes facts of all the patterns. -/
def Assignment.Satisfies (θ : Assignment) (facts : Set Pattern) (ps : List Pattern) : Prop :=
  ∀ p ∈ ps, p.subst θ ∈ facts

/-- The values of the variables under the assignments that satisfy the patterns. -/
def answers (facts : Set Pattern) (vars : List Variable) (ps : List Pattern) :
    Set (List Term) :=
  {tuple | ∃ θ : Assignment, θ.Satisfies facts ps ∧ vars.map θ = tuple}

theorem mem_answers_iff {facts : Set Pattern} {vars : List Variable} {ps : List Pattern}
    {tuple : List Term} :
    tuple ∈ answers facts vars ps ↔ ∃ θ : Assignment, θ.Satisfies facts ps ∧ vars.map θ = tuple :=
  Iff.rfl

/-- The terms of the mentioned variables alone matter. -/
theorem Assignment.Satisfies.congr {θ η : Assignment} {facts : Set Pattern} {ps : List Pattern}
    (h : θ.Satisfies facts ps) (heq : ∀ p ∈ ps, ∀ v ∈ p.mentions, θ v = η v) :
    η.Satisfies facts ps :=
  fun p hp => Pattern.subst_congr (heq p hp) ▸ h p hp

/-- Renamed patterns are satisfied when the patterns are, with the values of the new names. -/
theorem Renames.satisfies_iff {σ : Variable → Variable} {ps qs : List Pattern}
    (h : Renames σ ps qs) (facts : Set Pattern) (θ : Assignment) :
    θ.Satisfies facts qs ↔ ∀ p ∈ ps, p.subst (θ ∘ σ) ∈ facts := by
  constructor
  · intro hθ p hp
    rw [← Pattern.subst_rename]
    exact hθ _ ((h _).2 ⟨p, hp, rfl⟩)
  · intro hθ q hq
    obtain ⟨p, hp, rfl⟩ := (h q).1 hq
    rw [Pattern.subst_rename]
    exact hθ p hp

/-- The answers do not depend on the order of the patterns. -/
theorem answers_perm {facts : Set Pattern} {vars : List Variable} {ps qs : List Pattern}
    (h : ps.Perm qs) : answers facts vars ps = answers facts vars qs := by
  have hsat : ∀ θ : Assignment, θ.Satisfies facts ps ↔ θ.Satisfies facts qs :=
    fun θ => ⟨fun hθ p hp => hθ p (h.mem_iff.2 hp), fun hθ p hp => hθ p (h.mem_iff.1 hp)⟩
  simp only [answers, hsat]

/-- Renaming variables that stay apart does not change the answers. -/
theorem answers_rename {facts : Set Pattern} {vars : List Variable} {ps : List Pattern}
    {σ : Variable → Variable} (hσ : Set.InjOn σ {v | v ∈ vars})
    (hvars : ∀ p ∈ ps, ∀ v ∈ p.mentions, v ∈ vars) :
    answers facts (vars.map σ) (ps.map (Pattern.rename σ)) = answers facts vars ps := by
  ext tuple
  constructor
  · rintro ⟨θ, hθ, rfl⟩
    refine ⟨θ ∘ σ, fun p hp => ?_, (List.map_map).symm⟩
    rw [← Pattern.subst_rename]
    exact hθ _ (List.mem_map_of_mem hp)
  · rintro ⟨θ, hθ, rfl⟩
    -- every name in the image gets the value of the one variable that it is the name of
    let η : Assignment := fun w => θ (Function.invFunOn σ {v | v ∈ vars} w)
    have hη : ∀ v ∈ vars, η (σ v) = θ v := fun v hv => congrArg θ (hσ.leftInvOn_invFunOn hv)
    refine ⟨η, fun q hq => ?_, ?_⟩
    · obtain ⟨p, hp, rfl⟩ := List.mem_map.1 hq
      have heq : p.subst (η ∘ σ) = p.subst θ :=
        Pattern.subst_congr fun v hv => hη v (hvars p hp v hv)
      rw [Pattern.subst_rename, heq]
      exact hθ p hp
    · rw [List.map_map]
      exact List.map_congr_left hη

/-! ## Tuples of a join -/

namespace Join

/-- The tuples have one value wherever the join wants them to agree. -/
def Agrees (j : Join) (left right : List Term) : Prop :=
  ∀ p ∈ j.agreements, ∃ t, left[p.1]? = some t ∧ right[p.2]? = some t

/-- The tuple that the join makes of a tuple from the left and one from the right: each value is
read on the left, where it has a position there, and on the right otherwise. -/
def output? (j : Join) (left right : List Term) : Option (List Term) :=
  (j.templateLeft.zip j.templateRight).mapM fun (l, r) =>
    (l.bind (left[·]?)).or (r.bind (right[·]?))

/-- The join wants agreement where positions are matched. -/
lemma mem_agreements {j : Join} {l r : ℕ} :
    (l, r) ∈ j.agreements ↔ j.matchLeft[l]? = some (some r) := by
  simp only [agreements, List.mem_filterMap, Prod.exists, List.mem_zipIdx_iff_getElem?,
    Option.map_eq_some_iff, Prod.mk.injEq]
  constructor
  · rintro ⟨found, l', h, r', rfl, rfl, rfl⟩
    exact h
  · intro h
    exact ⟨some r, l, h, r, rfl, rfl, rfl⟩

end Join

/-- The operator of a name gives the tuple out. Nothing is given out in the name of a terminal,
the conflict set or the axiom source. -/
inductive Registry.Emits (r : Registry) (facts : Set Pattern) : String → List Term → Prop
  /-- A filter gives out the values of its variables for a fact that its pattern matches. -/
  | filter {name : String} {f : Filter} {θ : Assignment} (h : r.get? name = some (.filter f))
      (hfact : f.pattern.subst θ ∈ facts) : Emits r facts name (f.vars.map θ)
  /-- A join puts two tuples together that agree. -/
  | join {name : String} {j : Join} {left right tuple : List Term}
      (h : r.get? name = some (.join j)) (hleft : Emits r facts j.left left)
      (hright : Emits r facts j.right right) (hagree : j.Agrees left right)
      (hout : j.output? left right = some tuple) : Emits r facts name tuple

namespace Registry
variable {r : Registry} {facts : Set Pattern} {name : String} {tuple : List Term}

/-- A filter emits the answers to its pattern. -/
theorem emits_filter_iff {f : Filter} (h : r.get? name = some (.filter f)) :
    r.Emits facts name tuple ↔ tuple ∈ answers facts f.vars [f.pattern] := by
  constructor
  · intro he
    cases he with
    | filter h' hfact =>
      obtain rfl : f = _ := Operator.filter.inj (Option.some.inj (h.symm.trans h'))
      exact ⟨_, fun p hp => List.mem_singleton.1 hp ▸ hfact, rfl⟩
    | join h' => rw [h] at h'; simp at h'
  · rintro ⟨θ, hθ, rfl⟩
    exact .filter h (hθ _ (List.mem_singleton.2 rfl))

/-- A join emits its output for tuples of its sides that agree. -/
theorem emits_join_iff {j : Join} (h : r.get? name = some (.join j)) :
    r.Emits facts name tuple ↔ ∃ left right, r.Emits facts j.left left ∧
      r.Emits facts j.right right ∧ j.Agrees left right ∧ j.output? left right = some tuple := by
  constructor
  · intro he
    cases he with
    | filter h' => rw [h] at h'; simp at h'
    | join h' hleft hright hagree hout =>
      obtain rfl : j = _ := Operator.join.inj (Option.some.inj (h.symm.trans h'))
      exact ⟨_, _, hleft, hright, hagree, hout⟩
  · rintro ⟨left, right, hleft, hright, hagree, hout⟩
    exact .join h hleft hright hagree hout

end Registry

namespace Network

/-! ## Positions -/

lemma findIdx?_eq_none_iff {vars : List Variable} {v : Variable} :
    vars.findIdx? (· == v) = none ↔ v ∉ vars := by
  rw [List.findIdx?_eq_none_iff]
  constructor
  · intro h hv
    simpa using h v hv
  · intro h w hw
    have : w ≠ v := fun e => h (e ▸ hw)
    simpa using this

lemma mem_of_findIdx? {vars : List Variable} {v : Variable} {i : ℕ}
    (h : vars.findIdx? (· == v) = some i) : v ∈ vars := by
  by_contra hv
  rw [findIdx?_eq_none_iff.2 hv] at h
  exact nomatch h

/-- At the position of a variable stands its value. -/
lemma getElem?_of_findIdx? {vars : List Variable} {v : Variable} {i : ℕ}
    (h : vars.findIdx? (· == v) = some i) (θ : Assignment) :
    (vars.map θ)[i]? = some (θ v) := by
  obtain ⟨hi, heq, -⟩ := List.findIdx?_eq_some_iff_getElem.1 h
  have hv : vars[i] = v := by simpa using heq
  rw [List.getElem?_map, List.getElem?_eq_getElem hi, hv]
  rfl

/-- Reading a variable's value through its position. -/
lemma read_position (vars : List Variable) (v : Variable) (θ : Assignment) :
    (vars.findIdx? (· == v)).bind ((vars.map θ)[·]?) =
      if v ∈ vars then some (θ v) else none := by
  cases h : vars.findIdx? (· == v) with
  | none => rw [if_neg (findIdx?_eq_none_iff.1 h)]; rfl
  | some i =>
    rw [if_pos (mem_of_findIdx? h)]
    exact getElem?_of_findIdx? h θ

section
variable {j : Join} {left right vars : List Variable} {θ η : Assignment}

/-- A join wants agreement at the positions of one variable on both sides. -/
lemma mem_agreements_iff (hmatch : j.matchLeft = positions left right) {l i : ℕ} :
    (l, i) ∈ j.agreements ↔ ∃ v, left[l]? = some v ∧ right.findIdx? (· == v) = some i := by
  rw [Join.mem_agreements, hmatch, positions, List.getElem?_map, Option.map_eq_some_iff]

/-- Tuples agree when their assignments give the common variables one value. -/
lemma agrees_iff (hmatch : j.matchLeft = positions left right) :
    j.Agrees (left.map θ) (right.map η) ↔ ∀ v ∈ left, v ∈ right → θ v = η v := by
  constructor
  · intro h v hv hv'
    obtain ⟨l, hl⟩ := List.mem_iff_getElem?.1 hv
    cases hi : right.findIdx? (· == v) with
    | none => exact absurd hv' (findIdx?_eq_none_iff.1 hi)
    | some i =>
      obtain ⟨t, ht, ht'⟩ := h (l, i) ((mem_agreements_iff hmatch).2 ⟨v, hl, hi⟩)
      rw [List.getElem?_map, hl] at ht
      rw [getElem?_of_findIdx? hi] at ht'
      exact (Option.some.inj ht).trans (Option.some.inj ht').symm
  · rintro h ⟨l, i⟩ hp
    obtain ⟨v, hl, hi⟩ := (mem_agreements_iff hmatch).1 hp
    refine ⟨θ v, by rw [List.getElem?_map, hl]; rfl, ?_⟩
    rw [getElem?_of_findIdx? hi, h v (List.mem_of_getElem? hl) (mem_of_findIdx? hi)]

/-- What a join makes of two tuples has the values of the left for the variables that stand
there, and the values of the right for the others. -/
lemma output?_eq (hleft : j.templateLeft = positions vars left)
    (hright : j.templateRight = positions vars right)
    (hvars : ∀ v ∈ vars, v ∈ left ∨ v ∈ right) :
    j.output? (left.map θ) (right.map η) =
      some (vars.map fun v => if v ∈ left then θ v else η v) := by
  rw [Join.output?, hleft, hright, positions, positions]
  clear hleft hright
  induction vars with
  | nil => rfl
  | cons v vs ih =>
    have hread : ((left.findIdx? (· == v)).bind ((left.map θ)[·]?)).or
        ((right.findIdx? (· == v)).bind ((right.map η)[·]?)) =
          some (if v ∈ left then θ v else η v) := by
      -- the value is read on the left, if it stands there
      rw [read_position, read_position]
      by_cases hv : v ∈ left
      · rw [if_pos hv, if_pos hv]
        rfl
      · have hv' : v ∈ right := (hvars v List.mem_cons_self).resolve_left hv
        rw [if_neg hv, if_neg hv, if_pos hv']
        rfl
    have hrest := ih fun w hw => hvars w (List.mem_cons_of_mem _ hw)
    simp only [List.map_cons, List.zip_cons_cons, List.mapM_cons, hread, hrest]
    rfl

/-- A join turns answers to the patterns of its sides into answers to all of them. -/
theorem mem_answers_append_iff {facts : Set Pattern} {ps qs : List Pattern} {tuple : List Term}
    (hmatch : j.matchLeft = positions left right) (hl : j.templateLeft = positions vars left)
    (hr : j.templateRight = positions vars right) (hvars : ∀ v ∈ vars, v ∈ left ∨ v ∈ right)
    (hps : ∀ p ∈ ps, ∀ v ∈ p.mentions, v ∈ left) (hqs : ∀ q ∈ qs, ∀ v ∈ q.mentions, v ∈ right) :
    tuple ∈ answers facts vars (ps ++ qs) ↔ ∃ a ∈ answers facts left ps,
      ∃ b ∈ answers facts right qs, j.Agrees a b ∧ j.output? a b = some tuple := by
  constructor
  · rintro ⟨θ, hθ, rfl⟩
    -- one assignment serves both sides, and agrees with itself
    have hps' : θ.Satisfies facts ps := fun p hp => hθ p (List.mem_append_left _ hp)
    have hqs' : θ.Satisfies facts qs := fun q hq => hθ q (List.mem_append_right _ hq)
    refine ⟨left.map θ, ⟨θ, hps', rfl⟩, right.map θ, ⟨θ, hqs', rfl⟩,
      (agrees_iff hmatch).2 fun _ _ _ => rfl, ?_⟩
    rw [output?_eq hl hr hvars]
    simp only [ite_self]
  · rintro ⟨-, ⟨θ, hθ, rfl⟩, -, ⟨η, hη, rfl⟩, hagree, hout⟩
    rw [agrees_iff hmatch] at hagree
    rw [output?_eq hl hr hvars] at hout
    -- the left assignment, and the right one for variables that are not on the left
    refine ⟨fun v => if v ∈ left then θ v else η v, fun p hp => ?_, Option.some.inj hout⟩
    rcases List.mem_append.1 hp with hp | hp
    · refine hθ.congr (fun p hp v hv => ?_) p hp
      rw [if_pos (hps p hp v hv)]
    · refine hη.congr (fun q hq v hv => ?_) p hp
      by_cases hv' : v ∈ left
      · rw [if_pos hv', hagree v hv' (hqs q hq v hv)]
      · rw [if_neg hv']

end

end Network
end RuleFlow
