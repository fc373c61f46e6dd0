import Mathlib.Combinatorics.SimpleGraph.Connectivity.Connected
import Mathlib.SetTheory.Cardinal.NatCard
import RuleFlow.Proofs.Clause.Alike

/-!
# Connected components

Members of a list are neighbours when they have a variable in common. Members between which a
way of neighbours leads make up a connected component of the list; a member without variables is
one of its own. `componentCount` counts the components.

Three steps lead from the components of a list to those of another one: exchanging members for
others that share variables in the same way (`componentCount_eq`), putting two neighbours into
one (`componentCount_merge`), and putting a member without neighbours into another member
(`componentCount_absorb`). There is one component when what members pass on to their neighbours
holds of all members or of none (`componentCount_eq_one_iff`). Patterns that are alike have as
many components (`Alike.componentCount_eq`).
-/

namespace RuleFlow

section
variable {α β : Type} (vars : α → List Variable) (vars' : β → List Variable)

/-! ## Neighbours and components -/

/-- The two have a variable in common. -/
def Shares (a b : α) : Prop := ∃ v ∈ vars a, v ∈ vars b

instance (a b : α) : Decidable (Shares vars a b) :=
  inferInstanceAs (Decidable (∃ v ∈ vars a, v ∈ vars b))

/-- The graph of the members of a list, in which those are neighbours that have a variable in
common. -/
def sharing (l : List α) : SimpleGraph {a // a ∈ l} where
  Adj a b := a ≠ b ∧ Shares vars a.1 b.1
  symm := ⟨fun _ _ ⟨hne, v, ha, hb⟩ => ⟨hne.symm, v, hb, ha⟩⟩
  loopless := ⟨fun _ h => h.1 rfl⟩

/-- The number of connected components of a list. -/
noncomputable def componentCount (l : List α) : ℕ :=
  Nat.card (sharing vars l).ConnectedComponent

/-- Both are members of one component. -/
def SameComponent (l : List α) (a b : α) : Prop :=
  ∃ (ha : a ∈ l) (hb : b ∈ l), (sharing vars l).Reachable ⟨a, ha⟩ ⟨b, hb⟩

variable {vars vars'} {l : List α} {l' : List β} {a b c : α}

lemma Shares.symm (h : Shares vars a b) : Shares vars b a := by
  obtain ⟨v, ha, hb⟩ := h
  exact ⟨v, hb, ha⟩

namespace SameComponent

theorem refl (ha : a ∈ l) : SameComponent vars l a a := ⟨ha, ha, .rfl⟩

theorem symm (h : SameComponent vars l a b) : SameComponent vars l b a := by
  obtain ⟨ha, hb, hway⟩ := h
  exact ⟨hb, ha, hway.symm⟩

theorem trans (h : SameComponent vars l a b) (h' : SameComponent vars l b c) :
    SameComponent vars l a c := by
  obtain ⟨ha, _, hway⟩ := h
  obtain ⟨_, hc, hway'⟩ := h'
  exact ⟨ha, hc, hway.trans hway'⟩

/-- Neighbours are in one component. -/
theorem of_shares (ha : a ∈ l) (hb : b ∈ l) (h : Shares vars a b) : SameComponent vars l a b := by
  by_cases heq : a = b
  · exact heq ▸ refl ha
  · have hadj : (sharing vars l).Adj ⟨a, ha⟩ ⟨b, hb⟩ :=
      ⟨fun e => heq (congrArg Subtype.val e), h⟩
    exact ⟨ha, hb, hadj.reachable⟩

/-- What members pass on to their neighbours reaches the whole component. -/
theorem induction {P : α → Prop} (h : SameComponent vars l a b) (ha : P a)
    (step : ∀ x ∈ l, ∀ y ∈ l, Shares vars x y → P x → P y) : P b := by
  obtain ⟨hmem, hmem', hway⟩ := h
  suffices hall : ∀ x : {x // x ∈ l}, (sharing vars l).Reachable ⟨a, hmem⟩ x → P x.1 from
    hall _ hway
  intro x hx
  rw [SimpleGraph.reachable_iff_reflTransGen] at hx
  induction hx with
  | refl => exact ha
  | @tail x y _ hadj ih => exact step x x.2 y y.2 hadj.2 ih

end SameComponent

/-- A component as a class of members. -/
lemma connectedComponentMk_eq_iff {x y : {a // a ∈ l}} :
    (sharing vars l).connectedComponentMk x = (sharing vars l).connectedComponentMk y ↔
      SameComponent vars l x.1 y.1 := by
  rw [SimpleGraph.ConnectedComponent.eq]
  exact ⟨fun h => ⟨x.2, y.2, h⟩, fun ⟨_, _, h⟩ => h⟩

/-! ## Lists with as many components -/

/-- Members that correspond to each other lie in one component on the one side when they do on
the other, if this is so for members that are equal or neighbours. -/
lemma sameComponent_of_rel {R : α → β → Prop} (total : ∀ a ∈ l, ∃ b ∈ l', R a b)
    (forth : ∀ a ∈ l, ∀ a' ∈ l, ∀ b ∈ l', ∀ b' ∈ l', R a b → R a' b' →
      a = a' ∨ Shares vars a a' → SameComponent vars' l' b b')
    {a a' : α} {b b' : β} (h : SameComponent vars l a a') (hb : b ∈ l') (hb' : b' ∈ l')
    (hab : R a b) (hab' : R a' b') : SameComponent vars' l' b b' := by
  -- from member to member of the way all partners are in the component of `b`
  let Reached := fun x => ∀ y ∈ l', R x y → SameComponent vars' l' b y
  suffices hreached : Reached a' from hreached b' hb' hab'
  refine h.induction (fun y hy hay => ?_) fun x hx x' hx' hshares hreached y' hy' hxy' => ?_
  · obtain ⟨ha, -, -⟩ := h
    exact forth a ha a ha b hb y hy hab hay (.inl rfl)
  · obtain ⟨y, hy, hxy⟩ := total x hx
    exact (hreached y hy hxy).trans (forth x hx x' hx' y hy y' hy' hxy hxy' (.inr hshares))

/-- Lists whose members correspond to each other have as many components, when members that are
equal or neighbours on one side have their partners in one component on the other. -/
theorem componentCount_eq (R : α → β → Prop) (total : ∀ a ∈ l, ∃ b ∈ l', R a b)
    (onto : ∀ b ∈ l', ∃ a ∈ l, R a b)
    (forth : ∀ a ∈ l, ∀ a' ∈ l, ∀ b ∈ l', ∀ b' ∈ l', R a b → R a' b' →
      a = a' ∨ Shares vars a a' → SameComponent vars' l' b b')
    (back : ∀ b ∈ l', ∀ b' ∈ l', ∀ a ∈ l, ∀ a' ∈ l, R a b → R a' b' →
      b = b' ∨ Shares vars' b b' → SameComponent vars l a a') :
    componentCount vars l = componentCount vars' l' := by
  have hiff : ∀ a ∈ l, ∀ a' ∈ l, ∀ b ∈ l', ∀ b' ∈ l', R a b → R a' b' →
      (SameComponent vars l a a' ↔ SameComponent vars' l' b b') := by
    intro a ha a' ha' b hb b' hb' hab hab'
    exact ⟨fun h => sameComponent_of_rel total forth h hb hb' hab hab',
      fun h => sameComponent_of_rel (R := flip R) onto back h ha ha' hab hab'⟩
  choose partner hpartner using fun x : {a // a ∈ l} => total x.1 x.2
  let image : (sharing vars l).ConnectedComponent → (sharing vars' l').ConnectedComponent :=
    SimpleGraph.ConnectedComponent.lift
      (fun x => (sharing vars' l').connectedComponentMk ⟨partner x, (hpartner x).1⟩)
      fun x y way _ => connectedComponentMk_eq_iff.2 ((hiff x x.2 y y.2 _ (hpartner x).1 _
        (hpartner y).1 (hpartner x).2 (hpartner y).2).1 ⟨x.2, y.2, way.reachable⟩)
  refine Nat.card_eq_of_bijective image ⟨?_, ?_⟩
  · refine SimpleGraph.ConnectedComponent.ind₂ fun x y h => ?_
    exact connectedComponentMk_eq_iff.2 ((hiff x x.2 y y.2 _ (hpartner x).1 _
      (hpartner y).1 (hpartner x).2 (hpartner y).2).2 (connectedComponentMk_eq_iff.1 h))
  · refine SimpleGraph.ConnectedComponent.ind fun y => ?_
    obtain ⟨a, ha, hay⟩ := onto y.1 y.2
    refine ⟨(sharing vars l).connectedComponentMk ⟨a, ha⟩, connectedComponentMk_eq_iff.2 ?_⟩
    exact (hiff a ha a ha _ (hpartner ⟨a, ha⟩).1 _ y.2 (hpartner ⟨a, ha⟩).2 hay).1 (.refl ha)

/-- Lists have as many components when their members correspond one to one and share variables
in the same way. -/
lemma componentCount_eq_of_matching (R : α → β → Prop) (total : ∀ a ∈ l, ∃ b ∈ l', R a b)
    (onto : ∀ b ∈ l', ∃ a ∈ l, R a b)
    (eq_iff : ∀ a ∈ l, ∀ a' ∈ l, ∀ b ∈ l', ∀ b' ∈ l', R a b → R a' b' → (a = a' ↔ b = b'))
    (shares_iff : ∀ a ∈ l, ∀ a' ∈ l, ∀ b ∈ l', ∀ b' ∈ l', R a b → R a' b' →
      (Shares vars a a' ↔ Shares vars' b b')) :
    componentCount vars l = componentCount vars' l' := by
  refine componentCount_eq R total onto ?_ ?_
  · rintro a ha a' ha' b hb b' hb' hab hab' (heq | hshares)
    · exact (eq_iff a ha a' ha' b hb b' hb' hab hab').1 heq ▸ .refl hb
    · exact .of_shares hb hb' ((shares_iff a ha a' ha' b hb b' hb' hab hab').1 hshares)
  · rintro b hb b' hb' a ha a' ha' hab hab' (heq | hshares)
    · exact (eq_iff a ha a' ha' b hb b' hb' hab hab').2 heq ▸ .refl ha
    · exact .of_shares ha ha' ((shares_iff a ha a' ha' b hb b' hb' hab hab').2 hshares)

/-- The components depend on the members alone. -/
theorem componentCount_congr {l l' : List α} (h : ∀ a, a ∈ l ↔ a ∈ l') :
    componentCount vars l = componentCount vars l' := by
  refine componentCount_eq_of_matching (· = ·) (fun a ha => ⟨a, (h a).1 ha, rfl⟩)
    (fun a ha => ⟨a, (h a).2 ha, rfl⟩) ?_ ?_
  · rintro a - a' - _ - _ - rfl rfl
    rfl
  · rintro a - a' - _ - _ - rfl rfl
    rfl

/-! ## Adding, merging and absorbing members -/

/-- Ways between members do not lead through one without neighbours. -/
lemma sameComponent_cons_iff (hfree : ∀ b ∈ l, ¬ Shares vars a b) {x y : α} (hx : x ∈ l) :
    SameComponent vars (a :: l) x y ↔ SameComponent vars l x y := by
  constructor
  · intro h
    have hinside : y ∈ l ∧ SameComponent vars l x y := by
      refine h.induction (P := fun y => y ∈ l ∧ SameComponent vars l x y) ⟨hx, .refl hx⟩ ?_
      rintro z - w hw hshares ⟨hz, hway⟩
      rcases List.mem_cons.1 hw with rfl | hw
      · exact absurd hshares.symm (hfree z hz)
      · exact ⟨hw, hway.trans (.of_shares hz hw hshares)⟩
    exact hinside.2
  · refine fun h => h.induction (.refl (List.mem_cons_of_mem a hx)) ?_
    intro z hz w hw hshares hway
    exact hway.trans
      (.of_shares (List.mem_cons_of_mem a hz) (List.mem_cons_of_mem a hw) hshares)

/-- No way leads from a member without neighbours to another one. -/
lemma not_sameComponent_cons (hnew : a ∉ l) (hfree : ∀ b ∈ l, ¬ Shares vars a b) {x : α}
    (hx : x ∈ l) : ¬ SameComponent vars (a :: l) a x := by
  intro h
  have hself : x = a := by
    refine h.induction (P := (· = a)) rfl fun z _ w hw hshares hz => ?_
    exact (List.mem_cons.1 hw).resolve_right fun hw => hfree w hw (hz ▸ hshares)
  exact hnew (hself ▸ hx)

/-- A member without neighbours is a component of its own. -/
theorem componentCount_cons (hnew : a ∉ l) (hfree : ∀ b ∈ l, ¬ Shares vars a b) :
    componentCount vars (a :: l) = componentCount vars l + 1 := by
  have : Finite {x // x ∈ l} := List.finite_toSet l
  -- the components of the longer list are the one of `a` and those of the others
  let image : Option (sharing vars l).ConnectedComponent →
      (sharing vars (a :: l)).ConnectedComponent := fun component =>
    component.elim ((sharing vars (a :: l)).connectedComponentMk ⟨a, List.mem_cons_self⟩)
      (SimpleGraph.ConnectedComponent.lift
        (fun x => (sharing vars (a :: l)).connectedComponentMk
          ⟨x.1, List.mem_cons_of_mem a x.2⟩)
        fun x y way _ => connectedComponentMk_eq_iff.2
          ((sameComponent_cons_iff hfree x.2).2 ⟨x.2, y.2, way.reachable⟩))
  have hbijective : Function.Bijective image := by
    constructor
    · rintro (_ | component) (_ | component') h
      · rfl
      · induction component' using SimpleGraph.ConnectedComponent.ind with
        | h x =>
          exact absurd (connectedComponentMk_eq_iff.1 h) (not_sameComponent_cons hnew hfree x.2)
      · induction component using SimpleGraph.ConnectedComponent.ind with
        | h x =>
          exact absurd (connectedComponentMk_eq_iff.1 h).symm
            (not_sameComponent_cons hnew hfree x.2)
      · induction component, component' using SimpleGraph.ConnectedComponent.ind₂ with
        | h x y =>
          refine congrArg some (connectedComponentMk_eq_iff.2 ?_)
          exact (sameComponent_cons_iff hfree x.2).1 (connectedComponentMk_eq_iff.1 h)
    · refine SimpleGraph.ConnectedComponent.ind fun x => ?_
      obtain ⟨x, hx⟩ := x
      rcases List.mem_cons.1 hx with rfl | hx
      · exact ⟨none, rfl⟩
      · exact ⟨some ((sharing vars l).connectedComponentMk ⟨x, hx⟩), rfl⟩
  rw [componentCount, ← Nat.card_eq_of_bijective image hbijective, Finite.card_option,
    componentCount]

/-- A new member takes the place of those that are not in `l`, when these lie in one component and
have the neighbours in `l` that the new member has. -/
lemma componentCount_replace {whole : List α} (hsub : ∀ x ∈ l, x ∈ whole)
    (hc : c ∉ l) (hsome : ∃ x ∈ whole, x ∉ l)
    (hsame : ∀ x ∈ whole, x ∉ l → ∀ y ∈ whole, y ∉ l → SameComponent vars whole x y)
    (hto : ∀ x ∈ l, ∀ y ∈ whole, y ∉ l → Shares vars x y → Shares vars x c)
    (hback : ∀ x ∈ l, ∀ y ∈ whole, y ∉ l → Shares vars x c → SameComponent vars whole x y) :
    componentCount vars whole = componentCount vars (c :: l) := by
  refine componentCount_eq (fun x y => x ∈ l ∧ x = y ∨ x ∉ l ∧ y = c) ?_ ?_ ?_ ?_
  · intro x _
    by_cases hin : x ∈ l
    · exact ⟨x, List.mem_cons_of_mem c hin, .inl ⟨hin, rfl⟩⟩
    · exact ⟨c, List.mem_cons_self, .inr ⟨hin, rfl⟩⟩
  · intro y hy
    rcases List.mem_cons.1 hy with rfl | hin
    · obtain ⟨x, hx, hout⟩ := hsome
      exact ⟨x, hx, .inr ⟨hout, rfl⟩⟩
    · exact ⟨y, hsub y hin, .inl ⟨hin, rfl⟩⟩
  · rintro x hx x' hx' y hy y' hy' (⟨hin, rfl⟩ | ⟨hout, rfl⟩) (⟨hin', rfl⟩ | ⟨hout', rfl⟩) hnear
    · rcases hnear with rfl | hshares
      · exact .refl hy
      · exact .of_shares hy hy' hshares
    · rcases hnear with rfl | hshares
      · exact absurd hin hout'
      · exact .of_shares hy hy' (hto x hin x' hx' hout' hshares)
    · rcases hnear with rfl | hshares
      · exact absurd hin' hout
      · exact .of_shares hy hy' (hto x' hin' x hx hout hshares.symm).symm
    · exact .refl hy
  · rintro y hy y' hy' x hx x' hx' (⟨hin, rfl⟩ | ⟨hout, rfl⟩) (⟨hin', rfl⟩ | ⟨hout', rfl⟩) hnear
    · rcases hnear with rfl | hshares
      · exact .refl hx
      · exact .of_shares hx hx' hshares
    · rcases hnear with rfl | hshares
      · exact absurd hin hc
      · exact hback x hin x' hx' hout' hshares
    · rcases hnear with rfl | hshares
      · exact absurd hin' hc
      · exact (hback x' hin' x hx hout hshares.symm).symm
    · exact hsame x hx hout x' hx' hout'

/-- Putting two neighbours into one member leaves the number of components as it is. -/
theorem componentCount_merge (ha : a ∉ l) (hb : b ∉ l) (hc : c ∉ l)
    (hvars : ∀ v, v ∈ vars c ↔ v ∈ vars a ∨ v ∈ vars b) (hab : Shares vars a b) :
    componentCount vars (a :: b :: l) = componentCount vars (c :: l) := by
  have hsub : ∀ x ∈ l, x ∈ a :: b :: l := fun x hx => by simp [hx]
  have hpair : ∀ x ∈ a :: b :: l, x ∉ l → x = a ∨ x = b := by
    intro x hx hout
    simpa [hout] using hx
  have hway : SameComponent vars (a :: b :: l) a b := .of_shares (by simp) (by simp) hab
  have hsame : ∀ x ∈ a :: b :: l, x ∉ l → ∀ y ∈ a :: b :: l, y ∉ l →
      SameComponent vars (a :: b :: l) x y := by
    intro x hx hxout y hy hyout
    rcases hpair x hx hxout with rfl | rfl <;> rcases hpair y hy hyout with rfl | rfl
    · exact .refl hx
    · exact hway
    · exact hway.symm
    · exact .refl hx
  refine componentCount_replace hsub hc ⟨a, by simp, ha⟩ hsame ?_ ?_
  · rintro x hx y hy hout ⟨v, hv, hvy⟩
    refine ⟨v, hv, (hvars v).2 ?_⟩
    rcases hpair y hy hout with rfl | rfl
    · exact .inl hvy
    · exact .inr hvy
  · -- a neighbour of the new member is one of `a` or of `b`, which are in one component
    rintro x hx y hy hout ⟨v, hv, hvc⟩
    rcases (hvars v).1 hvc with hva | hvb
    · have hstep : SameComponent vars (a :: b :: l) x a :=
        .of_shares (hsub x hx) (by simp) ⟨v, hv, hva⟩
      exact hstep.trans (hsame a (by simp) ha y hy hout)
    · have hstep : SameComponent vars (a :: b :: l) x b :=
        .of_shares (hsub x hx) (by simp) ⟨v, hv, hvb⟩
      exact hstep.trans (hsame b (by simp) hb y hy hout)

/-- Putting a member without neighbours into another one leaves one component less. -/
theorem componentCount_absorb (ha : a ∉ b :: l) (hb : b ∉ l) (hc : c ∉ l)
    (hvars : ∀ v, v ∈ vars c ↔ v ∈ vars a ∨ v ∈ vars b)
    (hfree : ∀ d ∈ b :: l, ¬ Shares vars a d) :
    componentCount vars (a :: b :: l) = componentCount vars (c :: l) + 1 := by
  have honly : ∀ x ∈ b :: l, x ∉ l → x = b := fun x hx hout =>
    (List.mem_cons.1 hx).resolve_right hout
  -- the new member has the neighbours of `b`
  have hrest : componentCount vars (b :: l) = componentCount vars (c :: l) := by
    refine componentCount_replace (fun x => List.mem_cons_of_mem b) hc
      ⟨b, List.mem_cons_self, hb⟩ ?_ ?_ ?_
    · intro x hx hxout y hy hyout
      rw [honly x hx hxout, honly y hy hyout]
      exact .refl List.mem_cons_self
    · rintro x - y hy hout ⟨v, hv, hvy⟩
      exact ⟨v, hv, (hvars v).2 (.inr (honly y hy hout ▸ hvy))⟩
    · rintro x hx y hy hout ⟨v, hv, hvc⟩
      have hx' := List.mem_cons_of_mem b hx
      rcases (hvars v).1 hvc with hva | hvb
      · exact absurd ⟨v, hva, hv⟩ (hfree x hx')
      · exact .of_shares hx' hy ⟨v, hv, honly y hy hout ▸ hvb⟩
  rw [componentCount_cons ha hfree, hrest]

/-! ## One component -/

/-- What members pass on to their neighbours holds of all members or of none. -/
def Connected (vars : α → List Variable) (l : List α) : Prop :=
  ∀ P : α → Prop, (∀ a ∈ l, ∀ b ∈ l, Shares vars a b → P a → P b) →
    ∀ a ∈ l, P a → ∀ b ∈ l, P b

/-- There is one component when there are members and they are connected. -/
theorem componentCount_eq_one_iff : componentCount vars l = 1 ↔ l ≠ [] ∧ Connected vars l := by
  rw [componentCount, Nat.card_eq_one_iff_unique]
  constructor
  · rintro ⟨hone, ⟨component⟩⟩
    constructor
    · induction component using SimpleGraph.ConnectedComponent.ind with
      | h x => exact List.ne_nil_of_mem x.2
    · intro P hP a ha hPa b hb
      have hway : SameComponent vars l a b :=
        connectedComponentMk_eq_iff.1 (Subsingleton.elim ((sharing vars l).connectedComponentMk
          ⟨a, ha⟩) ((sharing vars l).connectedComponentMk ⟨b, hb⟩))
      exact hway.induction hPa hP
  · rintro ⟨hne, hconnected⟩
    constructor
    · refine ⟨SimpleGraph.ConnectedComponent.ind₂ fun x y => connectedComponentMk_eq_iff.2 ?_⟩
      refine hconnected (SameComponent vars l x.1) ?_ x.1 x.2 (.refl x.2) y.1 y.2
      exact fun a ha b hb hshares hway => hway.trans (.of_shares ha hb hshares)
    · obtain ⟨a, ha⟩ := List.exists_mem_of_ne_nil l hne
      exact ⟨(sharing vars l).connectedComponentMk ⟨a, ha⟩⟩

/-- Connected lists with neighbours in each other are connected together. -/
theorem Connected.append {l l' : List α} (h : Connected vars l) (h' : Connected vars l')
    (hab : ∃ a ∈ l, ∃ b ∈ l', Shares vars a b) : Connected vars (l ++ l') := by
  obtain ⟨x, hx, y, hy, hshares⟩ := hab
  intro P hP
  have hleft : ∀ a ∈ l, P a → ∀ b ∈ l, P b :=
    h P fun a ha b hb => hP a (List.mem_append_left _ ha) b (List.mem_append_left _ hb)
  have hright : ∀ a ∈ l', P a → ∀ b ∈ l', P b :=
    h' P fun a ha b hb => hP a (List.mem_append_right _ ha) b (List.mem_append_right _ hb)
  have hx' := List.mem_append_left l' hx
  have hy' := List.mem_append_right l hy
  -- from either list the property gets to the two neighbours, and from there everywhere
  have hboth : ∀ a ∈ l ++ l', P a → P x ∧ P y := by
    intro a ha hPa
    rcases List.mem_append.1 ha with ha | ha
    · have hPx := hleft a ha hPa x hx
      exact ⟨hPx, hP x hx' y hy' hshares hPx⟩
    · have hPy := hright a ha hPa y hy
      exact ⟨hP y hy' x hx' hshares.symm hPy, hPy⟩
  intro a ha hPa b hb
  obtain ⟨hPx, hPy⟩ := hboth a ha hPa
  rcases List.mem_append.1 hb with hb | hb
  · exact hleft x hx hPx b hb
  · exact hright y hy hPy b hb

lemma componentCount_singleton (a : α) : componentCount vars [a] = 1 := by
  refine componentCount_eq_one_iff.2 ⟨List.cons_ne_nil a [], ?_⟩
  intro P _ b hb hPb d hd
  rw [List.mem_singleton.1 hd]
  exact List.mem_singleton.1 hb ▸ hPb

end

/-! ## Patterns -/

/-- Patterns that are alike have as many components. -/
theorem Alike.componentCount_eq {ps qs : List Pattern} (h : Alike ps qs) :
    componentCount Pattern.mentions ps = componentCount Pattern.mentions qs := by
  obtain ⟨σ, hσ, hqs⟩ := h
  obtain ⟨τ, -, hrename⟩ := exists_rename_back hσ
  refine componentCount_eq_of_matching (fun p q => p.rename σ = q)
    (fun p hp => ⟨p.rename σ, (hqs _).2 ⟨p, hp, rfl⟩, rfl⟩) (fun q hq => (hqs q).1 hq) ?_ ?_
  · rintro p hp p' hp' _ - _ - rfl rfl
    refine ⟨congrArg _, fun heq => ?_⟩
    rw [← hrename p hp, heq, hrename p' hp']
  · rintro p hp p' hp' _ - _ - rfl rfl
    have hmem : ∀ p ∈ ps, ∀ v ∈ p.mentions, v ∈ ps.flatMap Pattern.mentions :=
      fun p hp v hv => List.mem_flatMap.2 ⟨p, hp, hv⟩
    simp only [Shares, Pattern.mentions_rename, List.mem_map]
    constructor
    · rintro ⟨v, hv, hv'⟩
      exact ⟨σ v, ⟨v, hv, rfl⟩, v, hv', rfl⟩
    · rintro ⟨_, ⟨v, hv, rfl⟩, w, hw, heq⟩
      obtain rfl : w = v := hσ (hmem p' hp' w hw) (hmem p hp v hv) heq
      exact ⟨w, hv, hw⟩

end RuleFlow
