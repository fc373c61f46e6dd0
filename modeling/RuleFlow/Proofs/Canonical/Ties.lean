import Mathlib.Algebra.BigOperators.Group.Finset.Basic
import Mathlib.Data.List.Perm.Basic
import Mathlib.Data.List.Sort
import Mathlib.Data.List.SplitBy
import Mathlib.Data.Nat.Factorial.Basic
import Mathlib.Data.String.Basic
import RuleFlow.Canonical.Order

/-!
# The orders of tied members

`orders` sorts a list by its keys and tries the orders that differ from the sorted one within
ties. Four things are said about it here:

* it commutes with maps that keep the keys (`orders_map`);
* it yields the sorted order first (`exists_orders_eq_cons`);
* within the bound it yields exactly the permutations whose keys ascend
  (`mem_orders_iff`), and always permutations (`perm_of_mem_orders`);
* the number that is held against the bound is the product of the factorials of how often
  each key occurs (`tieSpace_ties`), which does not depend on the order of the list.
-/

namespace RuleFlow.Canonical

open scoped Nat

variable {α β : Type}

/-! ## All orders of a list -/

/-- The selections of mapped entries are the mapped selections. -/
lemma selections_map (f : α → β) (l : List α) :
    selections (l.map f) = (selections l).map fun p => (f p.1, p.2.map f) := by
  induction l with
  | nil => rfl
  | cons a as ih => simp [selections, ih, Function.comp_def]

lemma draws_map (f : α → β) (n : ℕ) (l : List α) :
    draws n (l.map f) = (draws n l).map (List.map f) := by
  induction n generalizing l with
  | zero => rfl
  | succ n ih =>
    rw [draws, draws, selections_map, List.flatMap_map, List.map_flatMap]
    apply List.flatMap_congr
    intro p _
    show (draws n (p.2.map f)).map (f p.1 :: ·) = ((draws n p.2).map (p.1 :: ·)).map (List.map f)
    rw [ih p.2, List.map_map, List.map_map]
    rfl

lemma arrangements_map (f : α → β) (l : List α) :
    arrangements (l.map f) = (arrangements l).map (List.map f) := by
  rw [arrangements, List.length_map, draws_map, arrangements]

/-- A selection takes one entry out of its place. -/
lemma mem_selections {a : α} {l rest : List α} :
    (a, rest) ∈ selections l ↔ ∃ l₁ l₂, l = l₁ ++ a :: l₂ ∧ rest = l₁ ++ l₂ := by
  induction l generalizing rest with
  | nil => simp [selections]
  | cons b bs ih =>
    simp only [selections, List.mem_cons, Prod.mk.injEq, List.mem_map, Prod.exists]
    constructor
    · rintro (⟨rfl, rfl⟩ | ⟨c, r, hr, rfl, rfl⟩)
      · exact ⟨[], _, rfl, rfl⟩
      · obtain ⟨l₁, l₂, rfl, rfl⟩ := ih.1 hr
        exact ⟨b :: l₁, l₂, rfl, rfl⟩
    · rintro ⟨l₁, l₂, hl, rfl⟩
      cases l₁ with
      | nil =>
        obtain ⟨rfl, rfl⟩ := List.cons.inj hl
        exact .inl ⟨rfl, rfl⟩
      | cons c l₁ =>
        obtain ⟨rfl, rfl⟩ := List.cons.inj hl
        exact .inr ⟨a, l₁ ++ l₂, ih.2 ⟨l₁, l₂, rfl, rfl⟩, rfl, rfl⟩

/-- The draws of all entries are their permutations. -/
lemma mem_draws {n : ℕ} {o l : List α} (hn : l.length = n) : o ∈ draws n l ↔ o.Perm l := by
  induction n generalizing o l with
  | zero =>
    rw [List.length_eq_zero_iff] at hn
    subst hn
    simp [draws]
  | succ n ih =>
    rw [draws, List.mem_flatMap]
    constructor
    · rintro ⟨⟨a, rest⟩, hsel, ho⟩
      obtain ⟨l₁, l₂, rfl, rfl⟩ := mem_selections.1 hsel
      obtain ⟨o', ho', rfl⟩ := List.mem_map.1 ho
      have hlen : (l₁ ++ l₂).length = n := by simp at hn ⊢; omega
      exact (((ih hlen).1 ho').cons a).trans List.perm_middle.symm
    · intro hperm
      -- the first member of `o` is taken out of `l`, wherever it stands
      have hlen := hperm.length_eq
      cases o with
      | nil => rw [List.length_nil] at hlen; omega
      | cons a o =>
        obtain ⟨l₁, l₂, rfl⟩ := List.append_of_mem (hperm.subset List.mem_cons_self)
        have hrest : o.Perm (l₁ ++ l₂) := (hperm.trans List.perm_middle).cons_inv
        have hlen' : (l₁ ++ l₂).length = n := by simp at hn ⊢; omega
        exact ⟨(a, l₁ ++ l₂), mem_selections.2 ⟨l₁, l₂, rfl, rfl⟩,
          List.mem_map.2 ⟨o, (ih hlen').2 hrest, rfl⟩⟩

/-- The arrangements of a list are its permutations. -/
theorem mem_arrangements {o l : List α} : o ∈ arrangements l ↔ o.Perm l := mem_draws rfl

/-! ## One choice from each list -/

lemma choices_map (f : α → β) (options : List (List (List α))) :
    choices (options.map (List.map (List.map f))) = (choices options).map (List.map f) := by
  induction options with
  | nil => rfl
  | cons option rest ih =>
    simp only [List.map_cons, choices, ih, List.flatMap_map, List.map_flatMap, List.map_map]
    refine List.flatMap_congr fun a _ => List.map_congr_left fun b _ => ?_
    exact (List.map_append).symm

/-- A choice takes one option for each group, one group behind the other. -/
lemma mem_choices {o : List α} {options : List (List (List α))} :
    o ∈ choices options ↔ ∃ parts, List.Forall₂ (· ∈ ·) parts options ∧ o = parts.flatten := by
  induction options generalizing o with
  | nil => simp [choices]
  | cons option rest ih =>
    simp only [choices, List.mem_flatMap, List.mem_map, ih]
    constructor
    · rintro ⟨part, hpart, tail, ⟨parts, hparts, rfl⟩, rfl⟩
      exact ⟨part :: parts, .cons hpart hparts, rfl⟩
    · rintro ⟨parts, hparts, rfl⟩
      cases hparts with
      | cons hpart hrest => exact ⟨_, hpart, _, ⟨_, hrest, rfl⟩, rfl⟩

/-! ## Groups of one key -/

/-- Each group is not empty and has one key, and the keys ascend from group to group. -/
structure Grouped (key : α → String) (groups : List (List α)) : Prop where
  /-- No group is empty. -/
  nonempty : ∀ g ∈ groups, g ≠ []
  /-- The members of a group have one key. -/
  sameKey : ∀ g ∈ groups, ∀ a ∈ g, ∀ b ∈ g, key a = key b
  /-- A later group has a greater key. -/
  ascending : groups.Pairwise fun g h => ∀ a ∈ g, ∀ b ∈ h, key a < key b

lemma Grouped.tail {key : α → String} {g : List α} {groups : List (List α)}
    (h : Grouped key (g :: groups)) : Grouped key groups :=
  ⟨fun g' hg => h.nonempty g' (List.mem_cons_of_mem _ hg),
    fun g' hg => h.sameKey g' (List.mem_cons_of_mem _ hg), (List.pairwise_cons.1 h.ascending).2⟩

/-- A key of the first group stands in no later one. -/
lemma Grouped.ne_of_mem_flatten {key : α → String} {g : List α} {groups : List (List α)}
    (h : Grouped key (g :: groups)) {a b : α} (ha : a ∈ g) (hb : b ∈ groups.flatten) :
    key a ≠ key b := by
  obtain ⟨g', hg', hb'⟩ := List.mem_flatten.1 hb
  have hlt := (List.pairwise_cons.1 h.ascending).1 g' hg' a ha b hb'
  exact fun e => String.lt_irrefl _ (e ▸ hlt)

/-- Insertion by keys is the ordered insertion of the library. -/
lemma insertByKey_eq_orderedInsert (key : α → String) (a : α) (l : List α) :
    insertByKey key a l = l.orderedInsert (fun a b => key a ≤ key b) a := by
  induction l with
  | nil => rfl
  | cons b bs ih => rw [insertByKey, List.orderedInsert_cons, ih]

lemma sortByKey_eq_insertionSort (key : α → String) (l : List α) :
    sortByKey key l = l.insertionSort fun a b => key a ≤ key b := by
  induction l with
  | nil => rfl
  | cons a as ih => rw [sortByKey, insertByKey_eq_orderedInsert, List.insertionSort_cons, ih]

/-- Sorting rearranges the entries. -/
lemma sortByKey_perm (key : α → String) (l : List α) : (sortByKey key l).Perm l := by
  rw [sortByKey_eq_insertionSort]
  exact List.perm_insertionSort _ l

lemma pairwise_sortByKey (key : α → String) (l : List α) :
    (sortByKey key l).Pairwise fun a b => key a ≤ key b := by
  have htotal : Std.Total fun a b : α => key a ≤ key b := ⟨fun a b => le_total (key a) (key b)⟩
  have htrans : IsTrans α fun a b => key a ≤ key b := ⟨fun _ _ _ => le_trans⟩
  rw [sortByKey_eq_insertionSort]
  exact List.pairwise_insertionSort _ l

/-- What is sorted already stays as it is. -/
lemma sortByKey_of_pairwise {key : α → String} {l : List α}
    (h : l.Pairwise fun a b => key a ≤ key b) : sortByKey key l = l := by
  rw [sortByKey_eq_insertionSort]
  exact h.insertionSort_eq

/-- The groups make up the list. -/
@[simp] lemma flatten_ties (key : α → String) (l : List α) : (ties key l).flatten = l :=
  List.flatten_splitBy _ l

/-- Runs of one key in a sorted list are groups. -/
private lemma grouped_of_sorted {key : α → String} {groups : List (List α)}
    (hne : ∀ g ∈ groups, g ≠ []) (hkey : ∀ g ∈ groups, ∀ a ∈ g, ∀ b ∈ g, key a = key b)
    (hstep : groups.IsChain fun g h => ∃ a ∈ g, ∃ b ∈ h, key a ≠ key b)
    (hsorted : groups.flatten.Pairwise fun a b => key a ≤ key b) : Grouped key groups := by
  refine ⟨hne, hkey, ?_⟩
  -- two groups in a row have different keys, so the keys of the flattened list rise between them
  induction groups with
  | nil => exact .nil
  | cons g rest ih =>
    rw [List.flatten_cons, List.pairwise_append] at hsorted
    have ihrest := ih (fun g' hg => hne g' (List.mem_cons_of_mem _ hg))
      (fun g' hg => hkey g' (List.mem_cons_of_mem _ hg)) hstep.tail hsorted.2.1
    refine List.pairwise_cons.2 ⟨?_, ihrest⟩
    cases rest with
    | nil => simp
    | cons g₁ rest =>
      have hnext : ∀ a ∈ g, ∀ b ∈ g₁, key a < key b := by
        intro a ha b hb
        obtain ⟨a', ha', b', hb', hdiff⟩ := (List.isChain_cons_cons.1 hstep).1
        have haa := hkey g List.mem_cons_self a ha a' ha'
        have hbb := hkey g₁ (List.mem_cons_of_mem _ List.mem_cons_self) b hb b' hb'
        have hle : key a ≤ key b :=
          hsorted.2.2 a ha b (List.mem_flatten.2 ⟨g₁, List.mem_cons_self, hb⟩)
        exact lt_of_le_of_ne hle (haa ▸ hbb ▸ hdiff)
      intro h hh a ha b hb
      rcases List.mem_cons.1 hh with rfl | hh
      · exact hnext a ha b hb
      · obtain ⟨m, hm⟩ := List.exists_mem_of_ne_nil g₁
          (hne g₁ (List.mem_cons_of_mem _ List.mem_cons_self))
        exact lt_trans (hnext a ha m hm) ((List.pairwise_cons.1 ihrest).1 h hh m hm b hb)

/-- The ties of the sorted list are its groups of one key. -/
theorem grouped_ties (key : α → String) (l : List α) :
    Grouped key (ties key (sortByKey key l)) := by
  have hne : ∀ g ∈ ties key (sortByKey key l), g ≠ [] := fun g hg =>
    List.ne_nil_of_mem_splitBy hg
  refine grouped_of_sorted hne ?_ ?_ ?_
  · -- neighbours in a group have one key, hence all members
    intro g hg
    have hchain : g.IsChain fun a b => key a = key b :=
      (List.isChain_of_mem_splitBy hg).imp fun a b hab => by simpa using hab
    have htrans : IsTrans α fun a b => key a = key b := ⟨fun _ _ _ hab hbc => hab.trans hbc⟩
    have hpair : g.Pairwise fun a b => key a = key b := List.isChain_iff_pairwise.1 hchain
    have hsymm : Std.Symm fun a b => key a = key b := ⟨fun _ _ e => e.symm⟩
    exact fun a ha b hb => hpair.forall_of_forall (fun x _ => (rfl : key x = key x)) ha hb
  · -- the last member of a group and the first of the next have different keys
    refine (List.isChain_getLast_head_splitBy _ _).imp fun g h hgh => ?_
    obtain ⟨hg, hh, hdiff⟩ := hgh
    exact ⟨g.getLast hg, List.getLast_mem hg, h.head hh, List.head_mem hh, by simpa using hdiff⟩
  · rw [flatten_ties]
    exact pairwise_sortByKey key l

/-! ## The orders -/

/-- The groups of mapped entries are the mapped groups. -/
lemma ties_map (f : α → β) (key : β → String) (l : List α) :
    ties key (l.map f) = (ties (key ∘ f) l).map (List.map f) := by
  refine List.splitBy_eq_iff.2 ⟨?_, ?_, ?_, ?_⟩
  · rw [← List.map_flatten, flatten_ties]
  · intro h
    obtain ⟨g, hg, he⟩ := List.mem_map.1 h
    exact List.ne_nil_of_mem_splitBy hg (List.map_eq_nil_iff.1 he)
  · intro m hm
    obtain ⟨g, hg, rfl⟩ := List.mem_map.1 hm
    exact (List.isChain_map f).2 (List.isChain_of_mem_splitBy hg)
  · refine (List.isChain_map _).2 ((List.isChain_getLast_head_splitBy _ _).imp ?_)
    rintro g h ⟨hg, hh, hdiff⟩
    refine ⟨by simpa using hg, by simpa using hh, ?_⟩
    rwa [List.getLast_map, List.head_map]

lemma sortByKey_map (f : α → β) (key : β → String) (l : List α) :
    sortByKey key (l.map f) = (sortByKey (key ∘ f) l).map f := by
  rw [sortByKey_eq_insertionSort, sortByKey_eq_insertionSort]
  exact (List.map_insertionSort _ _ f l fun _ _ _ _ => Iff.rfl).symm

lemma tieSpace_map (f : α → β) (groups : List (List α)) :
    tieSpace (groups.map (List.map f)) = tieSpace groups := by
  simp [tieSpace, List.foldr_map]

/-- The orders of a mapped list are the mapped orders. -/
theorem orders_map (f : α → β) (key : β → String) (bound : ℕ) (l : List α) :
    orders key bound (l.map f) = (orders (key ∘ f) bound l).map (List.map f) := by
  have harr : (ties (key ∘ f) (sortByKey (key ∘ f) l)).map (arrangements ∘ List.map f) =
      ((ties (key ∘ f) (sortByKey (key ∘ f) l)).map arrangements).map (List.map (List.map f)) := by
    rw [List.map_map]
    exact List.map_congr_left fun g _ => arrangements_map f g
  simp only [orders, sortByKey_map, ties_map, tieSpace_map, List.map_map]
  split
  · rw [harr, choices_map]
  · rfl

private lemma perm_flatten_of_forall₂ {parts groups : List (List α)}
    (h : List.Forall₂ List.Perm parts groups) : parts.flatten.Perm groups.flatten := by
  induction h with
  | nil => exact .refl _
  | cons hp _ ih => exact hp.append ih

/-- To choose an arrangement of each group is to rearrange each group. -/
private lemma forall₂_mem_arrangements {parts groups : List (List α)} :
    List.Forall₂ (· ∈ ·) parts (groups.map arrangements) ↔ List.Forall₂ List.Perm parts groups := by
  rw [List.forall₂_map_right_iff]
  exact ⟨.imp fun _ _ => mem_arrangements.1, .imp fun _ _ => mem_arrangements.2⟩

/-- Every order is a permutation of the list. -/
theorem perm_of_mem_orders {key : α → String} {bound : ℕ} {o l : List α}
    (h : o ∈ orders key bound l) : o.Perm l := by
  simp only [orders] at h
  split at h
  · obtain ⟨parts, hparts, rfl⟩ := mem_choices.1 h
    have hperm := perm_flatten_of_forall₂ (forall₂_mem_arrangements.1 hparts)
    rw [flatten_ties] at hperm
    exact hperm.trans (sortByKey_perm key l)
  · rw [List.mem_singleton.1 h]
    exact sortByKey_perm key l

/-- The entries as they stand are the first arrangement. -/
lemma exists_arrangements_eq_cons (l : List α) : ∃ rest, arrangements l = l :: rest := by
  induction l with
  | nil => exact ⟨[], rfl⟩
  | cons a as ih =>
    obtain ⟨rest, hrest⟩ := ih
    have hdraws : draws as.length as = as :: rest := hrest
    rw [arrangements, List.length_cons, draws, selections, List.flatMap_cons]
    simp only [hdraws]
    exact ⟨_, rfl⟩

lemma exists_choices_eq_cons (groups : List (List α)) :
    ∃ rest, choices (groups.map arrangements) = groups.flatten :: rest := by
  induction groups with
  | nil => exact ⟨[], rfl⟩
  | cons g groups ih =>
    obtain ⟨rest, hrest⟩ := ih
    obtain ⟨others, hothers⟩ := exists_arrangements_eq_cons g
    rw [List.map_cons, choices, hrest, hothers]
    exact ⟨_, rfl⟩

/-- There are as many orders of the groups as are held against the bound. -/
lemma length_choices (groups : List (List α)) :
    (choices (groups.map arrangements)).length = tieSpace groups := by
  induction groups with
  | nil => rfl
  | cons g groups ih =>
    have heach : ∀ o ∈ arrangements g,
        ((choices (groups.map arrangements)).map (o ++ ·)).length = tieSpace groups :=
      fun o _ => by rw [List.length_map, ih]
    rw [List.map_cons, choices, List.length_flatMap, List.map_congr_left heach, List.map_const',
      List.sum_replicate_nat, length_arrangements]
    rfl

/-- The sorted order is the first of the orders. -/
theorem exists_orders_eq_cons (key : α → String) (bound : ℕ) (l : List α) :
    ∃ rest, orders key bound l = sortByKey key l :: rest := by
  simp only [orders]
  split
  · obtain ⟨rest, hrest⟩ := exists_choices_eq_cons (ties key (sortByKey key l))
    rw [hrest, flatten_ties]
    exact ⟨rest, rfl⟩
  · exact ⟨[], rfl⟩

/-- The sorted order is the only one when there are no ties or too many. -/
lemma orders_eq_singleton {key : α → String} {bound : ℕ} {l : List α}
    (h : tieSpace (ties key (sortByKey key l)) ≤ bound → tieSpace (ties key (sortByKey key l)) ≤ 1) :
    orders key bound l = [sortByKey key l] := by
  obtain ⟨rest, hrest⟩ := exists_orders_eq_cons key bound l
  suffices hlen : (orders key bound l).length ≤ 1 by
    rw [hrest, List.length_cons] at hlen
    rw [hrest, List.length_eq_zero_iff.1 (by omega : rest.length = 0)]
  simp only [orders]
  split
  · next hb => exact (length_choices _).trans_le (h hb)
  · exact le_rfl

/-- Rearranging each group keeps the keys where they are. -/
private lemma map_key_eq_of_forall₂ {key : α → String} {parts groups : List (List α)}
    (hg : Grouped key groups) (h : List.Forall₂ List.Perm parts groups) :
    parts.flatten.map key = groups.flatten.map key := by
  induction h with
  | nil => rfl
  | @cons part g parts groups hp _ ih =>
    -- the group and its permutation have one key, as often as they have members
    have hpart : part.map key = g.map key := by
      obtain ⟨m, hm⟩ := List.exists_mem_of_ne_nil g (hg.nonempty g List.mem_cons_self)
      have hsame : ∀ a ∈ g, key a = key m := fun a ha =>
        hg.sameKey g List.mem_cons_self a ha m hm
      rw [List.map_congr_left hsame, List.map_congr_left fun a ha => hsame a (hp.subset ha),
        List.map_const', List.map_const', hp.length_eq]
    rw [List.flatten_cons, List.flatten_cons, List.map_append, List.map_append, hpart, ih hg.tail]

/-- A rearrangement that keeps the keys where they are rearranges each group. -/
private lemma exists_parts {key : α → String} {groups : List (List α)} (hg : Grouped key groups)
    {o : List α} (hp : o.Perm groups.flatten) (hkey : o.map key = groups.flatten.map key) :
    ∃ parts, List.Forall₂ List.Perm parts groups ∧ o = parts.flatten := by
  induction groups generalizing o with
  | nil => exact ⟨[], .nil, List.perm_nil.1 hp⟩
  | cons g groups ih =>
    obtain ⟨m, hm⟩ := List.exists_mem_of_ne_nil g (hg.nonempty g List.mem_cons_self)
    rw [List.flatten_cons, List.map_append] at hkey
    -- the order is cut where the keys of the first group end
    obtain ⟨o₁, o₂, rfl, h₁, h₂⟩ := List.map_eq_append_iff.1 hkey
    -- the members with the key of the first group are its members, before and after
    have hin : ∀ a ∈ o₁, key a = key m := by
      intro a ha
      obtain ⟨b, hb, hab⟩ := List.mem_map.1 (h₁ ▸ List.mem_map_of_mem ha : key a ∈ g.map key)
      exact hab ▸ hg.sameKey g List.mem_cons_self b hb m hm
    have hout : ∀ a ∈ o₂, key a ≠ key m := by
      intro a ha
      obtain ⟨b, hb, hab⟩ :=
        List.mem_map.1 (h₂ ▸ List.mem_map_of_mem ha : key a ∈ groups.flatten.map key)
      exact fun e => hg.ne_of_mem_flatten hm hb (hab.trans e).symm
    have hfirst : o₁.Perm g := by
      have hf := hp.filter fun a => decide (key a = key m)
      rw [List.flatten_cons, List.filter_append, List.filter_append,
        List.filter_eq_self.2 fun a ha => decide_eq_true (hin a ha),
        List.filter_eq_nil_iff.2 fun a ha => by simpa using hout a ha,
        List.filter_eq_self.2 fun a ha =>
          decide_eq_true (hg.sameKey g List.mem_cons_self a ha m hm),
        List.filter_eq_nil_iff.2 fun a ha => by
          simpa using (hg.ne_of_mem_flatten hm ha).symm,
        List.append_nil, List.append_nil] at hf
      exact hf
    have hrest : o₂.Perm groups.flatten := by
      rw [List.flatten_cons] at hp
      exact (List.perm_append_left_iff g).1 ((hfirst.symm.append_right o₂).trans hp)
    obtain ⟨parts, hparts, rfl⟩ := ih hg.tail hrest h₂
    exact ⟨o₁ :: parts, .cons hfirst hparts, rfl⟩

/-- The keys of a permutation in ascending order are those of the sorted list. -/
private lemma map_key_eq_sorted {key : α → String} {o l : List α} (hp : o.Perm l)
    (hs : (o.map key).Pairwise (· ≤ ·)) : o.map key = (sortByKey key l).map key := by
  have hsorted : ((sortByKey key l).map key).Pairwise (· ≤ ·) :=
    List.pairwise_map.2 (pairwise_sortByKey key l)
  have hperm : (o.map key).Perm ((sortByKey key l).map key) :=
    (hp.trans (sortByKey_perm key l).symm).map key
  exact hperm.eq_of_pairwise (fun a b _ _ hab hba => String.le_antisymm hab hba) hs hsorted

/-- When all ties may be tried, the orders are the permutations with ascending keys. -/
theorem mem_orders_iff {key : α → String} {bound : ℕ} {o l : List α}
    (hb : tieSpace (ties key (sortByKey key l)) ≤ bound) :
    o ∈ orders key bound l ↔ o.Perm l ∧ (o.map key).Pairwise (· ≤ ·) := by
  have hg := grouped_ties key l
  refine ⟨fun h => ⟨perm_of_mem_orders h, ?_⟩, fun ⟨hp, hs⟩ => ?_⟩
  · simp only [orders, if_pos hb] at h
    obtain ⟨parts, hparts, rfl⟩ := mem_choices.1 h
    rw [map_key_eq_of_forall₂ hg (forall₂_mem_arrangements.1 hparts), flatten_ties]
    exact List.pairwise_map.2 (pairwise_sortByKey key l)
  · -- ascending keys are the sorted ones, so the order can be cut into the groups
    have hkey := map_key_eq_sorted hp hs
    have hperm : o.Perm (ties key (sortByKey key l)).flatten := by
      rw [flatten_ties]
      exact hp.trans (sortByKey_perm key l).symm
    obtain ⟨parts, hparts, rfl⟩ := exists_parts hg hperm (by rwa [flatten_ties])
    simp only [orders, if_pos hb]
    exact mem_choices.2 ⟨parts, forall₂_mem_arrangements.2 hparts, rfl⟩

/-! ## The number of orders -/

/-- The product of the factorials of how often each key occurs. -/
def tieCount (keys : List String) : ℕ := ∏ k ∈ keys.toFinset, (keys.count k)!

/-- The number does not depend on the order of the keys. -/
theorem tieCount_perm {keys keys' : List String} (h : keys.Perm keys') :
    tieCount keys = tieCount keys' := by
  rw [tieCount, tieCount, List.toFinset_eq_of_perm _ _ h]
  exact Finset.prod_congr rfl fun k _ => by rw [h.count_eq]

lemma factorial_eq (n : ℕ) : factorial n = n ! := by
  induction n with
  | zero => rfl
  | succ n ih => rw [factorial, ih, Nat.factorial_succ]

/-- A key that is new to the others multiplies the number by the factorial of how often it
occurs. -/
lemma tieCount_replicate_append {k : String} {n : ℕ} {keys : List String} (hn : n ≠ 0)
    (hk : k ∉ keys) : tieCount (List.replicate n k ++ keys) = n ! * tieCount keys := by
  have hset : (List.replicate n k ++ keys).toFinset = insert k keys.toFinset := by
    ext k'
    simp [hn]
  have hcount : (List.replicate n k ++ keys).count k = n := by
    rw [List.count_append, List.count_replicate_self, List.count_eq_zero_of_not_mem hk,
      Nat.add_zero]
  have hothers : ∀ k' ∈ keys.toFinset,
      (List.replicate n k ++ keys).count k' = keys.count k' := by
    intro k' hk'
    have hne : k ≠ k' := fun e => hk (e ▸ List.mem_toFinset.1 hk')
    rw [List.count_append, List.count_replicate, beq_eq_false_iff_ne.2 hne]
    simp
  rw [tieCount, tieCount, hset, Finset.prod_insert (by simpa using hk), hcount]
  exact congrArg _ (Finset.prod_congr rfl fun k' hk' => by rw [hothers k' hk'])

/-- The number of orders can be counted from the keys. -/
lemma tieSpace_eq_tieCount {key : α → String} {groups : List (List α)} (hg : Grouped key groups) :
    tieSpace groups = tieCount (groups.flatten.map key) := by
  induction groups with
  | nil => rfl
  | cons g groups ih =>
    obtain ⟨m, hm⟩ := List.exists_mem_of_ne_nil g (hg.nonempty g List.mem_cons_self)
    have hkeys : g.map key = List.replicate g.length (key m) := by
      rw [List.map_congr_left fun a ha => hg.sameKey g List.mem_cons_self a ha m hm,
        List.map_const']
    have hpos : g.length ≠ 0 := by
      rw [Ne, List.length_eq_zero_iff]
      exact hg.nonempty g List.mem_cons_self
    have hnew : key m ∉ groups.flatten.map key := by
      intro h
      obtain ⟨b, hb, he⟩ := List.mem_map.1 h
      exact hg.ne_of_mem_flatten hm hb he.symm
    show factorial g.length * tieSpace groups = _
    rw [ih hg.tail, factorial_eq, List.flatten_cons, List.map_append, hkeys,
      tieCount_replicate_append hpos hnew]

/-- What is held against the bound is the product over the keys. -/
theorem tieSpace_ties (key : α → String) (l : List α) :
    tieSpace (ties key (sortByKey key l)) = tieCount (l.map key) := by
  rw [tieSpace_eq_tieCount (grouped_ties key l), flatten_ties]
  exact tieCount_perm ((sortByKey_perm key l).map key)

end RuleFlow.Canonical
