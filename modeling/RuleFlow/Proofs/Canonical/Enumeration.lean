import Mathlib.Algebra.Order.BigOperators.GroupWithZero.List
import Mathlib.Algebra.Order.Ring.Nat
import Mathlib.Data.List.FinRange
import Mathlib.Data.List.Permutation
import RuleFlow.Proofs.Canonical.Ties
import RuleFlow.Text.Word

/-!
# Which orders are tried, and how they are counted

`Ties` says what the orders of a list are for whoever searches them. Here they are taken as
orders of places: a list of keys has the places `0, 1, …`, which differ even where the keys do not,
so it makes sense to ask whether an order comes twice. `Enumerates` says what is tried for a list
of keys, and `orders_enumerate` that this is what `orders` tries.

The number of orders is counted in machine words. `ordersInWords` counts one factor after
another, gives up as soon as a product is no word or is above the bound, and lets the orders grow
by one group of ties at a time. It comes to the same orders (`ordersInWords_eq`), and no product
that it needs is too large for a word.
-/

namespace RuleFlow.Canonical

open scoped Nat

variable {α : Type}

/-! ## No order comes twice -/

/-- A list without repetitions has no arrangement twice: there are no more arrangements than
permutations, and each permutation is one. -/
lemma nodup_arrangements {l : List α} (h : l.Nodup) : (arrangements l).Nodup := by
  have hpermutations : l.permutations.Nodup := List.nodup_permutations l h
  have hsub : l.permutations ⊆ arrangements l := fun o ho =>
    mem_arrangements.2 (List.mem_permutations.1 ho)
  have hlength : (arrangements l).length ≤ l.permutations.length := by
    rw [length_arrangements, List.length_permutations, factorial_eq]
  have hperm := (hpermutations.subperm hsub).perm_of_length_le hlength
  exact hperm.nodup_iff.1 hpermutations

/-- Orders of groups that have no member in common or twice come once each. -/
lemma nodup_choices {groups : List (List α)} (h : groups.flatten.Nodup) :
    (choices (groups.map arrangements)).Nodup := by
  induction groups with
  | nil => exact List.nodup_singleton []
  | cons g groups ih =>
    rw [List.flatten_cons, List.nodup_append] at h
    rw [List.map_cons, choices, List.nodup_flatMap]
    refine ⟨fun o _ => (ih h.2.1).map (List.append_right_injective o), ?_⟩
    -- arrangements of one group are equally long, so they are found again at the front
    refine (nodup_arrangements h.1).imp_of_mem fun {o o'} ho ho' hne => ?_
    intro whole hwhole hwhole'
    obtain ⟨tail, -, rfl⟩ := List.mem_map.1 hwhole
    obtain ⟨tail', -, heq⟩ := List.mem_map.1 hwhole'
    have hlength : o'.length = o.length := by
      rw [(mem_arrangements.1 ho').length_eq, (mem_arrangements.1 ho).length_eq]
    exact hne (List.append_inj_left heq hlength).symm

/-- There are no more orders than the bound allows. -/
lemma length_orders_le {bound : ℕ} (hbound : 1 ≤ bound) (key : α → String) (l : List α) :
    (orders key bound l).length ≤ bound := by
  simp only [orders]
  split
  · next hle => exact (length_choices _).trans_le hle
  · exact hbound

/-- Of different entries no order is tried twice. -/
theorem nodup_orders {key : α → String} {bound : ℕ} {l : List α} (h : l.Nodup) :
    (orders key bound l).Nodup := by
  simp only [orders]
  split
  · apply nodup_choices
    rw [flatten_ties]
    exact (sortByKey_perm key l).nodup_iff.2 h
  · exact List.nodup_singleton _

/-! ## The sorted order keeps ties as they are -/

/-- By keys first, and by another relation where the keys are equal. -/
def ByKeyThen (key : α → String) (r : α → α → Prop) (a b : α) : Prop :=
  key a < key b ∨ key a = key b ∧ r a b

lemma ByKeyThen.le {key : α → String} {r : α → α → Prop} {a b : α} (h : ByKeyThen key r a b) :
    key a ≤ key b := by
  rcases h with h | ⟨h, -⟩
  · exact le_of_lt h
  · exact le_of_eq h

/-- An entry that comes before the others goes before those of its own key. -/
lemma pairwise_insertByKey {key : α → String} {r : α → α → Prop} {a : α} {l : List α}
    (ha : ∀ b ∈ l, r a b) (hl : l.Pairwise (ByKeyThen key r)) :
    (insertByKey key a l).Pairwise (ByKeyThen key r) := by
  induction l with
  | nil => exact List.pairwise_singleton _ a
  | cons b bs ih =>
    obtain ⟨hb, hbs⟩ := List.pairwise_cons.1 hl
    rw [insertByKey]
    split
    · next hle =>
      refine List.pairwise_cons.2 ⟨fun c hc => ?_, hl⟩
      have hac : key a ≤ key c := by
        rcases List.mem_cons.1 hc with rfl | hc'
        · exact hle
        · exact le_trans hle (hb c hc').le
      exact (lt_or_eq_of_le hac).imp_right fun heq => ⟨heq, ha c hc⟩
    · next hlt =>
      refine List.pairwise_cons.2 ⟨fun c hc => ?_, ih (fun c hc => ha c (.tail b hc)) hbs⟩
      rw [insertByKey_eq_orderedInsert, List.mem_orderedInsert] at hc
      rcases hc with rfl | hc
      · exact .inl (lt_of_not_ge hlt)
      · exact hb c hc

/-- Sorting is stable: members with one key stay in the order of the list. -/
theorem pairwise_sortByKey_then {key : α → String} {r : α → α → Prop} {l : List α}
    (h : l.Pairwise r) : (sortByKey key l).Pairwise (ByKeyThen key r) := by
  induction l with
  | nil => exact List.Pairwise.nil
  | cons a as ih =>
    obtain ⟨ha, has⟩ := List.pairwise_cons.1 h
    rw [sortByKey]
    exact pairwise_insertByKey (fun b hb => ha b ((sortByKey_perm key as).mem_iff.1 hb)) (ih has)

/-! ## Counting in words -/

/-- The product of two words, when it is a word. -/
def product? (m n : ℕ) : Option ℕ := if m * n < Text.wordLimit then some (m * n) else none

/-- A word times the number of orders of so many members, one factor after another. -/
def timesFactorial? (space size : ℕ) : Option ℕ := (List.range' 1 size).foldlM product? space

/-- The number of ways to order each group, computed from group to group as long as the products
are words and within the bound. -/
def tieSpace? (bound : ℕ) (groups : List (List α)) : Option ℕ :=
  groups.foldlM (fun space group => (timesFactorial? space group.length).filter (· ≤ bound)) 1

/-- The orders found so far, each of them followed by every order of the next group. -/
def grow (found : List (List α)) (group : List α) : List (List α) :=
  found.flatMap fun order => (arrangements group).map (order ++ ·)

/-- How many orders there will be when the next group is put behind those found so far. -/
def room (found : List (List α)) (group : List α) : ℕ :=
  found.length * (arrangements group).length

/-- The orders of a list, counted in words before any of them is made. -/
def ordersInWords (key : α → String) (bound : ℕ) (l : List α) : List (List α) :=
  match tieSpace? bound (ties key (sortByKey key l)) with
  | some _ => (ties key (sortByKey key l)).foldl grow [[]]
  | none => [sortByKey key l]

lemma prod_map_pos {β : Type} {size : β → ℕ} {bs : List β} (hpos : ∀ b ∈ bs, 0 < size b) :
    0 < (bs.map size).prod :=
  List.prod_pos (List.forall_mem_map.2 hpos)

/-- A product that is given up at a limit is found just when the whole product is below it, if no
factor is zero. -/
lemma foldlM_below {β : Type} {size : β → ℕ} {step : ℕ → β → Option ℕ} {limit : ℕ} {bs : List β}
    (hpos : ∀ b ∈ bs, 0 < size b)
    (hstep : ∀ n < limit, ∀ b,
      step n b = if n * size b < limit then some (n * size b) else none)
    {n : ℕ} (hn : n < limit) :
    bs.foldlM step n =
      if n * (bs.map size).prod < limit then some (n * (bs.map size).prod) else none := by
  induction bs generalizing n with
  | nil => simp [hn]
  | cons b bs ih =>
    obtain ⟨-, hposRest⟩ := List.forall_mem_cons.1 hpos
    rw [List.foldlM_cons, hstep n hn, List.map_cons, List.prod_cons, ← Nat.mul_assoc]
    by_cases hnext : n * size b < limit
    · rw [if_pos hnext]
      exact ih hposRest hnext
    · -- the factors to come do not make the product smaller again
      have hle : n * size b ≤ n * size b * (bs.map size).prod :=
        Nat.le_mul_of_pos_right _ (prod_map_pos hposRest)
      rw [if_neg hnext, if_neg (by omega)]
      rfl

lemma prod_range' (size : ℕ) : (List.range' 1 size).prod = size ! := by
  induction size with
  | zero => rfl
  | succ n ih =>
    rw [List.range'_1_concat, List.prod_append, ih, List.prod_singleton, Nat.factorial_succ,
      Nat.mul_comm, Nat.add_comm]

/-- The factors are all taken exactly when their product is a word. -/
lemma timesFactorial?_eq {space : ℕ} (h : space < Text.wordLimit) (size : ℕ) :
    timesFactorial? space size =
      if space * size ! < Text.wordLimit then some (space * size !) else none := by
  have hpos : ∀ n ∈ List.range' 1 size, 0 < id n := fun n hn => (List.mem_range'_1.1 hn).1
  have hstep : ∀ m < Text.wordLimit, ∀ n,
      product? m n = if m * id n < Text.wordLimit then some (m * id n) else none :=
    fun _ _ _ => rfl
  unfold timesFactorial?
  rw [foldlM_below hpos hstep h, List.map_id, prod_range']

/-- The number of orders is the product of those of the groups. -/
lemma tieSpace_eq_prod (groups : List (List α)) :
    tieSpace groups = (groups.map fun g => g.length !).prod := by
  induction groups with
  | nil => rfl
  | cons g groups ih =>
    rw [List.map_cons, List.prod_cons, ← ih, ← factorial_eq]
    rfl

/-- Counting in words finds the number of orders just when it is within the bound. -/
theorem tieSpace?_eq {bound : ℕ} (hword : bound < Text.wordLimit) (hbound : 1 ≤ bound)
    (groups : List (List α)) :
    tieSpace? bound groups = if tieSpace groups ≤ bound then some (tieSpace groups) else none := by
  have hstep : ∀ n < bound + 1, ∀ g : List α,
      (timesFactorial? n g.length).filter (fun m => decide (m ≤ bound)) =
        if n * g.length ! < bound + 1 then some (n * g.length !) else none := by
    intro n hn g
    rw [timesFactorial?_eq (by omega)]
    generalize n * g.length ! = m
    by_cases hle : m ≤ bound
    · rw [if_pos (by omega), if_pos (by omega), Option.filter_some, if_pos (decide_eq_true hle)]
    · rw [if_neg (show ¬m < bound + 1 by omega)]
      split
      · rw [Option.filter_some, if_neg (by simpa using hle)]
      · rfl
  unfold tieSpace?
  rw [foldlM_below (fun g _ => Nat.factorial_pos g.length) hstep (by omega), Nat.one_mul,
    ← tieSpace_eq_prod]
  simp only [Nat.lt_succ_iff]

/-- Growing by one group after another makes the same orders as choosing from all of them. -/
lemma foldl_grow (groups : List (List α)) (found : List (List α)) :
    groups.foldl grow found =
      found.flatMap fun order => (choices (groups.map arrangements)).map (order ++ ·) := by
  induction groups generalizing found with
  | nil => simp [choices]
  | cons g groups ih =>
    rw [List.foldl_cons, ih, grow, List.flatMap_assoc, List.map_cons, choices]
    refine List.flatMap_congr fun order _ => ?_
    rw [List.flatMap_map, List.map_flatMap]
    refine List.flatMap_congr fun option _ => ?_
    simp [Function.comp_def]

/-- Orders that grow by a group at a time are the choices of an order for each. -/
lemma foldl_grow_nil (groups : List (List α)) :
    groups.foldl grow [[]] = choices (groups.map arrangements) := by
  rw [foldl_grow, List.flatMap_singleton]
  exact List.map_id _

/-- Before each group there are no more orders to come than at the end. -/
lemma room_le (before : List (List α)) (group : List α) (after : List (List α)) :
    room (before.foldl grow [[]]) group ≤ tieSpace (before ++ group :: after) := by
  have hafter : 0 < (after.map fun g => g.length !).prod :=
    prod_map_pos fun g _ => Nat.factorial_pos g.length
  rw [room, foldl_grow_nil, length_choices, length_arrangements, factorial_eq, tieSpace_eq_prod,
    tieSpace_eq_prod, List.map_append, List.prod_append, List.map_cons, List.prod_cons]
  exact Nat.mul_le_mul_left _ (Nat.le_mul_of_pos_right _ hafter)

/-- Counting in words and growing from group to group finds the same orders. -/
theorem ordersInWords_eq {key : α → String} {bound : ℕ} (hword : bound < Text.wordLimit)
    (hbound : 1 ≤ bound) (l : List α) : ordersInWords key bound l = orders key bound l := by
  unfold ordersInWords
  simp only [orders, tieSpace?_eq hword hbound]
  by_cases hle : tieSpace (ties key (sortByKey key l)) ≤ bound
  · simp only [if_pos hle, foldl_grow_nil]
  · simp only [if_neg hle]

/-- There are more orders of 21 equal keys than words, so however large the bound may be, the
sorted order is the only one. -/
example : ordersInWords (fun _ => "") (Text.wordLimit - 1) (List.finRange 21) =
    [List.finRange 21] := by
  decide +kernel

/-! ## The orders of the places of a list of keys -/

/-- These orders of places are what has to be tried for a list of keys. -/
structure Enumerates {n : ℕ} (key : Fin n → String) (bound : ℕ) (sorted : List (Fin n))
    (found : List (List (Fin n))) : Prop where
  /-- The sorted order has each place once, by keys and then from the front. -/
  stable : sorted.Perm (List.finRange n) ∧ sorted.Pairwise (ByKeyThen key (· < ·))
  /-- The sorted order is the first. -/
  first : ∃ others, found = sorted :: others
  /-- The number to be held against the bound is the product over the runs of equal keys. -/
  space : tieCount (List.ofFn key) = ((ties key sorted).map fun run => run.length !).prod
  /-- Within the bound every order with ascending keys is there, and none comes twice. -/
  all : tieCount (List.ofFn key) ≤ bound → found.Nodup ∧
    ∀ o, o ∈ found ↔ o.Perm (List.finRange n) ∧ (o.map key).Pairwise (· ≤ ·)
  /-- Above the bound the sorted order is the only one. -/
  single : bound < tieCount (List.ofFn key) → found = [sorted]
  /-- There are no more orders than the bound allows. -/
  bounded : found.length ≤ bound
  /-- Counting in words comes to the same orders. -/
  inWords : found = ordersInWords key bound (List.finRange n)
  /-- The count is the product, unless this is above the bound. -/
  counted : tieSpace? bound (ties key sorted) =
    if tieCount (List.ofFn key) ≤ bound then some (tieCount (List.ofFn key)) else none
  /-- While the orders are made, the number of those to come is always a word. -/
  fits : tieCount (List.ofFn key) ≤ bound → ∀ before run after,
    ties key sorted = before ++ run :: after →
      room (before.foldl grow [[]]) run < Text.wordLimit

/-- What is tried for the keys of a list is what has to be tried, and the list is put in these
orders. -/
theorem orders_enumerate (key : α → String) (l : List α) {bound : ℕ} (hbound : 1 ≤ bound)
    (hword : bound < Text.wordLimit) :
    ∃ sorted found, Enumerates (key ∘ l.get) bound sorted found ∧
      orders (key ∘ l.get) bound (List.finRange l.length) = found ∧
      orders key bound l = found.map (List.map l.get) := by
  let keyAt : Fin l.length → String := key ∘ l.get
  let places := List.finRange l.length
  let sorted := sortByKey keyAt places
  have hkeys : places.map keyAt = List.ofFn keyAt := (List.ofFn_eq_map ..).symm
  have hspace : tieSpace (ties keyAt sorted) = tieCount (List.ofFn keyAt) := by
    rw [← hkeys]
    exact tieSpace_ties keyAt places
  obtain ⟨others, hfirst⟩ := exists_orders_eq_cons keyAt bound places
  refine ⟨sorted, orders keyAt bound places, ⟨?_, ⟨others, hfirst⟩, ?_, ?_, ?_, ?_, ?_, ?_, ?_⟩,
    rfl, ?_⟩
  · exact ⟨sortByKey_perm keyAt places,
      pairwise_sortByKey_then (List.pairwise_lt_finRange l.length)⟩
  · rw [← tieSpace_eq_prod, hspace]
  · intro hle
    exact ⟨nodup_orders (List.nodup_finRange _), fun o => mem_orders_iff (hspace.trans_le hle)⟩
  · intro hlt
    apply orders_eq_singleton
    intro hle
    exact absurd (hspace.symm.trans_le hle) (Nat.not_le.2 hlt)
  · exact length_orders_le hbound keyAt places
  · exact (ordersInWords_eq hword hbound places).symm
  · rw [tieSpace?_eq hword hbound, hspace]
  · intro hle before run after hties
    calc room (before.foldl grow [[]]) run
        ≤ tieSpace (before ++ run :: after) := room_le before run after
      _ = tieCount (List.ofFn keyAt) := by rw [← hties, hspace]
      _ ≤ bound := hle
      _ < Text.wordLimit := hword
  · have hget := orders_map l.get key bound places
    rwa [List.map_get_finRange] at hget

/-- Four keys in two runs, with as many orders as the bound allows. -/
theorem orders_enumerate_of_two_runs :
    let l := ["b", "a", "b", "a"]
    let found : List (List (Fin 4)) := [[1, 3, 0, 2], [1, 3, 2, 0], [3, 1, 0, 2], [3, 1, 2, 0]]
    1 ≤ 4 ∧ 4 < Text.wordLimit ∧ Enumerates (id ∘ l.get) 4 [1, 3, 0, 2] found ∧
      orders (id ∘ l.get) 4 (List.finRange 4) = found ∧
      orders id 4 l = found.map (List.map l.get) := by
  intro l found
  have hbound : 1 ≤ 4 := by decide
  have hword : 4 < Text.wordLimit := by decide
  have hfound : orders (id ∘ l.get) 4 (List.finRange 4) = found := by decide +kernel
  obtain ⟨sorted, found', henumerates, hplaces, hl⟩ := orders_enumerate id l hbound hword
  obtain rfl : found = found' := hfound.symm.trans hplaces
  obtain ⟨others, hothers⟩ := henumerates.first
  obtain rfl : [1, 3, 0, 2] = sorted := (List.cons.inj hothers).1
  exact ⟨hbound, hword, henumerates, hfound, hl⟩

end RuleFlow.Canonical
