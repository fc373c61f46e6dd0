/-!
# Orders of tied members

A list is sorted by the keys of its members; members with equal keys are tied. `orders` gives
every order that differs from the sorted one within the ties alone, as long as there are not
more of them than a bound allows, and the sorted order alone otherwise.
-/

namespace RuleFlow.Canonical

variable {α : Type}

/-- Each member of the list with the others, in order. -/
def selections : List α → List (α × List α)
  | [] => []
  | a :: as => (a, as) :: (selections as).map fun (b, rest) => (b, a :: rest)

/-- The ways to draw `n` members one after another. -/
def draws : Nat → List α → List (List α)
  | 0, _ => [[]]
  | n + 1, l => (selections l).flatMap fun (a, rest) => (draws n rest).map (a :: ·)

/-- All orders of the list. The list itself comes first. -/
def arrangements (l : List α) : List (List α) :=
  draws l.length l

/-- The ways to take one list from each member and put them together; the choice from the
first member changes last. -/
def choices : List (List (List α)) → List (List α)
  | [] => [[]]
  | options :: rest =>
    let tails := choices rest
    options.flatMap fun option => tails.map (option ++ ·)

/-- The number of orders of `n` members. -/
def factorial : Nat → Nat
  | 0 => 1
  | n + 1 => (n + 1) * factorial n

/-- The number of ways to order each group. -/
def tieSpace (groups : List (List α)) : Nat :=
  groups.foldr (fun group n => factorial group.length * n) 1

/-- The member put before the first one that does not have a smaller key. -/
def insertByKey (key : α → String) (a : α) : List α → List α
  | [] => [a]
  | b :: bs => if key a ≤ key b then a :: b :: bs else b :: insertByKey key a bs

/-- The list sorted by its keys, ties in the order of the list. -/
def sortByKey (key : α → String) : List α → List α
  | [] => []
  | a :: as => insertByKey key a (sortByKey key as)

/-- The runs of members with one key. -/
def ties (key : α → String) (l : List α) : List (List α) :=
  l.splitBy fun a b => key a == key b

/-- The sorted order and those that differ from it within ties, or the sorted order alone when
there would be more than the bound. -/
def orders (key : α → String) (bound : Nat) (l : List α) : List (List α) :=
  let groups := ties key (sortByKey key l)
  if tieSpace groups ≤ bound then choices (groups.map arrangements) else [sortByKey key l]

/-- Each entry is selected once. -/
theorem length_selections (l : List α) : (selections l).length = l.length := by
  induction l with
  | nil => rfl
  | cons a as ih => rw [selections, List.length_cons, List.length_map, ih, List.length_cons]

theorem length_of_mem_selections {l : List α} {p : α × List α} (h : p ∈ selections l) :
    p.2.length + 1 = l.length := by
  induction l generalizing p with
  | nil => simp [selections] at h
  | cons a as ih =>
    rw [selections, List.mem_cons] at h
    rcases h with rfl | h
    · rfl
    · obtain ⟨⟨b, rest⟩, hm, rfl⟩ := List.mem_map.1 h
      have := ih hm
      simp only [List.length_cons] at this ⊢
      omega

/-- A list can be drawn in as many ways as it has orders. -/
theorem length_draws (n : Nat) (l : List α) (h : l.length = n) :
    (draws n l).length = factorial n := by
  induction n generalizing l with
  | zero => rfl
  | succ n ih =>
    have each : ∀ p ∈ selections l, ((draws n p.2).map (p.1 :: ·)).length = factorial n := by
      intro p hp
      have := length_of_mem_selections hp
      rw [List.length_map, ih p.2 (by omega)]
    rw [draws, List.length_flatMap, List.map_congr_left each, List.map_const',
      List.sum_replicate_nat, length_selections, h, factorial]

/-- There are as many orders as the factorial counts. -/
theorem length_arrangements (l : List α) : (arrangements l).length = factorial l.length :=
  length_draws _ l rfl

end RuleFlow.Canonical
