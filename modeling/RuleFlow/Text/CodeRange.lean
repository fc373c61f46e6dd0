/-!
# Ranges of code points

A class of characters beyond ASCII is a list of ranges of code points. `CodeRange.covers`
asks whether one of the ranges holds a character.
-/

namespace RuleFlow

/-- The code points from `first` to `last`, both included. -/
structure CodeRange where
  /-- The least code point of the range. -/
  first : Nat
  /-- The greatest code point of the range. -/
  last : Nat
  deriving DecidableEq

namespace CodeRange

/-- Whether the range holds the code point. -/
def contains (r : CodeRange) (n : Nat) : Bool :=
  r.first ≤ n && n ≤ r.last

/-- Whether some range of the list holds the character. -/
def covers (ranges : List CodeRange) (c : Char) : Bool :=
  ranges.any (·.contains c.toNat)

/-- A character is covered when one of the ranges has its code point. -/
theorem covers_iff {ranges : List CodeRange} {c : Char} :
    covers ranges c = true ↔ ∃ r ∈ ranges, r.first ≤ c.toNat ∧ c.toNat ≤ r.last := by
  simp [covers, contains]

/-- Ranges that all begin at a code point or behind it hold no character before it. -/
theorem covers_eq_false {ranges : List CodeRange} {c : Char} {n : Nat}
    (h : ranges.all (n ≤ ·.first) = true) (hc : c.toNat < n) : covers ranges c = false := by
  rw [Bool.eq_false_iff]
  intro hcovers
  obtain ⟨r, hr, hfirst, -⟩ := covers_iff.1 hcovers
  have hn : n ≤ r.first := of_decide_eq_true (List.all_eq_true.1 h r hr)
  omega

end CodeRange
end RuleFlow
