import RuleFlow.Text.CodeRange

/-!
# Blank characters

The characters of the Unicode property `White_Space`, and texts with the blanks at their ends
left out. The rule language itself separates its words by `Text.isSpacing` alone; blanks
beyond that decide whether the unread end of a text counts as empty.
-/

namespace RuleFlow.Text

/-- The code points with the property `White_Space`. -/
def blankRanges : List CodeRange :=
  [⟨0x9, 0xd⟩, ⟨0x20, 0x20⟩, ⟨0x85, 0x85⟩, ⟨0xa0, 0xa0⟩, ⟨0x1680, 0x1680⟩, ⟨0x2000, 0x200a⟩,
    ⟨0x2028, 0x2029⟩, ⟨0x202f, 0x202f⟩, ⟨0x205f, 0x205f⟩, ⟨0x3000, 0x3000⟩]

/-- Whether a character is blank. -/
def isBlank (c : Char) : Bool :=
  CodeRange.covers blankRanges c

/-- A space, a tab, a carriage return or a line feed. -/
def isSpacing (c : Char) : Bool :=
  c = ' ' || c = '\t' || c = '\r' || c = '\n'

/-- The characters from the first that is not blank. -/
def trimStart (s : List Char) : List Char :=
  s.dropWhile isBlank

/-- Nothing is left of a text without other characters than blanks. -/
theorem trimStart_eq_nil_iff {s : List Char} : trimStart s = [] ↔ ∀ c ∈ s, isBlank c = true := by
  induction s with
  | nil => simp [trimStart]
  | cons c s ih =>
    cases h : isBlank c
    · simp [trimStart, h]
    · rw [trimStart, List.dropWhile_cons_of_pos h, List.forall_mem_cons]
      exact ih.trans (and_iff_right h).symm

end RuleFlow.Text
