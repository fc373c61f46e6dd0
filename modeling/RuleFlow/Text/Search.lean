/-!
# Parts of a text

Cutting a list of characters at a fixed beginning, at its last separator, and asking whether
one text stands somewhere inside another.
-/

namespace RuleFlow.Text

/-- What follows `start` in `s`, when `s` begins with it. -/
def dropStart? : (start s : List Char) → Option (List Char)
  | [], s => some s
  | _ :: _, [] => none
  | c :: start, d :: s => if c = d then dropStart? start s else none

/-- The start can be dropped exactly when the text begins with it. -/
theorem dropStart?_eq_some_iff {start s rest : List Char} :
    dropStart? start s = some rest ↔ s = start ++ rest := by
  induction start generalizing s with
  | nil => simp [dropStart?, eq_comm]
  | cons c start ih =>
    cases s with
    | nil => simp [dropStart?]
    | cons d s =>
      by_cases h : c = d
      · simp [dropStart?, h, ih]
      · simp [dropStart?, h, Ne.symm h]

/-- Whether `part` stands somewhere in `s`. -/
def hasPart (part : List Char) : List Char → Bool
  | [] => part.isEmpty
  | c :: s => (dropStart? part (c :: s)).isSome || hasPart part s

/-- The text after the last character that is a separator, or the whole text. -/
def afterLast (isSeparator : Char → Bool) (s : String) : String :=
  String.ofList ((s.toList.reverse.takeWhile fun c => !isSeparator c).reverse)

/-- The text without `start`, when it begins with it, and as it is otherwise. -/
def withoutStart (start s : String) : String :=
  match dropStart? start.toList s.toList with
  | some rest => String.ofList rest
  | none => s

end RuleFlow.Text
