import RuleFlow.Text.Word

/-!
# JSON values

A value keeps the order of an object's members. A number is kept as it was written, because
only natural numbers are ever taken from one. A string with one half of a surrogate pair stands
for no text; it is kept as it was written too, and so is an object with such a name.
-/

namespace RuleFlow

/-- A JSON value. -/
inductive Json where
  /-- The value `null`. -/
  | null
  /-- A truth value. -/
  | bool (b : Bool)
  /-- A number as it is written. -/
  | number (digits : String)
  /-- A string. -/
  | string (s : String)
  /-- A list of values. -/
  | array (items : List Json)
  /-- Names with values, in order. -/
  | object (members : List (String × Json))
  /-- A value as it is written, when a string in it stands for no text. -/
  | verbatim (written : String)
  deriving Inhabited

namespace Json

/-- A natural number. -/
def ofNat (n : Nat) : Json := .number (toString n)

/-- A list of strings. -/
def strings (texts : List String) : Json := .array (texts.map .string)

/-- The members of an object. -/
def members? : Json → Option (List (String × Json))
  | .object members => some members
  | _ => none

/-- The items of an array. -/
def items? : Json → Option (List Json)
  | .array items => some items
  | _ => none

/-- The text of a string. -/
def string? : Json → Option String
  | .string s => some s
  | _ => none

/-- The word that a number is: digits alone, and not too many. -/
def word? : Json → Option Nat
  | .number digits => (Text.decimal? digits.toList).filter (· < Text.wordLimit)
  | _ => none

/-- The strings of an array that holds nothing else. -/
def strings? (j : Json) : Option (List String) :=
  match j.items? with
  | some items => items.mapM string?
  | none => none

/-- A number below the limit is read as the word that was written. -/
@[simp] theorem word?_ofNat {n : Nat} (h : n < Text.wordLimit) : word? (ofNat n) = some n := by
  show (Text.decimal? (toString n).toList).filter (· < Text.wordLimit) = some n
  rw [Text.decimal?_toString]
  simpa [Option.filter] using h

end Json
end RuleFlow
