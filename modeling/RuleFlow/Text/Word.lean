/-!
# Machine words in decimal

Counts and bounds of the program are unsigned words of 64 bits. A word is written in decimal
digits, with an optional plus sign, and a number that does not fit is none.
-/

namespace RuleFlow.Text

/-- The number of words of 64 bits, 2⁶⁴. -/
def wordLimit : Nat := 18446744073709551616

/-- The value of a list of characters read as decimal digits. -/
def digitsValue (digits : List Char) : Nat :=
  digits.foldl (fun n c => 10 * n + (c.toNat - '0'.toNat)) 0

/-- The value of a nonempty list of decimal digits. -/
def decimal? (s : List Char) : Option Nat :=
  if s.isEmpty || !s.all Char.isDigit then none else some (digitsValue s)

/-- The digits of a number are read as the number. -/
theorem decimal?_toString (n : Nat) : decimal? (toString n).toList = some n := by
  have hdigits : (toString n).toList = Nat.toDigits 10 n := Nat.toList_repr
  have hall : (Nat.toDigits 10 n).all Char.isDigit = true :=
    List.all_eq_true.2 fun _ hc => Nat.isDigit_of_mem_toDigits (by decide) (by decide) hc
  have hsome : (Nat.toDigits 10 n).isEmpty = false := by simp [Nat.toDigits_ne_nil]
  rw [hdigits, decimal?, hall, hsome]
  exact congrArg some Nat.ofDigitChars_ten_toDigits

/-- The word that a text writes in decimal, an optional plus sign before it. -/
def word? (s : String) : Option Nat :=
  let digits := match s.toList with
    | '+' :: rest => rest
    | all => all
  (decimal? digits).filter (· < wordLimit)

/-- The text in small letters, as far as they are ASCII letters. -/
def lowerAscii (s : String) : String :=
  s.map Char.toLower

end RuleFlow.Text
