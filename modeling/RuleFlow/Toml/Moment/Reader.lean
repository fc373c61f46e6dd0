import RuleFlow.Toml.Lexeme

/-!
# Reading dates and times

Every reader takes the characters that are left and gives what it read with the characters
behind it, or nothing when the text is not well formed.
-/

namespace RuleFlow.Toml.Lexeme

/-- So many decimal digits at the front. -/
def fixedDigits? (count : Nat) (s : List Char) : Option (Nat × List Char) :=
  let ds := s.take count
  if ds.length = count ∧ ds.all Char.isDigit then some (valueInBase 10 ds, s.drop count)
  else none

/-- Two digits from a range. -/
def twoDigits? (low high : Nat) (s : List Char) : Option (Nat × List Char) :=
  (fixedDigits? 2 s).filter fun (n, _) => low ≤ n && n ≤ high

/-- The number of days in a month. -/
def daysIn (year month : Nat) : Nat :=
  if month = 2 then
    if year % 4 = 0 ∧ (year % 100 ≠ 0 ∨ year % 400 = 0) then 29 else 28
  else if month = 4 ∨ month = 6 ∨ month = 9 ∨ month = 11 then 30
  else 31

/-- A day. -/
def day? (s : List Char) : Option (Day × List Char) := do
  let (year, r) ← fixedDigits? 4 s
  let r ← Text.dropStart? ['-'] r
  let (month, r) ← twoDigits? 1 12 r
  let r ← Text.dropStart? ['-'] r
  let (day, rest) ← twoDigits? 1 (daysIn year month) r
  some (⟨year, month, day⟩, rest)

/-- The nanoseconds that the digits behind the point of a second mean. Digits behind the ninth
do not count. -/
def nanosecondsOf (digits : List Char) : Nat :=
  let kept := digits.take 9
  valueInBase 10 kept * Nat.pow 10 (9 - kept.length)

/-- A time of a day. -/
def timeOfDay? (s : List Char) : Option (TimeOfDay × List Char) := do
  let (hour, r) ← twoDigits? 0 23 s
  let r ← Text.dropStart? [':'] r
  let (minute, r) ← twoDigits? 0 59 r
  let r ← Text.dropStart? [':'] r
  let (second, r) ← twoDigits? 0 60 r
  match r with
  | '.' :: f =>
    let digits := f.takeWhile Char.isDigit
    if digits.isEmpty then none
    else some (⟨hour, minute, second, nanosecondsOf digits⟩, f.dropWhile Char.isDigit)
  | rest => some (⟨hour, minute, second, 0⟩, rest)

/-- A distance from universal time, behind its sign. -/
def distance? (s : List Char) : Option (Nat × List Char) := do
  let (hours, r) ← twoDigits? 0 23 s
  let r ← Text.dropStart? [':'] r
  let (minutes, rest) ← twoDigits? 0 59 r
  some (60 * hours + minutes, rest)

/-- A zone, when there is one. -/
def zone? (s : List Char) : Option (Option Zone × List Char) :=
  match s with
  | 'Z' :: rest => some (some .universal, rest)
  | 'z' :: rest => some (some .universal, rest)
  | '+' :: r => (distance? r).map fun (n, rest) => (some (.ahead n), rest)
  | '-' :: r => (distance? r).map fun (n, rest) => (some (.ahead (-n)), rest)
  | rest => some (none, rest)

/-- Whether a time follows the day, and not just a space. -/
def startsTime : List Char → Bool
  | c :: s => (c = 'T' || c = 't' || c = ' ') && (s.take 2).length = 2 &&
      (s.take 2).all Char.isDigit && (s.drop 2).head? = some ':'
  | [] => false

/-- A date, a time or both. -/
def moment? (s : List Char) : Option (Moment × List Char) :=
  if (s.drop 2).head? = some ':' then (timeOfDay? s).map fun (t, rest) => (.time t, rest)
  else do
    let (d, r) ← day? s
    if startsTime r then
      let (t, r) ← timeOfDay? (r.drop 1)
      let (zone, rest) ← zone? r
      some (.both d t zone, rest)
    else some (.day d, r)

/-- Whether a date or a time begins here, and not a number. -/
def startsMoment (s : List Char) : Bool :=
  (((s.take 4).length = 4 && (s.take 4).all Char.isDigit) && (s.drop 4).head? = some '-') ||
  (((s.take 2).length = 2 && (s.take 2).all Char.isDigit) && (s.drop 2).head? = some ':')

end RuleFlow.Toml.Lexeme
