import RuleFlow.Text.Join

/-!
# Dates and times

A moment of a TOML text is a day, a time of a day, or both, and a moment with both may say how
far its clock is from universal time. `Moment.render` writes each moment in one way, whichever
of the spellings that TOML allows it was read from.
-/

namespace RuleFlow.Toml

/-- A day of the calendar. -/
structure Day where
  /-- The year. -/
  year : Nat
  /-- The month, from one on. -/
  month : Nat
  /-- The day of the month, from one on. -/
  day : Nat
  deriving DecidableEq, Inhabited

/-- A time of a day. -/
structure TimeOfDay where
  /-- The hour. -/
  hour : Nat
  /-- The minute. -/
  minute : Nat
  /-- The second. -/
  second : Nat
  /-- The part of the second that has passed. -/
  nanosecond : Nat
  deriving DecidableEq, Inhabited

/-- How far a clock is from universal time. -/
inductive Zone where
  /-- It shows universal time. -/
  | universal
  /-- It is so many minutes ahead. -/
  | ahead (minutes : Int)
  deriving DecidableEq, Inhabited

/-- A date, a time or both. -/
inductive Moment where
  /-- A day alone. -/
  | day (d : Day)
  /-- A time alone. -/
  | time (t : TimeOfDay)
  /-- A time of a day, by a clock of a zone when one is given. -/
  | both (d : Day) (t : TimeOfDay) (zone : Option Zone)
  deriving DecidableEq, Inhabited

/-- A number with zeros before it up to the width. -/
def paddedNumber (width n : Nat) : String :=
  String.ofList (List.replicate (width - (toString n).length) '0') ++ toString n

/-- The day, with dashes. -/
def Day.render (d : Day) : String :=
  paddedNumber 4 d.year ++ "-" ++ paddedNumber 2 d.month ++ "-" ++ paddedNumber 2 d.day

/-- The part of a second, behind a point and without zeros at its end. A whole second has
none. -/
def renderNanosecond (n : Nat) : String :=
  if n = 0 then ""
  else "." ++ String.ofList
    ((paddedNumber 9 n).toList.reverse.dropWhile (· = '0')).reverse

/-- The time, with colons. -/
def TimeOfDay.render (t : TimeOfDay) : String :=
  paddedNumber 2 t.hour ++ ":" ++ paddedNumber 2 t.minute ++ ":" ++ paddedNumber 2 t.second ++
    renderNanosecond t.nanosecond

/-- The zone: a letter for universal time, else a sign with hours and minutes. -/
def Zone.render : Zone → String
  | .universal => "Z"
  | .ahead minutes =>
    (if minutes < 0 then "-" else "+") ++ paddedNumber 2 (minutes.natAbs / 60) ++ ":" ++
      paddedNumber 2 (minutes.natAbs % 60)

/-- The moment, a day and its time with a letter between them. -/
def Moment.render : Moment → String
  | .day d => d.render
  | .time t => t.render
  | .both d t zone => d.render ++ "T" ++ t.render ++ (zone.map Zone.render).getD ""

end RuleFlow.Toml
