import RuleFlow.Text.Hex
import RuleFlow.Text.Join
import RuleFlow.Toml.Assembly

/-!
# Writing TOML

A document is written with a header for every table that has values of its own or is empty,
the values first and the tables below them after. Strings are written in the form that needs no
escapes, when there is one. A list with two items or more takes a line for each.
-/

namespace RuleFlow.Toml

/-! ## Strings -/

/-- The longest run of a character in a text that goes on from a run. -/
def longestRun (mark : Char) (run : Nat) : List Char → Nat
  | [] => run
  | c :: s =>
    if c = mark then longestRun mark (run + 1) s else max run (longestRun mark 0 s)

/-- A control character that has to be escaped wherever it stands. -/
def isControl (c : Char) : Bool := (c.toNat < 32 && c ≠ '\t' && c ≠ '\n') || c.toNat = 127

/-- A character as an escape, when it needs one. A quote needs one when it goes beyond the
allowed run of quotes. -/
def escapeChar (isMulti : Bool) (quotes : Nat) (c : Char) : List Char :=
  if c = '\x08' then ['\\', 'b']
  else if c = '\t' then ['\\', 't']
  else if c = '\n' then if isMulti then ['\n'] else ['\\', 'n']
  else if c = '\x0c' then ['\\', 'f']
  else if c = '\r' then ['\\', 'r']
  else if c = '\\' then ['\\', '\\']
  else if c = '"' then if isMulti && quotes < 2 then ['"'] else ['\\', '"']
  else if c.toNat < 32 ∨ c.toNat = 127 then
    ['\\', 'u', '0', '0', (Text.hexDigit (c.toNat / 16)).toUpper,
      (Text.hexDigit (c.toNat % 16)).toUpper]
  else [c]

/-- The text with escapes, after a run of quotes that were written as they are. -/
def escapeAll (isMulti : Bool) : Nat → List Char → List Char
  | _, [] => []
  | quotes, c :: s =>
    let written := escapeChar isMulti quotes c
    written ++ escapeAll isMulti (if written = ['"'] then quotes + 1 else 0) s

/-- A string between quotes. -/
def basic (s : String) : String :=
  "\"" ++ String.ofList (escapeAll false 0 s.toList) ++ "\""

/-- A string between apostrophes. -/
def literal (s : String) : String := "'" ++ s ++ "'"

/-- Whether the string runs over several lines. -/
def isMultiLine (s : String) : Bool := s.toList.contains '\n'

/-- The line end behind the opening marks of a string that runs over several lines. -/
def opening (s : String) : String := if isMultiLine s then "\n" else ""

/-- A string between three quotes. -/
def multiBasic (s : String) : String :=
  "\"\"\"" ++ opening s ++ String.ofList (escapeAll true 0 s.toList) ++ "\"\"\""

/-- A string between three apostrophes. -/
def multiLiteral (s : String) : String := "'''" ++ opening s ++ s ++ "'''"

/-- A string in the first form that fits: between quotes without escapes, between apostrophes,
the same with three marks over several lines, and else with escapes. -/
def quote (s : String) : String :=
  let cs := s.toList
  let hasControl := cs.any isControl
  let hasBackslash := cs.contains '\\'
  let quotes := longestRun '"' 0 cs
  let apostrophes := longestRun '\'' 0 cs
  if !hasControl && !hasBackslash && quotes = 0 && !isMultiLine s then basic s
  else if !hasControl && apostrophes = 0 && !isMultiLine s then literal s
  else if !hasControl && !hasBackslash && quotes ≤ 2 then multiBasic s
  else if !hasControl && apostrophes ≤ 2 then multiLiteral s
  else if isMultiLine s then multiBasic s
  else basic s

/-- A part of a key: bare, or in the first form on one line that fits. -/
def writeKey (name : String) : String :=
  let cs := name.toList
  let hasControl := cs.any fun c => isControl c || c = '\n'
  if !cs.isEmpty && cs.all (fun c => c.isAlphanum || c = '_' || c = '-') then name
  else if !hasControl && !cs.contains '\\' && !cs.contains '"' then basic name
  else if !hasControl && !cs.contains '\'' then literal name
  else basic name

/-! ## Values and tables -/

/-- Written items between brackets. -/
def writeList (items : List String) : String :=
  if items.length ≤ 1 then "[" ++ Text.concat items ++ "]"
  else "[" ++ Text.concat (items.map ("\n    " ++ · ++ ",")) ++ "\n]"

mutual

/-- A value on the right of a key. -/
def writeValue : Toml → String
  | .string s => quote s
  | .integer n => toString n
  | .float text => text
  | .bool b => if b then "true" else "false"
  | .moment m => m.render
  | .array items => writeList (writeValues items)
  | .tables elements => writeList (writeValues elements)
  | .table _ members => "\x7b " ++ Text.joinWith ", " (writePairs members) ++ " \x7d"

/-- The values in order. -/
def writeValues : List Toml → List String
  | [] => []
  | t :: ts => writeValue t :: writeValues ts

/-- The keys with their values in order. -/
def writePairs : List (String × Toml) → List String
  | [] => []
  | (name, t) :: rest => (writeKey name ++ " = " ++ writeValue t) :: writePairs rest

end

/-- Whether a value is written below a header. -/
def isTable : Toml → Bool
  | .table .. => true
  | _ => false

mutual

/-- The sections of a table: its own, when it has values or nothing at all, and those of the
tables below it. -/
def sectionsOf (path : List String) : Toml → List String
  | .table _ members =>
    let values := writePairs (members.filter fun m => !isTable m.2)
    let below := sectionsBelow path members
    if values.isEmpty && !members.isEmpty then below
    else
      let header := if path.isEmpty then "" else "[" ++ Text.joinWith "." path ++ "]\n"
      (header ++ Text.concat (values.map (· ++ "\n"))) :: below
  | _ => []

/-- The sections of the tables among the members. -/
def sectionsBelow (path : List String) : List (String × Toml) → List String
  | [] => []
  | (name, t) :: rest => sectionsOf (path ++ [writeKey name]) t ++ sectionsBelow path rest

end

/-- A document, with an empty line before each header but the first. -/
def write (members : Members) : String :=
  Text.joinWith "\n" (sectionsOf [] (.table .header members))

end RuleFlow.Toml
