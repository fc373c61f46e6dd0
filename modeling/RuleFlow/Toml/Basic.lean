import RuleFlow.Text.Word
import RuleFlow.Toml.Moment.Basic

/-!
# TOML values

A value remembers how a table came about, because that decides what may still be added to it
while a document is read. Floating point numbers are kept as they were written; the program
never takes more from one than that it is there.
-/

namespace RuleFlow

/-- How a table came about. -/
inductive Toml.Form where
  /-- Between braces, complete as it stands. -/
  | inline
  /-- Under a header of its own. -/
  | header
  /-- On the way to another header. -/
  | implicit
  /-- On the way to the last part of a dotted key. -/
  | dotted
  deriving DecidableEq, Inhabited

/-- A TOML value. -/
inductive Toml where
  /-- A string. -/
  | string (s : String)
  /-- A whole number. -/
  | integer (n : Int)
  /-- A floating point number as it is written. -/
  | float (text : String)
  /-- A truth value. -/
  | bool (b : Bool)
  /-- A date, a time or both. -/
  | moment (m : Toml.Moment)
  /-- A list of values. -/
  | array (items : List Toml)
  /-- A list of tables, each under a header in double brackets. -/
  | tables (elements : List Toml)
  /-- Names with values, in order. -/
  | table (form : Toml.Form) (members : List (String × Toml))
  deriving Inhabited

namespace Toml

/-- The text of a string. -/
def string? : Toml → Option String
  | .string s => some s
  | _ => none

/-- The natural number that a whole number is. -/
def natural? : Toml → Option Nat
  | .integer n => n.toNat?
  | _ => none

/-- The items of a list. -/
def items? : Toml → Option (List Toml)
  | .array items => some items
  | .tables elements => some elements
  | _ => none

/-- The name of the only member of a moment that is taken for a table. -/
def momentName : String := "$__toml_private_datetime"

/-- The members of a table. A moment counts as a table with its text for the only member. -/
def members? : Toml → Option (List (String × Toml))
  | .table _ members => some members
  | .moment m => some [(momentName, .string m.render)]
  | _ => none

/-- The strings of a list that holds nothing else. -/
def strings? (t : Toml) : Option (List String) := do
  let items ← t.items?
  items.mapM string?

/-- Whether a list or a table holds nothing. -/
def isVoid : Toml → Bool
  | .array items => items.isEmpty
  | .tables elements => elements.isEmpty
  | .table _ members => members.isEmpty
  | _ => false

/-- The name that a choice is: a string, or the name of the only member of a table when it
holds nothing. -/
def choice? : Toml → Option String
  | .string name => some name
  | .table _ [(name, t)] => if t.isVoid then some name else none
  | _ => none

/-- The values of named fields, in order, each present or missing. A list gives the first field
its first item and so on. -/
def record? (fields : List String) : Toml → Option (List (Option Toml))
  | .array items => some (fields.zipIdx.map fun (_, i) => items[i]?)
  | .tables elements => some (fields.zipIdx.map fun (_, i) => elements[i]?)
  | t => t.members?.map fun members => fields.map fun name => members.lookup name

end Toml
end RuleFlow
