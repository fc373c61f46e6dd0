import RuleFlow.Json.Basic

/-!
# Records in JSON

A record is written as an object that names its fields, and may be read from an array of their
values in order as well. Other members of the object are ignored; a field given twice, or an
array with more values than there are fields, is no record. A choice among names is written as
the name, and may be read from an object whose only member has that name and no value.
-/

namespace RuleFlow.Json

/-- The only value of a name among members: `some none` when there is none, and nothing when
there are several. -/
def onlyValue? (name : String) (members : List (String × Json)) : Option (Option Json) :=
  match members.filter (·.1 = name) with
  | [] => some none
  | [(_, j)] => some (some j)
  | _ => none

/-- The values of the named fields, in order, each present or missing. -/
def record? (fields : List String) : Json → Option (List (Option Json))
  | .object members => fields.mapM (onlyValue? · members)
  | .array items =>
    if items.length ≤ fields.length then
      some (items.map some ++ List.replicate (fields.length - items.length) none)
    else none
  | _ => none

/-- The name that a choice is. -/
def choice? : Json → Option String
  | .string name => some name
  | .object [(name, .null)] => some name
  | _ => none

/-- A field that must be present. -/
def required? {α : Type} (read? : Json → Option α) : Option Json → Option α
  | some j => read? j
  | none => none

/-- A field whose absence stands for a default. -/
def orDefault? {α : Type} (default : α) (read? : Json → Option α) : Option Json → Option α
  | some j => read? j
  | none => some default

/-- A field whose absence or `null` stands for no value. -/
def optional? {α : Type} (read? : Json → Option α) : Option Json → Option (Option α)
  | none => some none
  | some .null => some none
  | some j => (read? j).map some

end RuleFlow.Json
