import RuleFlow.Diagnostic.Basic
import RuleFlow.Json.Record
import RuleFlow.Json.Writer
import RuleFlow.Json.Reader

/-!
# Diagnostics as JSON

A diagnostic is a record of its code, message, circumstances and hint. What is empty or missing
is left out, except that circumstances which were given stay even when all of them are empty.
-/

namespace RuleFlow

namespace Context

/-- The circumstances as a record. -/
def toJson (c : Context) : Json :=
  .object ((if c.fields.isEmpty then []
      else [("fields", .object (c.fields.map Json.string).entries)]) ++
    (match c.location with
      | some location => [("location", .string location)]
      | none => []) ++
    if c.causes.isEmpty then [] else [("causes", Json.strings c.causes)])

/-- The details that an object gives. -/
def fieldsOfJson? (j : Json) : Option (Table String) := do
  let members ← j.members?
  let pairs ← members.mapM fun (name, value) => value.string?.map (name, ·)
  some (Table.ofList pairs)

/-- The circumstances that a record gives. -/
def ofJson? (j : Json) : Option Context := do
  let [fields, location, causes] ← j.record? ["fields", "location", "causes"] | none
  some { fields := ← Json.orDefault? {} fieldsOfJson? fields
         location := ← Json.optional? Json.string? location
         causes := ← Json.orDefault? [] Json.strings? causes }

end Context

namespace Diagnostic

/-- The diagnostic as a record. -/
def toJson (d : Diagnostic) : Json :=
  .object ([("code", .string d.code.name), ("message", .string d.message)] ++
    (match d.context with
      | some c => [("context", c.toJson)]
      | none => []) ++
    (match d.hint with
      | some hint => [("hint", .string hint)]
      | none => []))

/-- The diagnostic that a record gives. -/
def ofJson? (j : Json) : Option Diagnostic := do
  let [code, message, context, hint] ← j.record? ["code", "message", "context", "hint"] | none
  some { code := ← Json.required? (fun c => c.choice?.bind Code.ofName?) code
         message := ← Json.required? Json.string? message
         context := ← Json.optional? Context.ofJson? context
         hint := ← Json.optional? Json.string? hint }

/-- The diagnostic on one line of JSON. -/
def jsonText (d : Diagnostic) : String := d.toJson.compact

/-- The diagnostic that a text of JSON gives. -/
def ofJsonText? (text : String) : Option Diagnostic :=
  (Json.ofText? text).bind ofJson?

/-- The diagnostic about a text that is no JSON. -/
def badJson (message : String) : Diagnostic :=
  (Diagnostic.mk .internalError message none none).withField "format" "JSON"

end Diagnostic
end RuleFlow
