import RuleFlow.Diagnostic.Code
import RuleFlow.Table
import RuleFlow.Text.Join
import RuleFlow.Text.Search

/-!
# Diagnostics

A diagnostic tells a reader what went wrong: a code and a message, perhaps with named details, a
place, causes and a hint. The parts of the program have errors of their own and turn them into
diagnostics to be shown; `Diagnostic.display` is the form in which one is shown.
-/

namespace RuleFlow

/-- The circumstances of a diagnostic. -/
structure Context where
  /-- Named details, in the order in which they were given. -/
  fields : Table String := {}
  /-- The place, for instance a file. -/
  location : Option String := none
  /-- What led to it, the outermost cause first. -/
  causes : List String := []
  deriving DecidableEq, Inhabited

namespace Context

/-- Adds a detail, or gives one another value. -/
def withField (c : Context) (name value : String) : Context :=
  { c with fields := c.fields.insert name value }

/-- Sets the place. -/
def withLocation (c : Context) (location : String) : Context :=
  { c with location := some location }

/-- Adds a cause behind the others. -/
def withCause (c : Context) (cause : String) : Context :=
  { c with causes := c.causes ++ [cause] }

end Context

/-- An account of something that went wrong. -/
structure Diagnostic where
  /-- What it is about. -/
  code : Code
  /-- The account in words. -/
  message : String
  /-- The circumstances, when there are any to tell. -/
  context : Option Context := none
  /-- How to mend it. -/
  hint : Option String := none
  deriving DecidableEq, Inhabited

namespace Diagnostic

/-- Changes the circumstances, which begin empty. -/
def mapContext (d : Diagnostic) (f : Context → Context) : Diagnostic :=
  { d with context := some (f (d.context.getD {})) }

/-- Adds a detail, or gives one another value. -/
def withField (d : Diagnostic) (name value : String) : Diagnostic :=
  d.mapContext (·.withField name value)

/-- Adds a cause. -/
def withCause (d : Diagnostic) (cause : String) : Diagnostic :=
  d.mapContext (·.withCause cause)

/-- Sets the place. -/
def withLocation (d : Diagnostic) (location : String) : Diagnostic :=
  d.mapContext (·.withLocation location)

/-- Sets the hint. -/
def withHint (d : Diagnostic) (hint : String) : Diagnostic :=
  { d with hint := some hint }

/-- Sets the code and keeps all else. -/
def withCode (d : Diagnostic) (code : Code) : Diagnostic :=
  { d with code := code }

/-- The value of a detail. -/
def field? (d : Diagnostic) (name : String) : Option String :=
  d.context.bind (·.fields.find? name)

/-- The place. -/
def location? (d : Diagnostic) : Option String :=
  d.context.bind (·.location)

/-- Whether the diagnostic ends a whole compilation. -/
def isFatal (d : Diagnostic) : Bool := d.code.isFatal

/-- The lines on the causes. -/
def causeLines : List String → String
  | [] => ""
  | causes => "\nCaused by:" ++ Text.concat (causes.map ("\n  - " ++ ·))

/-- The circumstances behind the message: the rule, unless the message names it already, the
place, and the causes on lines of their own. -/
def circumstances (message : String) (c : Context) : String :=
  (match c.fields.find? "rule" with
    | some rule =>
      if Text.hasPart rule.toList message.toList then "" else " (rule " ++ rule ++ ")"
    | none => "") ++
  (match c.location with
    | some location => " at " ++ location
    | none => "") ++
  causeLines c.causes

/-- The diagnostic as it is shown: the number of its code between brackets, the message, the
circumstances and the hint. -/
def display (d : Diagnostic) : String :=
  "[" ++ toString d.code.number ++ "] " ++ d.message ++
  (match d.context with
    | some c => circumstances d.message c
    | none => "") ++
  (match d.hint with
    | some hint => "\nHint: " ++ hint
    | none => "")

end Diagnostic
end RuleFlow
