import RuleFlow.Diagnostic.Basic
import RuleFlow.Reader.Document

/-!
# Diagnostics of texts that cannot be read
-/

namespace RuleFlow.ReadError

/-- The code of the error. -/
def code : ReadError → Code
  | .syntaxAt .. => .invalidRuleSyntax
  | .notASingleRule _ => .invalidRuleSyntax
  | .undefinedPrefix _ => .undefinedPrefix
  | .unexpectedEnd => .unexpectedEnd

/-- The diagnostic of the error. A prefix without a declaration is named, and the hint shows
how it is declared. -/
def diagnostic (e : ReadError) : Diagnostic :=
  let d : Diagnostic := ⟨e.code, e.message, none, none⟩
  match e with
  | .undefinedPrefix name =>
    (d.withField "prefix" name).withHint ("Declare it with @prefix " ++ name ++ ": <...> .")
  | _ => d

end RuleFlow.ReadError
