import RuleFlow.Clause.Render
import RuleFlow.Diagnostic.Json

/-!
# Reports on compilations

The report says of every rule whether it was compiled, is an axiom, or was left out and why. A
rule that is left out does not keep the others from being compiled. Warnings tell of rules that
were compiled but may not do what their writer expects.
-/

namespace RuleFlow

/-- Why a rule is left out of the network. -/
inductive SkipReason where
  /-- The head of an axiom has a clause that is no pattern. -/
  | axiomHead (clause : Clause)
  /-- The body of a rule has a rule inside. -/
  | nestedInBody (clause : Clause)
  /-- The body has no pattern. -/
  | emptyPrior
  deriving DecidableEq

namespace Diagnostic

/-- The diagnostic of a clause without a place in the network. -/
def unsupportedClause (clause : Clause) : Diagnostic :=
  ⟨.unsupportedClause, "Unsupported clause " ++ clause.render, none, none⟩

/-- The diagnostic of a rule whose body has no pattern. -/
def emptyPrior (rule : String) : Diagnostic :=
  (mk .emptyPrior ("Rule " ++ rule ++ " has no triple patterns in its body") none none).withField
    "rule" rule

end Diagnostic

/-- The diagnostic of a rule that is left out. -/
def SkipReason.diagnostic (rule : String) : SkipReason → Diagnostic
  | .axiomHead clause =>
    ((Diagnostic.unsupportedClause clause).withField "rule" rule).withHint
      "Axiom heads may only contain triple patterns"
  | .nestedInBody clause =>
    ((Diagnostic.unsupportedClause clause).withField "rule" rule).withHint
      "Nested rules may only appear in a rule head"
  | .emptyPrior => Diagnostic.emptyPrior rule

/-- A rule that is left out. -/
structure Skip where
  /-- The name of the rule. -/
  rule : String
  /-- Why it is left out. -/
  reason : SkipReason
  deriving DecidableEq

/-- The diagnostic of a rule that is left out. -/
def Skip.diagnostic (s : Skip) : Diagnostic := s.reason.diagnostic s.rule

/-- What a compiled rule may do against the expectation of its writer. -/
inductive Warning where
  /-- Two operators without a common variable are joined. -/
  | crossJoin (rule left right : String)
  /-- A builtin cannot run in a network. -/
  | unsupportedBuiltin (rule builtin : String)
  deriving DecidableEq

namespace Warning

/-- The warning in words. -/
def message : Warning → String
  | .crossJoin rule left right => rule ++ ": cross join of " ++ left ++ " and " ++ right
  | .unsupportedBuiltin rule builtin =>
    rule ++ ": builtin " ++ builtin ++ " is not supported in a topology"

/-- The warning as a record. -/
def toJson : Warning → Json
  | .crossJoin rule left right =>
    .object [("kind", .string "cross_join"), ("rule", .string rule), ("left", .string left),
      ("right", .string right)]
  | .unsupportedBuiltin rule builtin =>
    .object [("kind", .string "unsupported_builtin"), ("rule", .string rule),
      ("builtin", .string builtin)]

end Warning

/-- What became of the rules of a compilation. -/
structure Report where
  /-- The names of the rules with operators in the network. -/
  compiled : List String := []
  /-- The names of the axioms. -/
  axioms : List String := []
  /-- The rules that are left out, the axioms among them first. -/
  skipped : List Skip := []
  /-- The warnings, rule by rule. -/
  warnings : List Warning := []
  deriving DecidableEq, Inhabited

namespace Report

/-- Whether no rule was left out and there are no warnings. -/
def isClean (r : Report) : Bool := r.skipped.isEmpty && r.warnings.isEmpty

/-- The report as a record. -/
def toJson (r : Report) : Json :=
  .object [("compiled", Json.strings r.compiled), ("axioms", Json.strings r.axioms),
    ("skipped", .array (r.skipped.map fun s =>
      .object [("rule", .string s.rule), ("error", s.diagnostic.toJson)])),
    ("warnings", .array (r.warnings.map Warning.toJson))]

end Report
end RuleFlow
