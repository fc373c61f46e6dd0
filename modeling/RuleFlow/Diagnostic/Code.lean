/-!
# Codes of diagnostics

Every diagnostic has a code. Its number tells the area: 1000 and on for reading, 2000 for
compiling, 3000 for wiring, 5000 for what a caller asks, 7000 for the configuration, 9000 for
faults of the program itself.
-/

namespace RuleFlow

/-- What a diagnostic is about. -/
inductive Code where
  /-- A text could not be read. -/
  | parseError
  /-- The text of a rule is broken. -/
  | invalidRuleSyntax
  /-- A prefix was not declared. -/
  | undefinedPrefix
  /-- A text ends too early. -/
  | unexpectedEnd
  /-- A rule could not be compiled. -/
  | compileError
  /-- A clause has no place in the network. -/
  | unsupportedClause
  /-- The body of a rule gives no operator. -/
  | emptyPrior
  /-- A name stands for an operator of the wrong shape. -/
  | registryViolation
  /-- An edge names an operator that was not declared. -/
  | unknownOperator
  /-- The caller's options exclude one another. -/
  | validationError
  /-- The configuration is wrong. -/
  | configError
  /-- The configuration cannot be read. -/
  | configNotFound
  /-- The text of the configuration is broken. -/
  | invalidConfigSyntax
  /-- A profile is neither built in nor defined. -/
  | unknownProfile
  /-- A value of the configuration is out of range. -/
  | invalidConfigValue
  /-- The program is at fault. -/
  | internalError
  deriving DecidableEq, Inhabited

namespace Code

/-- The codes in the order of their numbers. -/
def all : List Code :=
  [.parseError, .invalidRuleSyntax, .undefinedPrefix, .unexpectedEnd, .compileError,
    .unsupportedClause, .emptyPrior, .registryViolation, .unknownOperator, .validationError,
    .configError, .configNotFound, .invalidConfigSyntax, .unknownProfile, .invalidConfigValue,
    .internalError]

/-- The number of a code. -/
def number : Code → Nat
  | .parseError => 1000
  | .invalidRuleSyntax => 1001
  | .undefinedPrefix => 1002
  | .unexpectedEnd => 1003
  | .compileError => 2000
  | .unsupportedClause => 2001
  | .emptyPrior => 2002
  | .registryViolation => 2003
  | .unknownOperator => 3001
  | .validationError => 5000
  | .configError => 7000
  | .configNotFound => 7001
  | .invalidConfigSyntax => 7002
  | .unknownProfile => 7003
  | .invalidConfigValue => 7004
  | .internalError => 9000

/-- The name of a code in data. -/
def name : Code → String
  | .parseError => "PARSE_ERROR"
  | .invalidRuleSyntax => "INVALID_RULE_SYNTAX"
  | .undefinedPrefix => "UNDEFINED_PREFIX"
  | .unexpectedEnd => "UNEXPECTED_EOF"
  | .compileError => "COMPILE_ERROR"
  | .unsupportedClause => "UNSUPPORTED_CLAUSE"
  | .emptyPrior => "EMPTY_PRIOR"
  | .registryViolation => "REGISTRY_INVARIANT_VIOLATION"
  | .unknownOperator => "UNKNOWN_OPERATOR"
  | .validationError => "VALIDATION_ERROR"
  | .configError => "CONFIG_ERROR"
  | .configNotFound => "CONFIG_NOT_FOUND"
  | .invalidConfigSyntax => "INVALID_CONFIG_SYNTAX"
  | .unknownProfile => "UNKNOWN_PROFILE"
  | .invalidConfigValue => "INVALID_CONFIG_VALUE"
  | .internalError => "INTERNAL_ERROR"

/-- A code in a few words. -/
def description : Code → String
  | .parseError => "Parse error"
  | .invalidRuleSyntax => "Invalid rule syntax"
  | .undefinedPrefix => "Undefined prefix"
  | .unexpectedEnd => "Unexpected end of input"
  | .compileError => "Compile error"
  | .unsupportedClause => "Unsupported clause"
  | .emptyPrior => "Rule body yields no operator"
  | .registryViolation => "Registry invariant violation"
  | .unknownOperator => "Unknown operator"
  | .validationError => "Validation error"
  | .configError => "Configuration error"
  | .configNotFound => "Configuration file not found"
  | .invalidConfigSyntax => "Invalid configuration syntax"
  | .unknownProfile => "Unknown profile"
  | .invalidConfigValue => "Invalid configuration value"
  | .internalError => "Internal error"

/-- The code of a name. -/
def ofName? (text : String) : Option Code :=
  all.find? (·.name = text)

/-- Whether a diagnostic of this code ends a whole compilation. The others end that of one
rule. -/
def isFatal : Code → Bool
  | .registryViolation | .unknownOperator | .internalError => true
  | _ => false

/-- The exit status of a process that ends with this code, by the area of the code. -/
def exitStatus (c : Code) : Nat :=
  match c.number / 1000 with
  | 1 => 65
  | 7 => 78
  | 5 => 64
  | _ => 70

end Code
end RuleFlow
