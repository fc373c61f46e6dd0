import RuleFlow.Table
import RuleFlow.Term

/-!
# Declared prefixes

A prefix stands for a namespace. The table of declared prefixes begins with the four that
every rule text knows; a later declaration of a prefix replaces its namespace.
-/

namespace RuleFlow

/-- The declared prefixes and their namespaces. -/
abbrev Prefixes := Table String

namespace Prefixes

/-- The prefixes that need no declaration. -/
def standard : Prefixes :=
  Table.ofList [("rdf", Vocabulary.rdf), ("rdfs", Vocabulary.rdfs), ("xsd", Vocabulary.xsd),
    ("owl", Vocabulary.owl)]

/-- The table after a declaration. -/
def declare (ps : Prefixes) (name namespaceIri : String) : Prefixes :=
  ps.insert name namespaceIri

/-- The standard prefixes with further declarations, in order. -/
def withDeclared (pairs : List (String × String)) : Prefixes :=
  pairs.foldl (fun ps p => ps.declare p.1 p.2) standard

/-- The IRI that a prefix and a local name stand for. -/
def resolve? (ps : Prefixes) (name localName : String) : Option String :=
  (ps.find? name).map (· ++ localName)

/-- A prefixed name has no IRI exactly when its prefix is not declared. -/
theorem resolve?_eq_none_iff {ps : Prefixes} {name localName : String} :
    ps.resolve? name localName = none ↔ ps.find? name = none := by
  simp [resolve?]

end Prefixes
end RuleFlow
