import RuleFlow.Canonical.Numbering

/-!
# Canonical forms

The canonical form of a list of clauses is its best order with numbered variables. Its text is
the key by which operators are shared: two lists that differ in the names of variables and in
order alone have one key, as long as the search for the best order is not cut short.
-/

namespace RuleFlow

/-- The canonical form of a list of clauses. -/
structure CanonicalForm where
  /-- The clauses of the form as text, with spaces between them. -/
  key : String
  /-- The clauses in canonical order, with numbered variables. -/
  clauses : List Clause
  /-- The variables of the list, each at the place of its number. -/
  order : List Variable
  deriving DecidableEq

namespace CanonicalForm

/-- The variables of the form, in the order of their numbers. -/
def vars (form : CanonicalForm) : List Variable :=
  Canonical.numberedVariables form.order.length

/-- The number of a variable of the list. -/
def numberOf? (form : CanonicalForm) (v : Variable) : Option Nat :=
  form.order.findIdx? (· == v)

end CanonicalForm

namespace Canonical

/-- How many orders of tied clauses are tried when nothing else is asked for. -/
def defaultBound : Nat := 720

/-- The bound for a wanted number of orders: at least one is tried. -/
def boundFor (wanted : Nat) : Nat := max wanted 1

/-- The canonical form of a list of clauses. -/
def form (bound : Nat) (cs : List Clause) : CanonicalForm :=
  let numbered := clauses bound cs []
  ⟨numbered.text, numbered.value, numbered.seen⟩

/-- The canonical form of a rule, whose body and head share their numbers. -/
def canonicalRule (bound : Nat) (r : Rule) : Rule := (rule bound r []).value

/-- The canonical form of a rule as text. -/
def ruleKey (bound : Nat) (r : Rule) : String := (rule bound r []).text

end Canonical
end RuleFlow
