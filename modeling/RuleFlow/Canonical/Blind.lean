import RuleFlow.Canonical.Order
import RuleFlow.Clause.Render

/-!
# Blind keys

The blind key of a clause is its text with every variable written as a bare question mark and,
inside nested rules, the clauses sorted. Renaming variables does not change it, and neither does
the order of the clauses inside a nested rule.
-/

namespace RuleFlow

/-- The text of a term, which tells no variable from another. -/
def Term.blind : Term → String
  | .var _ => "?"
  | t => t.render

/-- The text of a pattern without its variables' names. -/
def Pattern.blind (p : Pattern) : String :=
  "(" ++ p.subject.blind ++ " " ++ p.predicate.blind ++ " " ++ p.object.blind ++ ")"

/-- The text of a functor without its variables' names. -/
def Functor.blind (f : Functor) : String :=
  f.name ++ "(" ++ Text.joinWith " " (f.args.map Term.blind) ++ ")"

namespace Canonical

/-- The texts in ascending order, put together with spaces. -/
def sortedText (texts : List String) : String :=
  Text.joinWith " " (sortByKey id texts)

end Canonical

namespace Clause

mutual

/-- The text of a clause without its variables' names and without the order of clauses inside
nested rules. -/
def blindKey : Clause → String
  | .pattern p => p.blind
  | .functor f => f.blind
  | .nested name body head =>
    "[ " ++ name.getD "" ++ " : " ++ Canonical.sortedText (blindKeys body) ++ " -> " ++
      Canonical.sortedText (blindKeys head) ++ " ]"

/-- The blind keys of the clauses. -/
def blindKeys : List Clause → List String
  | [] => []
  | c :: cs => blindKey c :: blindKeys cs

end

/-- Blind keys are given to clauses one by one. -/
theorem blindKeys_eq_map (cs : List Clause) : blindKeys cs = cs.map blindKey := by
  induction cs with
  | nil => rfl
  | cons c cs ih => rw [blindKeys, ih, List.map_cons]

end Clause
end RuleFlow
