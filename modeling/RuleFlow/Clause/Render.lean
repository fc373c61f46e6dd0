import RuleFlow.Clause.Basic
import RuleFlow.Text.Join

/-!
# Clauses as text

The written forms of patterns, functors, clauses and rules in the rule language.
-/

namespace RuleFlow

/-- The pattern as the rule language writes it. -/
def Pattern.render (p : Pattern) : String :=
  "(" ++ p.subject.render ++ " " ++ p.predicate.render ++ " " ++ p.object.render ++ ")"

/-- The functor as the rule language writes it. -/
def Functor.render (f : Functor) : String :=
  f.name ++ "(" ++ Text.joinWith " " (f.args.map Term.render) ++ ")"

/-- A rule put together from the texts of its clauses: the name and a colon when it has a
name, the body, an arrow and the head, all between brackets. -/
def Rule.frame (name : Option String) (body head : List String) : String :=
  "[ " ++ (match name with
    | some n => n ++ " : "
    | none => "") ++
  Text.concat (body.map (· ++ " ")) ++ "->" ++ Text.concat (head.map (" " ++ ·)) ++ " ]"

namespace Clause

mutual

/-- The clause as the rule language writes it. -/
def render : Clause → String
  | .pattern p => p.render
  | .functor f => f.render
  | .nested name body head => Rule.frame name (renderAll body) (renderAll head)

/-- The texts of the clauses. -/
def renderAll : List Clause → List String
  | [] => []
  | c :: cs => render c :: renderAll cs

end

/-- Clauses are written one by one. -/
theorem renderAll_eq_map (cs : List Clause) : renderAll cs = cs.map render := by
  induction cs with
  | nil => rfl
  | cons c cs ih => rw [renderAll, ih, List.map_cons]

end Clause

/-- The rule as the rule language writes it. -/
def Rule.render (r : Rule) : String :=
  Rule.frame r.name (r.body.map Clause.render) (r.head.map Clause.render)

/-- A rule is written in the same way as a clause. -/
theorem Rule.render_toClause (r : Rule) : r.toClause.render = r.render := by
  rw [Rule.toClause, Clause.render, Clause.renderAll_eq_map, Clause.renderAll_eq_map]
  rfl

end RuleFlow
