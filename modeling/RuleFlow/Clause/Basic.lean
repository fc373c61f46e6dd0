import RuleFlow.Term

/-!
# Clauses and rules

A rule has a body and a head, both lists of clauses, and perhaps a name. A clause is a triple
pattern, a functor (a guard in a body, an action in a head) or a rule again. `Clause` holds
nested rules by their three parts, so that functions on clauses recurse on the lists.
-/

namespace RuleFlow

/-- A triple pattern. -/
structure Pattern where
  /-- The first position. -/
  subject : Term
  /-- The second position. -/
  predicate : Term
  /-- The third position. -/
  object : Term
  deriving DecidableEq, Inhabited

/-- The three positions in order. -/
def Pattern.terms (p : Pattern) : List Term := [p.subject, p.predicate, p.object]

/-- A name applied to terms. -/
structure Functor where
  /-- The name. -/
  name : String
  /-- The arguments in order. -/
  args : List Term
  deriving DecidableEq, Inhabited

/-- An entry of the body or the head of a rule. -/
inductive Clause where
  /-- A triple pattern. -/
  | pattern (p : Pattern)
  /-- A guard or an action. -/
  | functor (f : Functor)
  /-- A rule inside a rule. -/
  | nested (name : Option String) (body head : List Clause)
  deriving Inhabited

namespace Clause

mutual

/-- Equality of clauses is decided along their structure. -/
def decEq : (c d : Clause) → Decidable (c = d)
  | .pattern p, .pattern q =>
    if h : p = q then isTrue (congrArg pattern h) else isFalse fun e => h (pattern.inj e)
  | .functor f, .functor g =>
    if h : f = g then isTrue (congrArg functor h) else isFalse fun e => h (functor.inj e)
  | .nested n b h, .nested n' b' h' =>
    if hn : n = n' then
      match decEqAll b b' with
      | isTrue hb =>
        match decEqAll h h' with
        | isTrue hh => isTrue (by rw [hn, hb, hh])
        | isFalse hh => isFalse fun e => hh (nested.inj e).2.2
      | isFalse hb => isFalse fun e => hb (nested.inj e).2.1
    else isFalse fun e => hn (nested.inj e).1
  | .pattern _, .functor _ | .pattern _, .nested .. | .functor _, .pattern _
  | .functor _, .nested .. | .nested .., .pattern _ | .nested .., .functor _ =>
    isFalse nofun

/-- Equality of lists of clauses is decided member by member. -/
def decEqAll : (cs ds : List Clause) → Decidable (cs = ds)
  | [], [] => isTrue rfl
  | c :: cs, d :: ds =>
    match decEq c d with
    | isTrue hc =>
      match decEqAll cs ds with
      | isTrue hcs => isTrue (by rw [hc, hcs])
      | isFalse hcs => isFalse fun e => hcs (List.cons.inj e).2
    | isFalse hc => isFalse fun e => hc (List.cons.inj e).1
  | [], _ :: _ | _ :: _, [] => isFalse nofun

end

instance : DecidableEq Clause := decEq

/-- The triple pattern that the clause is. -/
def pattern? : Clause → Option Pattern
  | .pattern p => some p
  | _ => none

/-- The functor that the clause is. -/
def functor? : Clause → Option Functor
  | .functor f => some f
  | _ => none

/-- Whether the clause is a functor. -/
def isFunctor : Clause → Bool
  | .functor _ => true
  | _ => false

/-- Whether the clause is a rule. -/
def isNested : Clause → Bool
  | .nested .. => true
  | _ => false

end Clause

/-- A rule: when its body holds, its head follows. -/
structure Rule where
  /-- The name, when the rule has one. -/
  name : Option String
  /-- The conditions. -/
  body : List Clause
  /-- The consequences. -/
  head : List Clause
  deriving DecidableEq, Inhabited

namespace Rule

/-- The rule as a clause of another rule. -/
def toClause (r : Rule) : Clause := .nested r.name r.body r.head

/-- A rule without conditions is an axiom. -/
def isAxiom (r : Rule) : Bool := r.body.isEmpty

/-- The triple patterns of the body in order. -/
def bodyPatterns (r : Rule) : List Pattern := r.body.filterMap Clause.pattern?

/-- The functors of the body in order, which guard the rule. -/
def guards (r : Rule) : List Functor := r.body.filterMap Clause.functor?

/-- The guards are the clauses of the body that are functors. -/
theorem map_functor_guards (r : Rule) :
    r.guards.map Clause.functor = r.body.filter Clause.isFunctor := by
  unfold guards
  induction r.body with
  | nil => rfl
  | cons c cs ih =>
    cases c with
    | pattern p => exact ih
    | functor f => exact congrArg (Clause.functor f :: ·) ih
    | nested name body head => exact ih

end Rule
end RuleFlow
