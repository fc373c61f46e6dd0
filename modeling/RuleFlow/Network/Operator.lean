import RuleFlow.Clause.Render

/-!
# Operators

A network is made of operators, which pass tuples on. A filter matches facts with one pattern,
a join puts the tuples of two operators together, a terminal fires the head of one rule, the
conflict set takes all derived facts, and the axiom source gives out the facts that hold from
the start.

The variables of an operator name the positions of its tuples: position `i` holds a value of
the variable at `i`. Joins and terminals refer to positions of the operators before them.
-/

namespace RuleFlow

/-- The kinds of operators. -/
inductive Kind where
  /-- Matches facts with one pattern. -/
  | filter
  /-- Puts the tuples of two operators together. -/
  | join
  /-- Fires the head of one rule. -/
  | terminal
  /-- Takes the derived facts. -/
  | conflictSet
  /-- Gives out the axioms. -/
  | axiomSource
  deriving DecidableEq, Inhabited

namespace Kind

/-- The kinds, from the facts on. -/
def all : List Kind := [.filter, .join, .terminal, .conflictSet, .axiomSource]

/-- The name of a kind. -/
def name : Kind → String
  | .filter => "filter"
  | .join => "join"
  | .terminal => "terminal"
  | .conflictSet => "conflict_set"
  | .axiomSource => "axiom_source"

/-- The kind of a name. -/
def ofName? (text : String) : Option Kind := all.find? (·.name = text)

/-- Whether rules share operators of this kind. -/
def isShared : Kind → Bool
  | .filter | .join => true
  | _ => false

/-- The kind of operator is found again from its name. -/
@[simp] theorem ofName?_name (k : Kind) : ofName? k.name = some k := by
  cases k <;> decide

end Kind

/-- The operator that matches facts with one pattern. -/
structure Filter where
  /-- The name, which is the canonical text of the pattern, perhaps with a number. -/
  name : String
  /-- The pattern in canonical variables. -/
  pattern : Pattern
  /-- The variables of the pattern. -/
  vars : List Variable
  deriving DecidableEq

/-- What a join remembers of each side. -/
structure Window where
  /-- How many tuples. -/
  capacity : Nat := 5000
  /-- For how many seconds. -/
  seconds : Nat := 900
  deriving DecidableEq, Inhabited

/-- The operator that puts the tuples of two operators together when they agree on the
variables that both sides have. -/
structure Join where
  /-- The name, which is the canonical text of the clauses, perhaps with a number. -/
  name : String
  /-- The name of the operator on the left. -/
  left : String
  /-- The name of the operator on the right. -/
  right : String
  /-- The clauses that the join matches, in canonical variables. -/
  template : List Clause
  /-- The variables of the clauses. -/
  vars : List Variable
  /-- For each position on the left, the position on the right with the same variable. -/
  matchLeft : List (Option Nat)
  /-- For each position on the right, the position on the left with the same variable. -/
  matchRight : List (Option Nat)
  /-- For each position of the join, the position on the left with the same variable. -/
  templateLeft : List (Option Nat)
  /-- For each position of the join, the position on the right with the same variable. -/
  templateRight : List (Option Nat)
  /-- What the join remembers. -/
  window : Window := {}
  deriving DecidableEq

namespace Join

/-- The pairs of a position on the left and one on the right that have to agree. -/
def agreements (j : Join) : List (Nat × Nat) :=
  j.matchLeft.zipIdx.filterMap fun (r, l) => r.map (l, ·)

/-- The positions on the left that have to agree with the right. -/
def leftKey (j : Join) : List Nat := j.agreements.map (·.1)

/-- The positions on the right that have to agree with the left, in the order of `leftKey`. -/
def rightKey (j : Join) : List Nat := j.agreements.map (·.2)

/-- Whether the sides have no variable in common. -/
def isCross (j : Join) : Bool := j.matchLeft.all Option.isNone

end Join

/-- The operator that fires the head of one rule for each tuple of the operator before it. -/
structure Terminal where
  /-- The name. -/
  name : String
  /-- The name of the rule. -/
  rule : String
  /-- The name of the operator that matches the body of the rule. -/
  prior : String
  /-- The variables of the rule at the positions of that operator. -/
  vars : List Variable
  /-- The functors of the body, which have to hold before the head fires. -/
  guards : List Functor
  /-- The head of the rule. -/
  head : List Clause
  deriving DecidableEq

/-- An operator of a network. -/
inductive Operator where
  /-- Matches facts with one pattern. -/
  | filter (f : Filter)
  /-- Puts the tuples of two operators together. -/
  | join (j : Join)
  /-- Fires the head of one rule. -/
  | terminal (t : Terminal)
  /-- Takes the derived facts of all terminals, which every filter reads again. -/
  | conflictSet (name : String)
  /-- Gives out the axioms once at the start. -/
  | axiomSource (name : String) (axioms : List Pattern)
  deriving DecidableEq

namespace Operator

/-- The kind of an operator. -/
def kind : Operator → Kind
  | .filter _ => .filter
  | .join _ => .join
  | .terminal _ => .terminal
  | .conflictSet _ => .conflictSet
  | .axiomSource .. => .axiomSource

/-- The name of an operator. -/
def name : Operator → String
  | .filter f => f.name
  | .join j => j.name
  | .terminal t => t.name
  | .conflictSet name => name
  | .axiomSource name _ => name

/-- The variables at the positions of an operator's tuples. -/
def vars : Operator → List Variable
  | .filter f => f.vars
  | .join j => j.vars
  | .terminal t => t.vars
  | .conflictSet _ | .axiomSource .. => []

/-- How many values a tuple of the operator has. -/
def arity (op : Operator) : Nat := op.vars.length

/-- The filter that the operator is. -/
def filter? : Operator → Option Filter
  | .filter f => some f
  | _ => none

/-- The join that the operator is. -/
def join? : Operator → Option Join
  | .join j => some j
  | _ => none

/-- The terminal that the operator is. -/
def terminal? : Operator → Option Terminal
  | .terminal t => some t
  | _ => none

@[simp] theorem filter?_eq_some_iff {op : Operator} {f : Filter} :
    op.filter? = some f ↔ op = .filter f := by
  cases op <;> simp [filter?]

@[simp] theorem join?_eq_some_iff {op : Operator} {j : Join} :
    op.join? = some j ↔ op = .join j := by
  cases op <;> simp [join?]

@[simp] theorem terminal?_eq_some_iff {op : Operator} {t : Terminal} :
    op.terminal? = some t ↔ op = .terminal t := by
  cases op <;> simp [terminal?]

/-- The rule that an operator computes: its head is what the operator gives out. -/
def subRule : Operator → Rule
  | .filter f => ⟨some f.name, [.pattern f.pattern], [.pattern f.pattern]⟩
  | .join j => ⟨some j.name, j.template, j.template⟩
  | .terminal t => ⟨some t.name, t.guards.map .functor, t.head⟩
  | .conflictSet name => ⟨some name, [], []⟩
  | .axiomSource name axioms => ⟨some name, [], axioms.map .pattern⟩

end Operator
end RuleFlow
