import RuleFlow.Clause.Variables
import RuleFlow.Canonical.Blind
import RuleFlow.Canonical.Order

/-!
# Numbering variables

Variables get numbers in the order of their first mention. A `Numberer` writes something with
its variables numbered: it is given the variables that have numbers already, in the order of
these, and returns the text, the thing with its variables renamed to their numbers, and the
variables that have numbers afterwards.

A list of clauses is numbered in the order, among those that `orders` allows for their blind
keys, that gives the smallest text; the clauses of a nested rule are ordered before it is.
-/

namespace RuleFlow.Canonical

/-- What numbering something produces. -/
structure Numbered (α : Type) where
  /-- The text with numbered variables. -/
  text : String
  /-- The thing with its variables renamed to their numbers. -/
  value : α
  /-- The variables with numbers, each at the place of its number. -/
  seen : List Variable
  deriving DecidableEq

/-- Numbers something, after the given variables have their numbers. -/
abbrev Numberer (α : Type) := List Variable → Numbered α

/-- The variable whose name is a number. -/
def numberedVariable (n : Nat) : Variable := ⟨toString n⟩

/-- The first so many variables whose names are numbers. -/
def numberedVariables (count : Nat) : List Variable :=
  (List.range count).map numberedVariable

/-- The same result about another value. -/
def Numbered.map {α β : Type} (f : α → β) (r : Numbered α) : Numbered β :=
  ⟨r.text, f r.value, r.seen⟩

/-- A term with its variable numbered. -/
def term (t : Term) : Numberer Term := fun seen =>
  match t with
  | .var v =>
    let seen' := v.noteIn seen
    let n := seen'.idxOf v
    ⟨"?" ++ toString n, .var (numberedVariable n), seen'⟩
  | t => ⟨t.render, t, seen⟩

/-- A pattern with its variables numbered. -/
def pattern (p : Pattern) : Numberer Pattern := fun seen =>
  let s := term p.subject seen
  let q := term p.predicate s.seen
  let o := term p.object q.seen
  ⟨"(" ++ s.text ++ " " ++ q.text ++ " " ++ o.text ++ ")", ⟨s.value, q.value, o.value⟩, o.seen⟩

/-- The results of numbering several things one after another, and the variables seen at the
end. -/
def inTurn {α : Type} : List (Numberer α) → List Variable → List (Numbered α) × List Variable
  | [], seen => ([], seen)
  | f :: fs, seen =>
    let first := f seen
    let (others, last) := inTurn fs first.seen
    (first :: others, last)

/-- Several things numbered one after another, their texts put together with spaces. -/
def together {α : Type} (fs : List (Numberer α)) : Numberer (List α) := fun seen =>
  let (results, last) := inTurn fs seen
  ⟨Text.joinWith " " (results.map (·.text)), results.map (·.value), last⟩

/-- A functor with its variables numbered. -/
def functor (f : Functor) : Numberer Functor := fun seen =>
  let args := together (f.args.map term) seen
  ⟨f.name ++ "(" ++ args.text ++ ")", ⟨f.name, args.value⟩, args.seen⟩

/-- The first result with the smallest text. -/
def smallest {α : Type} : Numbered α → List (Numbered α) → Numbered α
  | best, [] => best
  | best, r :: rs => smallest (if r.text < best.text then r else best) rs

/-- Things with their keys, numbered in the allowed order that gives the smallest text. -/
def inBestOrder {α : Type} (bound : Nat) (items : List (String × Numberer α)) :
    Numberer (List α) := fun seen =>
  match (orders (·.1) bound items).map fun order => together (order.map (·.2)) seen with
  | [] => ⟨"", [], seen⟩
  | r :: rs => smallest r rs

/-- The text of a rule put together from the texts of its body and its head. -/
def ruleText (name : Option String) (body head : String) : String :=
  "[ " ++ (match name with
    | some n => n ++ " : "
    | none => "") ++
  (if body.isEmpty then "" else body ++ " ") ++ "->" ++
  (if head.isEmpty then "" else " " ++ head) ++ " ]"

/-- A rule numbered by its parts, first the body and then the head. -/
def ruleOf (bound : Nat) (name : Option String) (body head : List (String × Numberer Clause)) :
    Numberer Rule := fun seen =>
  let b := inBestOrder bound body seen
  let h := inBestOrder bound head b.seen
  ⟨ruleText name b.text h.text, ⟨name, b.value, h.value⟩, h.seen⟩

mutual

/-- A clause with its variables numbered. -/
def clause (bound : Nat) : Clause → Numberer Clause
  | .pattern p => fun seen => (pattern p seen).map .pattern
  | .functor f => fun seen => (functor f seen).map .functor
  | .nested name body head => fun seen =>
    (ruleOf bound name (keyed bound body) (keyed bound head) seen).map Rule.toClause

/-- The clauses with their blind keys. -/
def keyed (bound : Nat) : List Clause → List (String × Numberer Clause)
  | [] => []
  | c :: cs => (c.blindKey, clause bound c) :: keyed bound cs

end

/-- Each clause of a list comes with its blind key and its way to be numbered. -/
theorem keyed_eq_map (bound : Nat) (cs : List Clause) :
    keyed bound cs = cs.map fun c => (c.blindKey, clause bound c) := by
  induction cs with
  | nil => rfl
  | cons c cs ih => rw [keyed, ih, List.map_cons]

/-- A list of clauses in its best order, with its variables numbered. -/
def clauses (bound : Nat) (cs : List Clause) : Numberer (List Clause) :=
  inBestOrder bound (keyed bound cs)

/-- A rule with its variables numbered, body and head each in its best order. -/
def rule (bound : Nat) (r : Rule) : Numberer Rule :=
  ruleOf bound r.name (keyed bound r.body) (keyed bound r.head)

end RuleFlow.Canonical
