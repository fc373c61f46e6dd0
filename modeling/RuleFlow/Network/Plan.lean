import RuleFlow.Canonical.Form
import RuleFlow.Network.Operator

/-!
# Plans for the body of a rule

The patterns of a body become one filter each, and joins put these together two by two until
one operator matches the whole body. `planBody` finds the operators from the patterns alone,
so that a plan does not depend on the other rules.

An operator is named by the canonical text of the clauses that it matches, and rules whose
operators have one name share it. Within one rule the two sides of a join have to differ: the
second operator with a text gets `#2` behind it, the third `#3`, and so on.
-/

namespace RuleFlow.Network

/-- An operator as the rule sees it that it is planned for. -/
structure Piece where
  /-- The name of the operator. -/
  name : String
  /-- The variables of the rule at the positions of the operator. -/
  vars : List Variable
  /-- The clauses of the rule that the operator matches. -/
  clauses : List Clause
  deriving DecidableEq, Inhabited

/-- Whether two pieces have a variable in common. -/
def Piece.meets (p q : Piece) : Bool := p.vars.any (q.vars.contains ·)

/-- The operators planned so far for one rule. -/
structure Draft where
  /-- The operators in the order in which they are needed. -/
  operators : List Operator := []
  /-- The canonical texts of the operators, one for each. -/
  keys : List String := []
  /-- The names on both sides of each join without a common variable. -/
  crossJoins : List (String × String) := []
  deriving DecidableEq, Inhabited

/-- The name of the next operator with this canonical text. -/
def occurrenceName (keys : List String) (key : String) : String :=
  match keys.count key with
  | 0 => key
  | n + 1 => key ++ "#" ++ toString (n + 2)

/-- For each variable, its position in a list. -/
def positions (vars among : List Variable) : List (Option Nat) :=
  vars.map fun v => among.findIdx? (· == v)

namespace Draft

/-- Plans the filter of a pattern. -/
def filter (d : Draft) (p : Pattern) : Piece × Draft :=
  let canonical := Canonical.pattern p []
  let name := occurrenceName d.keys canonical.text
  let op := Filter.mk name canonical.value (Canonical.numberedVariables canonical.seen.length)
  (⟨name, canonical.seen, [.pattern p]⟩,
    { d with operators := d.operators ++ [.filter op], keys := d.keys ++ [canonical.text] })

/-- Plans the filters of several patterns. -/
def filters (d : Draft) : List Pattern → List Piece × Draft
  | [] => ([], d)
  | p :: ps =>
    let (piece, d) := d.filter p
    let (pieces, d) := filters d ps
    (piece :: pieces, d)

/-- Plans the join of two pieces. -/
def join (bound : Nat) (window : Window) (d : Draft) (left right : Piece) : Piece × Draft :=
  let clauses := left.clauses ++ right.clauses
  let form := Canonical.form bound clauses
  let name := occurrenceName d.keys form.key
  let op : Join :=
    { name := name
      left := left.name
      right := right.name
      template := form.clauses
      vars := form.vars
      matchLeft := positions left.vars right.vars
      matchRight := positions right.vars left.vars
      templateLeft := positions form.order left.vars
      templateRight := positions form.order right.vars
      window := window }
  (⟨name, form.order, clauses⟩,
    { operators := d.operators ++ [.join op]
      keys := d.keys ++ [form.key]
      crossJoins :=
        if left.meets right then d.crossJoins else d.crossJoins ++ [(left.name, right.name)] })

end Draft

/-- The first piece that shares a variable with `left`, and the other pieces. -/
def partner? (left : Piece) : List Piece → Option (Piece × List Piece)
  | [] => none
  | p :: ps =>
    if left.meets p then some (p, ps)
    else (partner? left ps).map fun (right, others) => (right, p :: others)

/-- The piece that `left` is joined with, and the other pieces: the first that shares a
variable, else the next one. -/
def partner (left next : Piece) (rest : List Piece) : Piece × List Piece :=
  (partner? left (next :: rest)).getD (next, rest)

/-- A partner leaves one piece less. -/
theorem length_of_partner? {left right : Piece} {pieces others : List Piece}
    (h : partner? left pieces = some (right, others)) : others.length + 1 = pieces.length := by
  induction pieces generalizing others with
  | nil => cases h
  | cons p ps ih =>
    unfold partner? at h
    split at h
    · obtain ⟨rfl, rfl⟩ := Prod.mk.inj (Option.some.inj h)
      rfl
    · obtain ⟨⟨q, rest⟩, hq, e⟩ := Option.map_eq_some_iff.1 h
      obtain ⟨rfl, rfl⟩ := Prod.mk.inj e
      rw [List.length_cons, List.length_cons, ih hq]

/-- A partner, found or taken as it comes, leaves one piece less. -/
theorem length_partner (left next : Piece) (rest : List Piece) :
    (partner left next rest).2.length = rest.length := by
  unfold partner
  cases h : partner? left (next :: rest) with
  | none => rfl
  | some found =>
    have := length_of_partner? h
    rw [List.length_cons] at this
    exact Nat.succ.inj this

/-- Joins the first piece with its partner, puts the join behind the others, and goes on until
one piece is left. -/
def reduce (bound : Nat) (window : Window) (d : Draft) (first : Piece) :
    List Piece → Piece × Draft
  | [] => (first, d)
  | next :: rest =>
    let found := partner first next rest
    let joined := d.join bound window first found.1
    match _h : found.2 with
    | [] => joined
    | p :: ps => reduce bound window joined.2 p (ps ++ [joined.1])
termination_by pieces => pieces.length
decreasing_by
  have hl := length_partner first next rest
  have hc : (partner first next rest).2.length = ps.length + 1 := by
    rw [show (partner first next rest).2 = p :: ps from _h]
    rfl
  simp only [List.length_append, List.length_cons, List.length_nil]
  omega

/-- What matches the body of a rule. -/
structure Plan where
  /-- The operators in the order in which they are needed. -/
  operators : List Operator
  /-- The piece that matches the whole body. -/
  prior : Piece
  /-- The names on both sides of each join without a common variable. -/
  crossJoins : List (String × String)
  deriving DecidableEq

/-- The plan for a body with these patterns, in which a repeated pattern counts once. Without
patterns there is no plan. -/
def planBody (bound : Nat) (window : Window) (patterns : List Pattern) : Option Plan :=
  match Draft.filters {} patterns.eraseDups with
  | ([], _) => none
  | (first :: rest, d) =>
    let (prior, d) := reduce bound window d first rest
    some ⟨d.operators, prior, d.crossJoins⟩

end RuleFlow.Network
