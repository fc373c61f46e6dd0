import RuleFlow.Clause.Basic

/-!
# Variables of clauses

`Clause.mentions` lists every place where a clause has a variable, in reading order;
`Clause.variablesOf` keeps the first mention of each. A nested rule is read body first.
-/

namespace RuleFlow

/-- Adds a variable at the end of a list that lacks it. -/
def Variable.noteIn (seen : List Variable) (v : Variable) : List Variable :=
  if v ∈ seen then seen else seen ++ [v]

/-- The variables noted are those noted before and this one. -/
theorem Variable.mem_noteIn {seen : List Variable} {v w : Variable} :
    w ∈ v.noteIn seen ↔ w ∈ seen ∨ w = v := by
  unfold noteIn
  split
  · next h => exact ⟨Or.inl, fun hw => hw.elim id fun e => e ▸ h⟩
  · simp

/-- No variable is noted twice. -/
theorem Variable.nodup_noteIn {seen : List Variable} {v : Variable} (h : seen.Nodup) :
    (v.noteIn seen).Nodup := by
  unfold noteIn
  split
  · exact h
  · next hv =>
    refine List.nodup_append.2 ⟨h, by simp, fun a ha b hb => ?_⟩
    rw [List.mem_singleton.1 hb]
    exact fun e => hv (e ▸ ha)

/-- The variables among the terms, in order and with repetitions. -/
def Term.mentionsIn (ts : List Term) : List Variable := ts.filterMap Term.var?

namespace Clause

mutual

/-- The variables of a clause in reading order, with repetitions. -/
def mentions : Clause → List Variable
  | .pattern p => Term.mentionsIn p.terms
  | .functor f => Term.mentionsIn f.args
  | .nested _ body head => mentionsOfAll body ++ mentionsOfAll head

/-- The variables of a list of clauses in reading order, with repetitions. -/
def mentionsOfAll : List Clause → List Variable
  | [] => []
  | c :: cs => mentions c ++ mentionsOfAll cs

end

theorem mentionsOfAll_eq_flatMap (cs : List Clause) : mentionsOfAll cs = cs.flatMap mentions := by
  induction cs with
  | nil => rfl
  | cons c cs ih => rw [mentionsOfAll, ih, List.flatMap_cons]

/-- The variables of a list of clauses, each once, in the order of their first mention. -/
def variablesOf (cs : List Clause) : List Variable :=
  (mentionsOfAll cs).foldl Variable.noteIn []

end Clause

/-- The variables of the rule, each once, in the order of their first mention. -/
def Rule.variables (r : Rule) : List Variable :=
  Clause.variablesOf (r.body ++ r.head)

end RuleFlow
