/-!
# Texts put together

`Text.joinWith` writes the members of a list with a separator between any two, and
`Text.padRight` fills a column.
-/

namespace RuleFlow.Text

/-- The texts in order, with `sep` between each and the next. -/
def joinWith (sep : String) : List String → String
  | [] => ""
  | [s] => s
  | s :: t :: rest => s ++ sep ++ joinWith sep (t :: rest)

@[simp] theorem joinWith_nil (sep : String) : joinWith sep [] = "" := rfl

@[simp] theorem joinWith_singleton (sep s : String) : joinWith sep [s] = s := rfl

/-- The separator stands between each text and the next. -/
theorem joinWith_cons_cons (sep s t : String) (rest : List String) :
    joinWith sep (s :: t :: rest) = s ++ sep ++ joinWith sep (t :: rest) := rfl

/-- The texts in order with nothing between them. -/
def concat (texts : List String) : String :=
  joinWith "" texts

@[simp] theorem concat_nil : concat [] = "" := rfl

@[simp] theorem concat_cons (s : String) (rest : List String) :
    concat (s :: rest) = s ++ concat rest := by
  cases rest with
  | nil => exact (String.append_empty).symm
  | cons t rest => rw [concat, joinWith_cons_cons, String.append_empty, concat]

/-- The text followed by as many spaces as it lacks for the width. -/
def padRight (width : Nat) (s : String) : String :=
  s ++ String.ofList (List.replicate (width - s.length) ' ')

end RuleFlow.Text
