import RuleFlow.Diagnostic.Basic
import RuleFlow.Network.Operator
import RuleFlow.Table

/-!
# The registry of operators

The registry keeps the operators of a network under their names, in the order in which they
came, and knows names that no operator may take. `lookup` checks that an operator has the shape
that its user counts on, `register` admits an operator under a new name, and `uniqueName`
finds a name that is still free.
-/

namespace RuleFlow

/-- What the registry refuses. -/
inductive RegistryError where
  /-- The operator of a name has another kind. -/
  | wrongKind (key : String) (found wanted : Kind)
  /-- The operator of a name has another number of variables. -/
  | wrongArity (key : String) (found wanted : Nat)
  /-- An operator has the name already. -/
  | registeredTwice (name : String)
  /-- The name may not be taken. -/
  | reservedName (name : String)
  deriving DecidableEq

/-- The diagnostic of a key whose operator does not fit. -/
def Diagnostic.registryViolation (key message : String) : Diagnostic :=
  (mk .registryViolation message none none).withField "key" key

namespace RegistryError

/-- The error in words. -/
def message : RegistryError → String
  | .wrongKind _ found wanted =>
    "Key is registered as a " ++ found.name ++ " but a " ++ wanted.name ++ " was expected"
  | .wrongArity _ found wanted =>
    "Operator outputs " ++ toString found ++ " variables but " ++ toString wanted ++
      " were expected"
  | .registeredTwice name => "Operator " ++ name ++ " registered twice"
  | .reservedName name => "Operator " ++ name ++ " takes a reserved name"

/-- The key whose operator has the wrong shape. -/
def key? : RegistryError → Option String
  | .wrongKind key .. => some key
  | .wrongArity key .. => some key
  | _ => none

/-- The diagnostic of the error. -/
def diagnostic (e : RegistryError) : Diagnostic :=
  match e.key? with
  | some key => Diagnostic.registryViolation key e.message
  | none => ⟨.registryViolation, e.message, none, none⟩

end RegistryError

/-- The operators of a network and the names that they may not take. -/
structure Registry where
  /-- The operators under their names. -/
  operators : Table Operator := {}
  /-- The names that no operator may take. -/
  reserved : List String := []
  deriving DecidableEq, Inhabited

namespace Registry

/-- The registry without operators. -/
def empty : Registry := {}

/-- Keeps a name from being taken. -/
def reserve (r : Registry) (name : String) : Registry :=
  { r with reserved := r.reserved ++ [name] }

/-- The operators in the order in which they came. -/
def toList (r : Registry) : List Operator := r.operators.values

/-- How many operators there are. -/
def size (r : Registry) : Nat := r.operators.size

/-- The operator of a name. -/
def get? (r : Registry) (name : String) : Option Operator := r.operators.find? name

/-- Whether an operator has the name. -/
def contains (r : Registry) (name : String) : Bool := r.operators.contains name

/-- Whether the name cannot be given to a new operator. -/
def isTaken (r : Registry) (name : String) : Bool :=
  r.contains name || decide (name ∈ r.reserved)

/-- The operator of a name, which has to be of the kind and to have the number of variables
that the user counts on. -/
def lookup (r : Registry) (key : String) (kind : Kind) (arity : Nat) :
    Except RegistryError (Option Operator) :=
  match r.get? key with
  | none => .ok none
  | some op =>
    if op.kind ≠ kind then .error (.wrongKind key op.kind kind)
    else if op.arity ≠ arity then .error (.wrongArity key op.arity arity)
    else .ok (some op)

/-- Admits an operator under its name. -/
def register (r : Registry) (op : Operator) : Except RegistryError Registry :=
  if r.contains op.name then .error (.registeredTwice op.name)
  else if op.name ∈ r.reserved then .error (.reservedName op.name)
  else .ok { r with operators := r.operators.insert op.name op }

/-- Sees to it that an operator with this name and shape is there, and admits this one when
there is none yet. -/
def adopt (r : Registry) (op : Operator) : Except RegistryError Registry := do
  match ← r.lookup op.name op.kind op.arity with
  | some _ => .ok r
  | none => r.register op

/-- A name with a number behind it. -/
def numberedName (base : String) (n : Nat) : String := base ++ "_" ++ toString n

/-- The name itself when it is free, else the name with the least number from two on that makes
it free. Among the numbers tried, one more than there are names in use, one is free. -/
def uniqueName (r : Registry) (base : String) : String :=
  if r.isTaken base then
    ((List.range' 2 (r.size + r.reserved.length + 1)).map (numberedName base)).find?
      (fun name => !r.isTaken name) |>.getD base
  else base

/-- The operators of a kind in order. -/
def ofKind (r : Registry) (kind : Kind) : List Operator := r.toList.filter (·.kind = kind)

/-- How many operators of a kind there are. -/
def count (r : Registry) (kind : Kind) : Nat := (r.ofKind kind).length

end Registry
end RuleFlow
