/-!
# Tables in order of insertion

A table gives values to names and remembers the order in which the names first came.
Giving a name another value keeps its place. The main statements say what a look-up finds
after an insertion, and that a new name comes behind the others.
-/

namespace RuleFlow

/-- Names and their values, in the order in which the names were first given one. -/
structure Table (α : Type) where
  /-- The pairs of a name and its value. -/
  entries : List (String × α) := []
  deriving DecidableEq

namespace Table

variable {α β : Type}

/-- The table without names. -/
def empty : Table α := {}

instance : Inhabited (Table α) := ⟨empty⟩

/-- The names in order. -/
def keys (t : Table α) : List String := t.entries.map (·.1)

/-- The values in the order of their names. -/
def values (t : Table α) : List α := t.entries.map (·.2)

/-- The number of names. -/
def size (t : Table α) : Nat := t.entries.length

/-- Whether the table holds no name. -/
def isEmpty (t : Table α) : Bool := t.entries.isEmpty

/-- The value of a name. -/
def find? (t : Table α) (name : String) : Option α := t.entries.lookup name

/-- Whether the name has a value. -/
def contains (t : Table α) (name : String) : Bool := (t.find? name).isSome

private def insertInto (name : String) (value : α) : List (String × α) → List (String × α)
  | [] => [(name, value)]
  | (n, v) :: rest => if n = name then (name, value) :: rest else (n, v) :: insertInto name value rest

/-- Gives the name a value: in its old place, or at the end when it is new. -/
def insert (t : Table α) (name : String) (value : α) : Table α :=
  ⟨insertInto name value t.entries⟩

/-- The table that a list of pairs makes when its pairs are inserted in order. -/
def ofList (pairs : List (String × α)) : Table α :=
  pairs.foldl (fun t p => t.insert p.1 p.2) empty

/-- The same names with other values. -/
def map (f : α → β) (t : Table α) : Table β :=
  ⟨t.entries.map fun p => (p.1, f p.2)⟩

/-- A name that was entered is found with its value. -/
@[simp] theorem find?_insert_self (t : Table α) (name : String) (value : α) :
    (t.insert name value).find? name = some value := by
  obtain ⟨entries⟩ := t
  show (insertInto name value entries).lookup name = some value
  induction entries with
  | nil => simp [insertInto]
  | cons p rest ih =>
    obtain ⟨n, v⟩ := p
    by_cases h : n = name
    · simp [insertInto, h]
    · simp [insertInto, h, List.lookup_cons, ih, beq_eq_false_iff_ne.2 (Ne.symm h)]

/-- Entering a name does not change what is found under another one. -/
theorem find?_insert_of_ne (t : Table α) {name other : String} (value : α) (h : other ≠ name) :
    (t.insert name value).find? other = t.find? other := by
  obtain ⟨entries⟩ := t
  show (insertInto name value entries).lookup other = entries.lookup other
  induction entries with
  | nil => simp [insertInto, List.lookup_cons, beq_eq_false_iff_ne.2 h]
  | cons p rest ih =>
    obtain ⟨n, v⟩ := p
    by_cases hn : n = name
    · subst hn
      simp [insertInto, List.lookup_cons, beq_eq_false_iff_ne.2 h]
    · simp [insertInto, hn, List.lookup_cons, ih]

/-- A name without a value is not among the names. -/
theorem find?_eq_none_iff (t : Table α) (name : String) : t.find? name = none ↔ name ∉ t.keys := by
  show t.entries.lookup name = none ↔ name ∉ t.entries.map (·.1)
  rw [List.lookup_eq_none_iff, List.mem_map]
  constructor
  · rintro h ⟨p, hp, rfl⟩
    exact bne_iff_ne.1 (h p hp) rfl
  · intro h p hp
    exact bne_iff_ne.2 fun heq => h ⟨p, hp, heq.symm⟩

/-- A new name comes behind the others with its value. -/
theorem entries_insert_of_new {t : Table α} {name : String} (value : α)
    (h : t.find? name = none) : (t.insert name value).entries = t.entries ++ [(name, value)] := by
  obtain ⟨entries⟩ := t
  show insertInto name value entries = entries ++ [(name, value)]
  induction entries with
  | nil => rfl
  | cons p rest ih =>
    obtain ⟨n, v⟩ := p
    have hn : n ≠ name := by
      rintro rfl
      simp [find?] at h
    have hrest : rest.lookup name = none := by
      simpa [find?, List.lookup_cons, beq_eq_false_iff_ne.2 (Ne.symm hn)] using h
    rw [insertInto, if_neg hn, ih hrest, List.cons_append]

/-- The value of a new name comes behind the others. -/
theorem values_insert_of_new {t : Table α} {name : String} (value : α)
    (h : t.find? name = none) : (t.insert name value).values = t.values ++ [value] := by
  rw [values, entries_insert_of_new value h, List.map_append]
  rfl

end Table
end RuleFlow
