import RuleFlow.Toml.Basic

/-!
# Putting TOML tables together

A document gives its values one by one, under keys and headers, and may come back to a table.
`update?` goes down a path of names, making tables on its way, and changes the table at its
end. A table that has its own header cannot be given values by a dotted key from outside, a
table made by dotted keys cannot get a header, and what stands between braces is complete.
-/

namespace RuleFlow.Toml

/-- The members of a table. -/
abbrev Members := List (String × Toml)

namespace Members

/-- Gives a name a value: in its old place, or at the end when it is new. -/
def set (name : String) (t : Toml) : Members → Members
  | [] => [(name, t)]
  | (n, u) :: rest => if n = name then (name, t) :: rest else (n, u) :: set name t rest

/-- The members without a name. -/
def erase (name : String) (ms : Members) : Members := ms.filter (·.1 ≠ name)

/-- Changes the table at the end of a path. On the way, missing tables are made, and lists of
tables are entered by their last table. A path of a dotted key enters no table with a header
of its own. -/
def update? (isDotted : Bool) (change : Form → Members → Option Members) :
    List String → Form → Members → Option Members
  | [], form, ms => change form ms
  | name :: path, _, ms =>
    match ms.lookup name with
    | none =>
      let form := if isDotted then Form.dotted else .implicit
      (update? isDotted change path form []).map fun inner =>
        set name (.table form inner) ms
    | some (.table form inner) =>
      if form = .inline ∨ (isDotted ∧ form = .header) then none
      else (update? isDotted change path form inner).map fun inner =>
        set name (.table form inner) ms
    | some (.tables elements) =>
      match elements.getLast? with
      | some (.table form inner) =>
        (update? isDotted change path form inner).map fun inner =>
          set name (.tables (elements.dropLast ++ [.table form inner])) ms
      | _ => none
    | some _ => none

/-- Adds a new value under a key. The table of a dotted key has to be made by dotted keys. -/
def add? (form : Form) (key : List String × String) (t : Toml) (ms : Members) : Option Members :=
  update? true
    (fun form inner =>
      if !key.1.isEmpty && form ≠ .dotted then none
      else if (inner.lookup key.2).isSome then none
      else some (inner ++ [(key.2, t)]))
    key.1 form ms

/-- Adds new values under their keys, in order. -/
def addAll? (form : Form) : List ((List String × String) × Toml) → Members → Option Members
  | [], ms => some ms
  | (key, t) :: entries, ms => (add? form key t ms).bind (addAll? form entries)

end Members

/-- The table that keys with values make between braces. -/
def inlineTable? (entries : List ((List String × String) × Toml)) : Option Toml :=
  (Members.addAll? .inline entries []).map (.table .inline)

/-- A header of a document. -/
inductive Header where
  /-- The start of a document, before the first header. -/
  | start
  /-- The header of a table. -/
  | table (key : List String × String)
  /-- The header of the next table of a list. -/
  | element (key : List String × String)

/-- A header with the values under it. -/
structure Section where
  /-- The header. -/
  header : Header
  /-- The keys and values in order. -/
  entries : List ((List String × String) × Toml)

/-- Adds a section to a document. A table gets its header once, after all that may have been
put below it by other headers. -/
def Section.addTo? (s : Section) (root : Members) : Option Members :=
  match s.header with
  | .start => Members.addAll? .header s.entries root
  | .table (path, name) =>
    Members.update? false
      (fun _ ms =>
        match ms.lookup name with
        | none =>
          (Members.addAll? .header s.entries []).map fun inner =>
            ms ++ [(name, .table .header inner)]
        | some (.table .implicit inner) =>
          (Members.addAll? .header s.entries inner).map fun inner =>
            Members.erase name ms ++ [(name, .table .header inner)]
        | some _ => none)
      path .header root
  | .element (path, name) =>
    Members.update? false
      (fun _ ms =>
        match ms.lookup name with
        | none =>
          (Members.addAll? .header s.entries []).map fun inner =>
            ms ++ [(name, .tables [.table .header inner])]
        | some (.tables elements) =>
          (Members.addAll? .header s.entries []).map fun inner =>
            Members.set name (.tables (elements ++ [.table .header inner])) ms
        | some _ => none)
      path .header root

/-- The document that sections make. -/
def document? (sections : List Section) : Option Members :=
  sections.foldlM (fun root s => s.addTo? root) []

end RuleFlow.Toml
