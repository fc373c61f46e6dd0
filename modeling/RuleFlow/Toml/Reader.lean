import RuleFlow.Toml.Assembly
import RuleFlow.Toml.Moment.Reader

/-!
# Reading TOML

`Toml.ofText?` reads a document. Values nest at most 79 deep. Lists and lines are read in loops
that are given as many rounds as there are characters; each round takes at least one.
-/

namespace RuleFlow.Toml

open Lexeme

/-- The items of a list up to its closing bracket. Each round reads an item with the comma
behind it, which may be missing behind the last. -/
def itemsWithin? (value? : List Char → Option (Toml × List Char)) :
    Nat → List Char → Option (List Toml × List Char)
  | 0, _ => none
  | rounds + 1, s =>
    match skipLines false s with
    | ']' :: rest => some ([], rest)
    | s => do
      let (t, r) ← value? s
      match skipLines false r with
      | ',' :: r =>
        let (ts, rest) ← itemsWithin? value? rounds r
        some (t :: ts, rest)
      | ']' :: rest => some ([t], rest)
      | _ => none

/-- A key with its value. -/
def entry? (value? : List Char → Option (Toml × List Char)) (s : List Char) :
    Option (((List String × String) × Toml) × List Char) := do
  let (key, r) ← key? s
  let r ← Text.dropStart? ['='] r
  let (t, rest) ← value? (skipSpace r)
  some ((key, t), rest)

/-- The keys and values up to a closing brace. Each round reads one of them and what follows:
the brace, or a comma and another. -/
def entriesWithin? (value? : List Char → Option (Toml × List Char)) :
    Nat → List Char → Option (List ((List String × String) × Toml) × List Char)
  | 0, _ => none
  | rounds + 1, s => do
    let (e, r) ← entry? value? s
    match skipSpace r with
    | '\x7d' :: rest => some ([e], rest)
    | ',' :: r =>
      let (es, rest) ← entriesWithin? value? rounds r
      some (e :: es, rest)
    | _ => none

/-- The table between braces, of which the first is read. -/
def braces? (value? : List Char → Option (Toml × List Char)) (s : List Char) :
    Option (Toml × List Char) :=
  match skipSpace s with
  | '\x7d' :: rest => some (.table .inline [], rest)
  | s => do
    let (es, rest) ← entriesWithin? value? s.length s
    let t ← inlineTable? es
    some (t, rest)

/-- A value that is neither a list nor a table. -/
def scalar? (s : List Char) : Option (Toml × List Char) :=
  match s with
  | 't' :: 'r' :: 'u' :: 'e' :: rest => some (.bool true, rest)
  | 'f' :: 'a' :: 'l' :: 's' :: 'e' :: rest => some (.bool false, rest)
  | '"' :: _ => (stringAt? s).map fun (t, rest) => (.string t, rest)
  | '\'' :: _ => (stringAt? s).map fun (t, rest) => (.string t, rest)
  | _ =>
    if startsMoment s then (moment? s).map fun (m, rest) => (.moment m, rest) else number? s

/-- A value, nested no deeper than the depth. -/
def value? (depth : Nat) (s : List Char) : Option (Toml × List Char) :=
  match s with
  | '[' :: r =>
    match depth with
    | 0 => none
    | depth + 1 =>
      (itemsWithin? (value? depth) (r.length + 1) r).map fun (ts, rest) => (.array ts, rest)
  | '\x7b' :: r =>
    match depth with
    | 0 => none
    | depth + 1 => braces? (value? depth) r
  | s => scalar? s

/-- How deep values may nest. -/
def depthLimit : Nat := 79

/-- A header with the rest of its line left out. -/
def header? (s : List Char) : Option (Header × List Char) :=
  match s with
  | '[' :: '[' :: r => do
    let (key, r) ← key? r
    let r ← Text.dropStart? [']', ']'] r
    let rest ← restOfLine? r
    some (.element key, rest)
  | '[' :: r => do
    let (key, r) ← key? r
    let r ← Text.dropStart? [']'] r
    let rest ← restOfLine? r
    some (.table key, rest)
  | _ => none

/-- The sections from here on, of which the first has its header read already. Each round reads
one header or one key with its value. -/
def sectionsWithin? : Nat → Header → List Char → Option (List Section)
  | 0, _, _ => none
  | rounds + 1, header, s =>
    match skipLines false s with
    | [] => some [⟨header, []⟩]
    | '[' :: r => do
      let (next, r) ← header? ('[' :: r)
      let rest ← sectionsWithin? rounds next r
      some (⟨header, []⟩ :: rest)
    | s => do
      let (e, r) ← entry? (value? depthLimit) s
      let r ← restOfLine? r
      match ← sectionsWithin? rounds header r with
      | first :: rest => some (⟨first.header, e :: first.entries⟩ :: rest)
      | [] => none

/-- The text without a byte order mark. -/
def dropMark : List Char → List Char
  | '\ufeff' :: s => s
  | s => s

/-- The members of the document that a text is. -/
def ofText? (text : String) : Option Members := do
  let s := dropMark text.toList
  let sections ← sectionsWithin? (s.length + 1) .start s
  document? sections

end RuleFlow.Toml
