import RuleFlow.Json.Basic
import RuleFlow.Text.Hex

/-!
# Reading JSON

`Json.ofText?` reads a text that is one JSON value with nothing but space around it. Values nest
no deeper than the text is long, and the items of an array are read in a loop that is given as
many rounds as there are characters; each round takes at least one.

A string is read in two steps: first the marks that it is written with, up to the closing
quote, and then the text that the marks stand for. Half of a surrogate pair stands for no text,
so a value that needs the text of such a string is kept as it is written.
-/

namespace RuleFlow.Json

/-- The text after space. -/
def skipSpace (s : List Char) : List Char :=
  s.dropWhile fun c => c = ' ' || c = '\n' || c = '\t' || c = '\r'

/-- The value of four hexadecimal digits. -/
def hexUnit? (a b c d : Char) : Option Nat := do
  let a ← Text.hexValue? a
  let b ← Text.hexValue? b
  let c ← Text.hexValue? c
  let d ← Text.hexValue? d
  some (((a * 16 + b) * 16 + c) * 16 + d)

/-- The character of a single escape. -/
def unescape? (c : Char) : Option Char :=
  if c = '"' then some '"'
  else if c = '\\' then some '\\'
  else if c = '/' then some '/'
  else if c = 'b' then some '\x08'
  else if c = 'f' then some '\x0c'
  else if c = 'n' then some '\n'
  else if c = 'r' then some '\r'
  else if c = 't' then some '\t'
  else none

/-- What a string is written with. -/
inductive Mark where
  /-- A character, which stands for itself or is named behind a backslash. -/
  | char (c : Char)
  /-- A unit of UTF-16, given by four hexadecimal digits. -/
  | unit (n : Nat)
  deriving DecidableEq

/-- The marks up to the closing quote, and what follows it. -/
def stringBody? : List Char → Option (List Mark × List Char)
  | [] => none
  | '"' :: s => some ([], s)
  | '\\' :: 'u' :: a :: b :: c :: d :: s =>
    match hexUnit? a b c d with
    | some n => (stringBody? s).map fun (ms, rest) => (.unit n :: ms, rest)
    | none => none
  | '\\' :: c :: s =>
    match unescape? c with
    | some d => (stringBody? s).map fun (ms, rest) => (.char d :: ms, rest)
    | none => none
  | c :: s =>
    if c = '\\' ∨ c.toNat < 32 then none
    else (stringBody? s).map fun (ms, rest) => (.char c :: ms, rest)

/-- Whether a unit is the first half of a surrogate pair. -/
def isHighHalf (n : Nat) : Bool := 0xd800 ≤ n && n < 0xdc00

/-- Whether a unit is the second half of a surrogate pair. -/
def isLowHalf (n : Nat) : Bool := 0xdc00 ≤ n && n < 0xe000

/-- The character of a surrogate pair. -/
def ofHalves (high low : Nat) : Char :=
  Char.ofNat (0x10000 + (high - 0xd800) * 0x400 + (low - 0xdc00))

/-- The characters that marks stand for. -/
def charsOf? : List Mark → Option (List Char)
  | [] => some []
  | .char c :: ms => (charsOf? ms).map (c :: ·)
  | .unit high :: .unit low :: ms =>
    if isHighHalf high then
      if isLowHalf low then (charsOf? ms).map (ofHalves high low :: ·) else none
    else if isLowHalf high then none
    else (charsOf? (.unit low :: ms)).map (Char.ofNat high :: ·)
  | .unit n :: ms =>
    if isHighHalf n || isLowHalf n then none else (charsOf? ms).map (Char.ofNat n :: ·)

/-- The text that marks stand for. -/
def textOf? (ms : List Mark) : Option String := (charsOf? ms).map String.ofList

/-- The digits at the front, when there are any, and what follows. -/
def digits? (s : List Char) : Option (List Char × List Char) :=
  if (s.takeWhile Char.isDigit).isEmpty then none
  else some (s.takeWhile Char.isDigit, s.dropWhile Char.isDigit)

/-- A whole number without a sign: zero, or digits that do not begin with zero. -/
def whole? (s : List Char) : Option (List Char × List Char) :=
  match s with
  | '0' :: r =>
    match r with
    | c :: _ => if c.isDigit then none else some (['0'], r)
    | [] => some (['0'], r)
  | _ => digits? s

/-- The fraction of a number: none, or a dot with digits. -/
def fraction? (s : List Char) : Option (List Char × List Char) :=
  match s with
  | '.' :: r => (digits? r).map fun (ds, rest) => ('.' :: ds, rest)
  | _ => some ([], s)

/-- The exponent of a number: none, or its letter with a sign and digits. -/
def exponent? (s : List Char) : Option (List Char × List Char) :=
  match s with
  | c :: r =>
    if c = 'e' ∨ c = 'E' then
      match r with
      | '+' :: t => (digits? t).map fun (ds, rest) => (c :: '+' :: ds, rest)
      | '-' :: t => (digits? t).map fun (ds, rest) => (c :: '-' :: ds, rest)
      | _ => (digits? r).map fun (ds, rest) => (c :: ds, rest)
    else some ([], s)
  | [] => some ([], s)

/-- A number without a sign. -/
def magnitude? (s : List Char) : Option (List Char × List Char) := do
  let (w, r₁) ← whole? s
  let (f, r₂) ← fraction? r₁
  let (e, rest) ← exponent? r₂
  some (w ++ f ++ e, rest)

/-- A number. -/
def number? (s : List Char) : Option (Json × List Char) :=
  match s with
  | '-' :: r => (magnitude? r).map fun (ds, rest) => (.number (String.ofList ('-' :: ds)), rest)
  | _ => (magnitude? s).map fun (ds, rest) => (.number (String.ofList ds), rest)

/-- The items behind the first of a list that ends with `close`. Each round reads a comma and an
item. -/
def moreItems {α : Type} (close : Char) (item? : List Char → Option (α × List Char)) :
    Nat → List Char → Option (List α × List Char)
  | 0, _ => none
  | rounds + 1, s =>
    match skipSpace s with
    | [] => none
    | c :: r =>
      if c = close then some ([], r)
      else if c = ',' then do
        let (a, r) ← item? (skipSpace r)
        let (as, rest) ← moreItems close item? rounds r
        some (a :: as, rest)
      else none

/-- The items of a list that ends with `close`. -/
def itemsTo {α : Type} (close : Char) (item? : List Char → Option (α × List Char))
    (s : List Char) : Option (List α × List Char) :=
  match skipSpace s with
  | [] => none
  | c :: r =>
    if c = close then some ([], r)
    else do
      let (a, r) ← item? (c :: r)
      let (as, rest) ← moreItems close item? (r.length + 1) r
      some (a :: as, rest)

/-- A member of an object, given a reader of values. -/
def member? (value? : List Char → Option (Json × List Char)) (s : List Char) :
    Option ((List Mark × Json) × List Char) :=
  match s with
  | '"' :: r => do
    let (name, r) ← stringBody? r
    match skipSpace r with
    | ':' :: r =>
      let (j, rest) ← value? r
      some ((name, j), rest)
    | _ => none
  | _ => none

/-- The value that is kept as it is written, between the text and what is left of it. -/
def verbatimTo (s rest : List Char) : Json :=
  .verbatim (String.ofList (s.take (s.length - rest.length)))

/-- The string of the marks, which are written between the text and what is left of it. -/
def ofMarks (ms : List Mark) (s rest : List Char) : Json :=
  match textOf? ms with
  | some t => .string t
  | none => verbatimTo s rest

/-- The object of the members, which are written between the text and what is left of it. -/
def ofMembers (members : List (List Mark × Json)) (s rest : List Char) : Json :=
  match members.mapM fun (name, j) => (textOf? name).map (·, j) with
  | some members => .object members
  | none => verbatimTo s rest

/-- A value with space before it, nested no deeper than the depth. -/
def value? (depth : Nat) (s : List Char) : Option (Json × List Char) :=
  match skipSpace s with
  | 'n' :: 'u' :: 'l' :: 'l' :: r => some (.null, r)
  | 't' :: 'r' :: 'u' :: 'e' :: r => some (.bool true, r)
  | 'f' :: 'a' :: 'l' :: 's' :: 'e' :: r => some (.bool false, r)
  | '"' :: r =>
    (stringBody? r).map fun (ms, rest) => (ofMarks ms ('"' :: r) rest, rest)
  | '[' :: r =>
    match depth with
    | 0 => none
    | depth + 1 => (itemsTo ']' (value? depth) r).map fun (js, rest) => (.array js, rest)
  | '\x7b' :: r =>
    match depth with
    | 0 => none
    | depth + 1 =>
      (itemsTo '\x7d' (member? (value? depth)) r).map fun (ms, rest) =>
        (ofMembers ms ('\x7b' :: r) rest, rest)
  | r => number? r

/-- The value that a text is. -/
def ofText? (text : String) : Option Json :=
  let s := text.toList
  match value? s.length s with
  | some (j, rest) => if (skipSpace rest).isEmpty then some j else none
  | none => none

end RuleFlow.Json
