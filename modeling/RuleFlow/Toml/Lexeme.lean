import RuleFlow.Text.Hex
import RuleFlow.Text.Search
import RuleFlow.Toml.Basic

/-!
# The small parts of TOML texts

Space and comments, strings, keys and numbers. Every reader takes the characters that
are left and gives what it read with the characters behind it, or nothing when the text is not
well formed.
-/

namespace RuleFlow.Toml.Lexeme

/-- A space or a tab. -/
def isSpace (c : Char) : Bool := c = ' ' || c = '\t'

/-- A character that comments and quoted texts may hold: a tab or no control character. -/
def isTextChar (c : Char) : Bool := c = '\t' || (32 ≤ c.toNat && c.toNat ≠ 127)

/-- The text after spaces and tabs. -/
def skipSpace (s : List Char) : List Char := s.dropWhile isSpace

/-- What follows the end of the line at the front. -/
def newline? : List Char → Option (List Char)
  | '\n' :: s => some s
  | '\r' :: '\n' :: s => some s
  | _ => none

/-- The text after spaces, ends of lines and comments. The flag says whether the text begins
inside a comment. -/
def skipLines : Bool → List Char → List Char
  | _, [] => []
  | _, '\n' :: s => skipLines false s
  | _, '\r' :: '\n' :: s => skipLines false s
  | inside, c :: s =>
    if inside then if isTextChar c then skipLines true s else c :: s
    else if isSpace c then skipLines false s
    else if c = '#' then skipLines true s
    else c :: s

/-- The text from the next line on, when nothing but space and a comment is left on this
one. -/
def restOfLine? (s : List Char) : Option (List Char) :=
  let r := match skipSpace s with
    | '#' :: r => r.dropWhile isTextChar
    | r => r
  if r.isEmpty then some [] else newline? r

/-! ## Strings -/

/-- The character that hexadecimal digits number. -/
def ofHexDigits? (digits : List Char) : Option Char := do
  let values ← digits.mapM Text.hexValue?
  let n := values.foldl (fun n d => 16 * n + d) 0
  if n < 0xd800 ∨ (0xe000 ≤ n ∧ n < 0x110000) then some (Char.ofNat n) else none

/-- The character of so many hexadecimal digits at the front. -/
def hexEscape? (count : Nat) (s : List Char) : Option Char :=
  if (s.take count).length = count then ofHexDigits? (s.take count) else none

/-- The character that stands for what follows a backslash, and how many characters that
takes. -/
def escape? : List Char → Option (Char × Nat)
  | 'b' :: _ => some ('\x08', 1)
  | 't' :: _ => some ('\t', 1)
  | 'n' :: _ => some ('\n', 1)
  | 'f' :: _ => some ('\x0c', 1)
  | 'r' :: _ => some ('\r', 1)
  | '"' :: _ => some ('"', 1)
  | '\\' :: _ => some ('\\', 1)
  | 'u' :: s => (hexEscape? 4 s).map (·, 5)
  | 'U' :: s => (hexEscape? 8 s).map (·, 9)
  | _ => none

/-- A character before the characters of a result. -/
def consTo (c : Char) (result : Option (List Char × List Char)) :
    Option (List Char × List Char) :=
  result.map fun (cs, rest) => (c :: cs, rest)

/-- The characters up to the closing quote. -/
def basicBody? (s : List Char) : Option (List Char × List Char) :=
  match s with
  | [] => none
  | '"' :: r => some ([], r)
  | '\\' :: r =>
    match escape? r with
    | some (c, used) => consTo c (basicBody? (r.drop used))
    | none => none
  | c :: r => if isTextChar c then consTo c (basicBody? r) else none
termination_by s.length
decreasing_by all_goals simp only [List.length_cons, List.length_drop]; omega

/-- Whether only space is left on the line. -/
def isBlankToLineEnd (s : List Char) : Bool := (newline? (skipSpace s)).isSome

/-- The characters up to the three closing quotes, of which up to two more may stand before
them. A backslash at the end of a line takes away all space up to the next character; the flag
says that this is going on. -/
def multiBasicBody? (trimming : Bool) (s : List Char) : Option (List Char × List Char) :=
  match s with
  | [] => none
  | '"' :: '"' :: '"' :: '"' :: '"' :: r => some (['"', '"'], r)
  | '"' :: '"' :: '"' :: '"' :: r => some (['"'], r)
  | '"' :: '"' :: '"' :: r => some ([], r)
  | '\r' :: '\n' :: r =>
    if trimming then multiBasicBody? true r else consTo '\n' (multiBasicBody? false r)
  | '\n' :: r =>
    if trimming then multiBasicBody? true r else consTo '\n' (multiBasicBody? false r)
  | '\\' :: r =>
    if isBlankToLineEnd r then multiBasicBody? true r
    else
      match escape? r with
      | some (c, used) => consTo c (multiBasicBody? false (r.drop used))
      | none => none
  | c :: r =>
    if trimming && isSpace c then multiBasicBody? true r
    else if isTextChar c then consTo c (multiBasicBody? false r)
    else none
termination_by s.length
decreasing_by all_goals simp only [List.length_cons, List.length_drop]; omega

/-- The characters up to the closing apostrophe. -/
def literalBody? : List Char → Option (List Char × List Char)
  | [] => none
  | '\'' :: s => some ([], s)
  | c :: s => if isTextChar c then consTo c (literalBody? s) else none

/-- The characters up to the three closing apostrophes, of which up to two more may stand
before them. -/
def multiLiteralBody? : List Char → Option (List Char × List Char)
  | [] => none
  | '\'' :: '\'' :: '\'' :: '\'' :: '\'' :: s => some (['\'', '\''], s)
  | '\'' :: '\'' :: '\'' :: '\'' :: s => some (['\''], s)
  | '\'' :: '\'' :: '\'' :: s => some ([], s)
  | '\r' :: '\n' :: s => consTo '\n' (multiLiteralBody? s)
  | '\n' :: s => consTo '\n' (multiLiteralBody? s)
  | c :: s => if isTextChar c then consTo c (multiLiteralBody? s) else none

/-- The text without the end of a line at its front. -/
def dropNewline (s : List Char) : List Char := (newline? s).getD s

/-- A string in any of its four forms. -/
def stringAt? (s : List Char) : Option (String × List Char) :=
  let result := match s with
    | '"' :: '"' :: '"' :: r => multiBasicBody? false (dropNewline r)
    | '"' :: r => basicBody? r
    | '\'' :: '\'' :: '\'' :: r => multiLiteralBody? (dropNewline r)
    | '\'' :: r => literalBody? r
    | _ => none
  result.map fun (cs, rest) => (String.ofList cs, rest)

/-! ## Keys -/

/-- A character of a bare key. -/
def isBareChar (c : Char) : Bool := c.isAlphanum || c = '_' || c = '-'

/-- One part of a key: bare, or a string on one line. -/
def keyPart? (s : List Char) : Option (String × List Char) :=
  match s with
  | '"' :: r => (basicBody? r).map fun (cs, rest) => (String.ofList cs, rest)
  | '\'' :: r => (literalBody? r).map fun (cs, rest) => (String.ofList cs, rest)
  | _ =>
    let bare := s.takeWhile isBareChar
    if bare.isEmpty then none else some (String.ofList bare, s.dropWhile isBareChar)

/-- A key of at most so many parts with dots between them: the parts before the last, and the
last. -/
def keyWithin? : Nat → List Char → Option ((List String × String) × List Char)
  | 0, _ => none
  | parts + 1, s => do
    let (part, r) ← keyPart? (skipSpace s)
    match skipSpace r with
    | '.' :: r => do
      let ((path, last), rest) ← keyWithin? parts r
      some ((part :: path, last), rest)
    | rest => some (([], part), rest)

/-- How many parts a key may have. -/
def keyLimit : Nat := 79

/-- A key with space around it. -/
def key? (s : List Char) : Option ((List String × String) × List Char) := keyWithin? keyLimit s

/-! ## Numbers -/

/-- Digits, between any two of which one underscore may stand. The underscores are left
out. -/
def digits? (isDigit : Char → Bool) : List Char → Option (List Char × List Char)
  | [] => none
  | c :: s =>
    if isDigit c then
      match s with
      | [] => some ([c], [])
      | '_' :: r => consTo c (digits? isDigit r)
      | d :: r => if isDigit d then consTo c (digits? isDigit (d :: r)) else some ([c], d :: r)
    else none

/-- The digits of a whole number: zero, or digits that do not begin with zero. -/
def whole? : List Char → Option (List Char × List Char)
  | '0' :: s => some (['0'], s)
  | s => digits? Char.isDigit s

/-- The sign at the front. -/
def sign : List Char → List Char × List Char
  | '+' :: s => (['+'], s)
  | '-' :: s => (['-'], s)
  | s => ([], s)

/-- The least whole number that is too large, 2⁶³. -/
def integerLimit : Int := 9223372036854775808

/-- A whole number within the limits. -/
def integerWithin? (n : Int) : Option Toml :=
  if -integerLimit ≤ n ∧ n < integerLimit then some (.integer n) else none

/-- The value of digits with a base. -/
def valueInBase (base : Nat) (digits : List Char) : Nat :=
  digits.foldl (fun n c => base * n + (Text.hexValue? c).getD 0) 0

/-- Whether a character is a digit with a base. -/
def isDigitInBase (base : Nat) (c : Char) : Bool :=
  match Text.hexValue? c with
  | some n => n < base
  | none => false

/-- The whole number whose digits follow a mark for their base. -/
def inBase? (base : Nat) (s : List Char) : Option (Toml × List Char) := do
  let (ds, rest) ← digits? (isDigitInBase base) s
  let t ← integerWithin? (valueInBase base ds)
  some (t, rest)

/-- A floating point number in parts. -/
structure FloatText where
  /-- The sign. -/
  sign : List Char
  /-- The digits before the point. -/
  whole : List Char
  /-- The digits behind the point. -/
  fraction : List Char
  /-- The exponent. -/
  exponent : Int
  /-- The number as it is written, without underscores. -/
  text : List Char

/-- A number that is not less than the value of all digits rounds to infinity from here on:
the largest number of 64 bits and half of the step above it. -/
def infinityBound : Nat := Nat.pow 2 1024 - Nat.pow 2 970

/-- Whether the number is so large that it rounds to infinity. -/
def FloatText.isInfinite (f : FloatText) : Bool :=
  let digits := (f.whole ++ f.fraction).dropWhile (· = '0')
  let places := f.exponent - f.fraction.length
  let size := digits.length + places
  if digits.isEmpty ∨ size < 309 then false
  else if 309 < size then true
  else if 0 ≤ places then infinityBound ≤ valueInBase 10 digits * Nat.pow 10 places.toNat
  else infinityBound * Nat.pow 10 (-places).toNat ≤ valueInBase 10 digits

/-- The exponent behind its letter, with its text. -/
def exponent? (s : List Char) : Option ((Int × List Char) × List Char) := do
  let (sg, r) := sign s
  let (ds, rest) ← digits? Char.isDigit r
  let n : Int := valueInBase 10 ds
  some ((if sg = ['-'] then -n else n, 'e' :: sg ++ ds), rest)

/-- What follows the whole part of a floating point number: a fraction, an exponent or both. -/
def floatTail? (sg whole : List Char) (s : List Char) : Option (FloatText × List Char) :=
  let exponentOf (fraction text : List Char) (s : List Char) : Option (FloatText × List Char) := do
    let ((e, t), rest) ← exponent? s
    some (⟨sg, whole, fraction, e, text ++ t⟩, rest)
  match s with
  | '.' :: r => do
    let (fraction, r) ← digits? Char.isDigit r
    let text := sg ++ whole ++ '.' :: fraction
    match r with
    | 'e' :: r => exponentOf fraction text r
    | 'E' :: r => exponentOf fraction text r
    | rest => some (⟨sg, whole, fraction, 0, text⟩, rest)
  | 'e' :: r => exponentOf [] (sg ++ whole) r
  | 'E' :: r => exponentOf [] (sg ++ whole) r
  | _ => none

/-- Whether a floating point number goes on behind its whole part. -/
def startsFloatTail : List Char → Bool
  | c :: _ => c = '.' || c = 'e' || c = 'E'
  | [] => false

/-- A number in decimal digits. One that rounds to positive infinity is refused. -/
def decimal? (s : List Char) : Option (Toml × List Char) := do
  let (sg, r) := sign s
  let (whole, r) ← whole? r
  if startsFloatTail r then
    let (f, rest) ← floatTail? sg whole r
    if f.isInfinite && sg ≠ ['-'] then none
    else some (.float (String.ofList f.text), rest)
  else
    let n : Int := valueInBase 10 whole
    let t ← integerWithin? (if sg = ['-'] then -n else n)
    some (t, r)

/-- The special numbers, with an optional sign. -/
def special? (s : List Char) : Option (Toml × List Char) :=
  let (sg, r) := sign s
  match r with
  | 'i' :: 'n' :: 'f' :: rest => some (.float (String.ofList (sg ++ "inf".toList)), rest)
  | 'n' :: 'a' :: 'n' :: rest => some (.float (String.ofList (sg ++ "nan".toList)), rest)
  | _ => none

/-- A number. -/
def number? (s : List Char) : Option (Toml × List Char) :=
  match s with
  | '0' :: 'x' :: r => inBase? 16 r
  | '0' :: 'o' :: r => inBase? 8 r
  | '0' :: 'b' :: r => inBase? 2 r
  | _ => (special? s).orElse fun _ => decimal? s

end RuleFlow.Toml.Lexeme
