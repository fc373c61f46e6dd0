import RuleFlow.Text.Numeric
import RuleFlow.Text.Blank
import RuleFlow.Text.Search
import RuleFlow.Term

/-!
# Lexemes of the rule language

A reader takes a lexeme off the front of the unread text and returns it with what is left.
Here are the readers that need no table of prefixes: space and comments, names, IRIs,
variables, blank nodes, quoted strings and numbers. A lemma beside each says that what it
leaves is a proper end of the text it was given.
-/

namespace RuleFlow.Reader

/-! ## Space and comments -/

mutual

/-- The text after space and comments. A comment begins with a number sign or with two slashes
and ends with its line. -/
def skip : List Char → List Char
  | [] => []
  | '#' :: s => skipLine s
  | '/' :: '/' :: s => skipLine s
  | c :: s => if Text.isSpacing c then skip s else c :: s

/-- The text after the rest of a line of comment, and after space and comments behind it. -/
def skipLine : List Char → List Char
  | [] => []
  | c :: s => if c = '\n' then skip s else skipLine s

end

/-- What is left after space and comments is an end of the text. -/
theorem skip_suffix (s : List Char) : skip s <:+ s ∧ skipLine s <:+ s := by
  induction s with
  | nil => simp [skip, skipLine]
  | cons c s ih =>
    have line : skipLine (c :: s) <:+ c :: s := by
      unfold skipLine
      split
      · exact ih.1.trans (List.suffix_cons c s)
      · exact ih.2.trans (List.suffix_cons c s)
    refine ⟨?_, line⟩
    unfold skip
    split
    · next h => simp at h
    · next h =>
      obtain ⟨rfl, rfl⟩ := List.cons.inj h
      exact ih.2.trans (List.suffix_cons _ _)
    · next t h =>
      obtain ⟨rfl, rfl⟩ := List.cons.inj h
      -- the second slash is a character of the comment like any other
      have second : skipLine ('/' :: t) = skipLine t := by simp [skipLine]
      exact (second ▸ ih.2).trans (List.suffix_cons _ _)
    · next d t _ _ h =>
      obtain ⟨rfl, rfl⟩ := List.cons.inj h
      split
      · exact ih.1.trans (List.suffix_cons _ _)
      · exact List.suffix_rfl

/-- A comment begins with these characters. -/
def OpensComment (c : Char) (s : List Char) : Prop := c = '#' ∨ c = '/' ∧ ∃ t, s = '/' :: t

/-- A comment is skipped with its line, and so is what may be skipped behind it. -/
theorem skip_comment {c : Char} {s : List Char} (h : OpensComment c s) :
    skip (c :: s) = skipLine s := by
  obtain rfl | ⟨rfl, t, rfl⟩ := h
  · rw [skip]
  · -- the second slash is a character of the comment like any other
    simp [skip, skipLine]

/-- Where no comment begins, space alone is skipped. -/
theorem skip_cons {c : Char} {s : List Char} (h : ¬OpensComment c s) :
    skip (c :: s) = if Text.isSpacing c then skip s else c :: s := by
  rw [skip]
  · exact fun hc => h (.inl hc)
  · exact fun t hc hs => h (.inr ⟨hc, t, hs⟩)

/-- Behind space and comments there is neither. -/
theorem skip_skip (s : List Char) :
    skip (skip s) = skip s ∧ skip (skipLine s) = skipLine s := by
  induction s with
  | nil => exact ⟨rfl, rfl⟩
  | cons c s ih =>
    have line : skip (skipLine (c :: s)) = skipLine (c :: s) := by
      rw [skipLine]
      split
      · exact ih.1
      · exact ih.2
    refine ⟨?_, line⟩
    by_cases hcomment : OpensComment c s
    · rw [skip_comment hcomment]
      exact ih.2
    · cases hspace : Text.isSpacing c with
      | true =>
        rw [skip_cons hcomment, hspace]
        exact ih.1
      | false =>
        have hself : skip (c :: s) = c :: s := by rw [skip_cons hcomment, hspace]; rfl
        rw [hself, hself]

/-- Skipping does not make a text longer. -/
theorem length_skip_le (s : List Char) : (skip s).length ≤ s.length :=
  (skip_suffix s).1.length_le

/-- The text after white space and commas, which separate terms. -/
def skipSeparators (s : List Char) : List Char :=
  s.dropWhile fun c => Text.isSpacing c || c = ','

/-- What is left when separators are skipped is an end of the text. -/
theorem skipSeparators_suffix (s : List Char) : skipSeparators s <:+ s :=
  List.dropWhile_suffix _

/-! ## Proper ends of a text -/

/-- `rest` is an end of `s` and not all of it. -/
def ProperEnd (rest s : List Char) : Prop :=
  rest <:+ s ∧ rest.length < s.length

/-- An end of a text is a proper one of the text with another character before it. -/
theorem ProperEnd.of_cons {rest s : List Char} {c : Char} (h : rest <:+ s) :
    ProperEnd rest (c :: s) :=
  ⟨h.trans (List.suffix_cons c s), Nat.lt_succ_of_le h.length_le⟩

/-- An end of a proper end is proper. -/
theorem ProperEnd.of_suffix {rest mid s : List Char} (h : rest <:+ mid) (hs : ProperEnd mid s) :
    ProperEnd rest s :=
  ⟨h.trans hs.1, Nat.lt_of_le_of_lt h.length_le hs.2⟩

/-- A proper end of an end is proper. -/
theorem ProperEnd.suffix {rest mid s : List Char} (h : ProperEnd rest mid) (hs : mid <:+ s) :
    ProperEnd rest s :=
  ⟨h.1.trans hs, Nat.lt_of_lt_of_le h.2 hs.length_le⟩

/-! ## Runs of characters -/

/-- The longest run of characters of a class, when it is not empty. -/
def run? (p : Char → Bool) (s : List Char) : Option (String × List Char) :=
  if (s.takeWhile p).isEmpty then none else some (String.ofList (s.takeWhile p), s.dropWhile p)

/-- A run takes at least one character. -/
theorem properEnd_of_run? {p : Char → Bool} {s rest : List Char} {text : String}
    (h : run? p s = some (text, rest)) : ProperEnd rest s := by
  unfold run? at h
  split at h
  · simp at h
  · next hne =>
    obtain ⟨-, rfl⟩ := Prod.mk.inj (Option.some.inj h)
    have hlen : (s.takeWhile p).length + (s.dropWhile p).length = s.length := by
      rw [← List.length_append, List.takeWhile_append_dropWhile]
    have hpos : 0 < (s.takeWhile p).length := by
      rw [List.length_pos_iff]
      simpa using hne
    exact ⟨List.dropWhile_suffix _, by omega⟩

/-! ## Names -/

/-- A character that may begin a name. -/
def isNameStart (c : Char) : Bool := Text.isAlphabetic c || c = '_'

/-- A character that may continue a name. -/
def isNameChar (c : Char) : Bool :=
  Text.isAlphanumeric c || c = '_' || c = '-' || c = '.'

/-- A character of a variable's name or of a prefix. -/
def isPlainChar (c : Char) : Bool := Text.isAlphanumeric c || c = '_'

/-- A character of a local name or of a blank node's label. -/
def isLocalChar (c : Char) : Bool := Text.isAlphanumeric c || c = '_' || c = '-'

/-- A character of a language tag. -/
def isTagChar (c : Char) : Bool := Text.isAlphanumeric c || c = '-'

theorem isPlainChar_of_isNameStart {c : Char} (h : isNameStart c = true) :
    isPlainChar c = true := by
  simp only [isNameStart, Bool.or_eq_true] at h
  simp only [isPlainChar, Text.isAlphanumeric, Bool.or_eq_true]
  exact h.imp_left .inl

/-! A character of ASCII is outside a class when it is no letter, no digit and none of the
marks of the class: the tables of characters need not be searched for it. -/

/-- An ASCII character that is no letter and no underscore begins no name. -/
theorem isNameStart_eq_false {c : Char} (h : c.toNat < 128 ∧ (c.isAlpha || c = '_') = false) :
    isNameStart c = false := by
  rw [isNameStart, Text.isAlphabetic_of_ascii h.1, h.2]

theorem isNameChar_eq_false {c : Char}
    (h : c.toNat < 128 ∧ (c.isAlphanum || c = '_' || c = '-' || c = '.') = false) :
    isNameChar c = false := by
  rw [isNameChar, Text.isAlphanumeric_of_ascii h.1, h.2]

theorem isPlainChar_eq_false {c : Char} (h : c.toNat < 128 ∧ (c.isAlphanum || c = '_') = false) :
    isPlainChar c = false := by
  rw [isPlainChar, Text.isAlphanumeric_of_ascii h.1, h.2]

theorem isLocalChar_eq_false {c : Char}
    (h : c.toNat < 128 ∧ (c.isAlphanum || c = '_' || c = '-') = false) :
    isLocalChar c = false := by
  rw [isLocalChar, Text.isAlphanumeric_of_ascii h.1, h.2]

theorem isTagChar_eq_false {c : Char} (h : c.toNat < 128 ∧ (c.isAlphanum || c = '-') = false) :
    isTagChar c = false := by
  rw [isTagChar, Text.isAlphanumeric_of_ascii h.1, h.2]

/-- A name: a letter or an underscore, then letters, numbers, underscores, hyphens and dots. -/
def name? (s : List Char) : Option (String × List Char) :=
  match s with
  | c :: _ => if isNameStart c then run? isNameChar s else none
  | [] => none

theorem properEnd_of_name? {s rest : List Char} {text : String}
    (h : name? s = some (text, rest)) : ProperEnd rest s := by
  unfold name? at h
  split at h
  · split at h
    · exact properEnd_of_run? h
    · simp at h
  · simp at h

/-- A prefixed name: the prefix, a colon and the local name. Both names may be empty. -/
def prefixedName? (s : List Char) : Option ((String × String) × List Char) :=
  match s.dropWhile isPlainChar with
  | ':' :: r =>
    some ((String.ofList (s.takeWhile isPlainChar), String.ofList (r.takeWhile isLocalChar)),
      r.dropWhile isLocalChar)
  | _ => none

/-- A prefixed name takes at least its colon. -/
theorem properEnd_of_prefixedName? {s rest : List Char} {names : String × String}
    (h : prefixedName? s = some (names, rest)) : ProperEnd rest s := by
  unfold prefixedName? at h
  split at h
  · next r hr =>
    obtain ⟨-, rfl⟩ := Prod.mk.inj (Option.some.inj h)
    have hend : ProperEnd (r.dropWhile isLocalChar) (':' :: r) :=
      ProperEnd.of_cons (List.dropWhile_suffix _)
    exact hend.suffix (hr ▸ List.dropWhile_suffix _)
  · simp at h

/-! ## IRIs, variables and blank nodes -/

/-- A character that may stand between angle brackets. -/
def isIriChar (c : Char) : Bool := !(c = '>' || c = ' ' || c = '\n' || c = '\r')

/-- An IRI between angle brackets. -/
def iri? (s : List Char) : Option (String × List Char) :=
  match s with
  | '<' :: r =>
    match r.dropWhile isIriChar with
    | '>' :: rest => some (String.ofList (r.takeWhile isIriChar), rest)
    | _ => none
  | _ => none

/-- An IRI takes at least its brackets. -/
theorem properEnd_of_iri? {s rest : List Char} {text : String}
    (h : iri? s = some (text, rest)) : ProperEnd rest s := by
  unfold iri? at h
  split at h
  · next r =>
    split at h
    · next rest' hr =>
      obtain ⟨-, rfl⟩ := Prod.mk.inj (Option.some.inj h)
      have hend : rest' <:+ r := (List.suffix_cons _ _).trans (hr ▸ List.dropWhile_suffix _)
      exact ProperEnd.of_cons hend
    · simp at h
  · simp at h

/-- A variable: a question mark and a run of letters, numbers and underscores. -/
def variableName? (s : List Char) : Option (String × List Char) :=
  match s with
  | '?' :: r => run? isPlainChar r
  | _ => none

/-- A variable takes at least its question mark. -/
theorem properEnd_of_variableName? {s rest : List Char} {text : String}
    (h : variableName? s = some (text, rest)) : ProperEnd rest s := by
  unfold variableName? at h
  split at h
  · exact (properEnd_of_run? h).suffix (List.suffix_cons _ _)
  · simp at h

/-- A blank node: an underscore, a colon and a label. -/
def blankLabel? (s : List Char) : Option (String × List Char) :=
  match s with
  | '_' :: ':' :: r => run? isLocalChar r
  | _ => none

theorem properEnd_of_blankLabel? {s rest : List Char} {text : String}
    (h : blankLabel? s = some (text, rest)) : ProperEnd rest s := by
  unfold blankLabel? at h
  split at h
  · exact (properEnd_of_run? h).suffix ((List.suffix_cons _ _).trans (List.suffix_cons _ _))
  · simp at h

/-! ## Quoted strings -/

/-- The character that stands escaped behind a backslash. -/
def unescape? (c : Char) : Option Char :=
  if c = '"' then some '"'
  else if c = '\\' then some '\\'
  else if c = 'n' then some '\n'
  else if c = 'r' then some '\r'
  else if c = 't' then some '\t'
  else if c = '\'' then some '\''
  else none

/-- The characters up to the closing quote, and what follows it. There are none when the text
ends before the quote or holds an unknown escape. -/
def quotedBody? : List Char → Option (List Char × List Char)
  | [] => none
  | '"' :: s => some ([], s)
  | '\\' :: c :: s =>
    match unescape? c, quotedBody? s with
    | some d, some (cs, rest) => some (d :: cs, rest)
    | _, _ => none
  | c :: s =>
    if c = '\\' then none
    else match quotedBody? s with
      | some (cs, rest) => some (c :: cs, rest)
      | none => none

/-- The inside of a literal is read with the quote that ends it. -/
theorem properEnd_of_quotedBody? {s rest : List Char} {text : List Char}
    (h : quotedBody? s = some (text, rest)) : ProperEnd rest s := by
  fun_induction quotedBody? s generalizing text with
  | case1 => simp at h
  | case2 s =>
    obtain ⟨-, rfl⟩ := Prod.mk.inj (Option.some.inj h)
    exact ProperEnd.of_cons List.suffix_rfl
  | case3 c s d cs rest' hs hc ih =>
    obtain ⟨-, rfl⟩ := Prod.mk.inj (Option.some.inj h)
    exact (ih hs).suffix ((List.suffix_cons _ _).trans (List.suffix_cons _ _))
  | case4 => simp at h
  | case5 => simp at h
  | case6 c s _ _ _ cs rest' hs ih =>
    obtain ⟨-, rfl⟩ := Prod.mk.inj (Option.some.inj h)
    exact (ih hs).suffix (List.suffix_cons _ _)
  | case7 => simp at h

/-- A string between quotes. -/
def quoted? (s : List Char) : Option (String × List Char) :=
  match s with
  | '"' :: r => (quotedBody? r).map fun (cs, rest) => (String.ofList cs, rest)
  | _ => none

theorem properEnd_of_quoted? {s rest : List Char} {text : String}
    (h : quoted? s = some (text, rest)) : ProperEnd rest s := by
  unfold quoted? at h
  split at h
  · obtain ⟨⟨cs, rest'⟩, hb, he⟩ := Option.map_eq_some_iff.1 h
    obtain ⟨-, rfl⟩ := Prod.mk.inj he
    exact (properEnd_of_quotedBody? hb).suffix (List.suffix_cons _ _)
  · simp at h

/-! ## Numbers -/

/-- A sign at the front of a text, and the text behind it. -/
def splitSign : List Char → String × List Char
  | '+' :: s => ("+", s)
  | '-' :: s => ("-", s)
  | s => ("", s)

theorem splitSign_suffix (s : List Char) : (splitSign s).2 <:+ s := by
  unfold splitSign
  split <;> simp

/-- A dot and a run of digits after it. -/
def fraction? (s : List Char) : Option (String × List Char) :=
  match s with
  | '.' :: r => (run? Char.isDigit r).map fun (digits, rest) => ("." ++ digits, rest)
  | _ => none

/-- A number: an optional sign, digits, and perhaps a dot with more digits. The literal keeps
its text; it is a decimal when it has a dot and an integer otherwise. -/
def number? (s : List Char) : Option (Literal × List Char) :=
  let sign := (splitSign s).1
  match run? Char.isDigit (splitSign s).2 with
  | none => none
  | some (whole, r) =>
    match fraction? r with
    | some (fraction, rest) =>
      some (⟨sign ++ whole ++ fraction, .typed (Vocabulary.xsd ++ "decimal")⟩, rest)
    | none => some (⟨sign ++ whole, .typed (Vocabulary.xsd ++ "integer")⟩, r)

theorem properEnd_of_fraction? {s rest : List Char} {text : String}
    (h : fraction? s = some (text, rest)) : ProperEnd rest s := by
  unfold fraction? at h
  split at h
  · obtain ⟨⟨digits, rest'⟩, hr, he⟩ := Option.map_eq_some_iff.1 h
    obtain ⟨-, rfl⟩ := Prod.mk.inj he
    exact (properEnd_of_run? hr).suffix (List.suffix_cons _ _)
  · simp at h

/-- A number takes at least one digit. -/
theorem properEnd_of_number? {s rest : List Char} {l : Literal}
    (h : number? s = some (l, rest)) : ProperEnd rest s := by
  unfold number? at h
  split at h
  · simp at h
  · next whole r hr =>
    have hwhole : ProperEnd r s := (properEnd_of_run? hr).suffix (splitSign_suffix s)
    split at h
    · next fraction rest' hf =>
      obtain ⟨-, rfl⟩ := Prod.mk.inj (Option.some.inj h)
      exact (properEnd_of_fraction? hf).suffix hwhole.1
    · obtain ⟨-, rfl⟩ := Prod.mk.inj (Option.some.inj h)
      exact hwhole

end RuleFlow.Reader
