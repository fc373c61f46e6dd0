import RuleFlow.Reader.Clause

/-!
# Reading documents

A document is a sequence of prefix declarations and rules. `document` reads one and returns the
table of prefixes at its end; when it fails, the declarations before the failure stay.
`singleRule` and `clauseList` read a text that is one rule or a list of clauses and leave the
table alone. A failure is named by `ReadError`, its place by the number of bytes before it.
-/

namespace RuleFlow

/-- What was wanted where the text goes wrong. -/
inductive Complaint where
  /-- A declaration of a prefix is not complete. -/
  | badDirective
  /-- Neither a rule nor a declaration stands here, or the rule is broken here. -/
  | noRule
  /-- A clause cannot be read. -/
  | noClause
  /-- The clauses end, but not the text. -/
  | trailing
  deriving DecidableEq

namespace Complaint

/-- The complaint in words. -/
def message : Complaint → String
  | .badDirective => "malformed @prefix directive"
  | .noRule => "expected a rule"
  | .noClause => "expected a clause"
  | .trailing => "unexpected trailing input"

end Complaint

/-- Why a text could not be read. -/
inductive ReadError where
  /-- The text goes wrong behind so many bytes. -/
  | syntaxAt (position : Nat) (complaint : Complaint)
  /-- A prefix was not declared. -/
  | undefinedPrefix (name : String)
  /-- Only blanks are left where something had to follow. -/
  | unexpectedEnd
  /-- One rule was wanted. -/
  | notASingleRule (found : Nat)
  deriving DecidableEq

namespace ReadError

/-- The error in words. -/
def message : ReadError → String
  | .syntaxAt position complaint =>
    "Syntax error at position " ++ toString position ++ ": " ++ complaint.message
  | .undefinedPrefix name => "Undefined prefix: " ++ name
  | .unexpectedEnd => "Unexpected end of input"
  | .notASingleRule found => "Expected exactly one rule, found " ++ toString found

end ReadError

namespace Reader

/-- The number of bytes of the text in UTF-8. -/
def byteCount (s : List Char) : Nat :=
  s.foldr (fun c n => c.utf8Size + n) 0

/-- The error for reading that stopped at `rest`, an end of `full`. A prefixed name without a
declaration at this place explains the failure best. -/
def errorAt (ps : Prefixes) (full rest : List Char) (complaint : Complaint) : ReadError :=
  if (Text.trimStart rest).isEmpty then .unexpectedEnd
  else
    let wrong := ReadError.syntaxAt (byteCount full - byteCount rest) complaint
    match prefixedName? (Text.trimStart rest) with
    | some ((name, _), _) => if ps.contains name then wrong else .undefinedPrefix name
    | none => wrong

/-- The word that begins a declaration of a prefix. -/
def directiveWord : List Char := "@prefix".toList

/-- The text without a dot at its front. -/
def dropDot : List Char → List Char
  | '.' :: s => s
  | s => s

theorem dropDot_suffix (s : List Char) : dropDot s <:+ s := by
  unfold dropDot
  split
  · exact List.suffix_cons _ _
  · exact List.suffix_rfl

/-- A declaration without its first word: the prefix, a colon, the namespace between angle
brackets, and perhaps a dot. -/
def declaration? (s : List Char) : Option ((String × String) × List Char) :=
  match (skip s).dropWhile isPlainChar with
  | ':' :: r =>
    match iri? (skip r) with
    | some (namespaceIri, t) =>
      some ((String.ofList ((skip s).takeWhile isPlainChar), namespaceIri), dropDot (skip t))
    | none => none
  | _ => none

theorem declaration?_suffix {s rest : List Char} {pair : String × String}
    (h : declaration? s = some (pair, rest)) : rest <:+ s := by
  unfold declaration? at h
  split at h
  · next r hr =>
    split at h
    · next t ht =>
      obtain ⟨-, rfl⟩ := Prod.mk.inj (Option.some.inj h)
      have e₁ : r <:+ s :=
        ((List.suffix_cons ':' r).trans (hr ▸ List.dropWhile_suffix _)).trans (skip_suffix s).1
      have e₂ : t <:+ s := ((properEnd_of_iri? ht).1.trans (skip_suffix r).1).trans e₁
      exact ((dropDot_suffix _).trans (skip_suffix t).1).trans e₂
    · simp at h
  · simp at h

/-- The rules of the unread part `s` of the text `full`, with the prefixes at its end or at the
failure. -/
def documentFrom (full : List Char) (ps : Prefixes) (s : List Char) :
    Prefixes × Except ReadError (List Rule) :=
  match hs : skip s with
  | [] => (ps, .ok [])
  | c :: t =>
    have hlen : (c :: t).length ≤ s.length := hs ▸ length_skip_le s
    match hd : Text.dropStart? directiveWord (c :: t) with
    | some r =>
      match hp : declaration? r with
      | some ((name, namespaceIri), rest) =>
        have : rest.length < s.length := by
          have e := Text.dropStart?_eq_some_iff.1 hd
          have h₁ := (declaration?_suffix hp).length_le
          have h₂ := congrArg List.length e
          have h₃ : directiveWord.length = 7 := by decide
          rw [List.length_append, h₃] at h₂
          omega
        documentFrom full (ps.declare name namespaceIri) rest
      | none => (ps, .error (errorAt ps full (c :: t) .badDirective))
    | none =>
      match hr : rule ps (c :: t) with
      | .ok (r, rest) =>
        have : rest.length < s.length := by
          have h₁ := (consumes_rule ps _ _ _ hr).2
          omega
        let (ps', rules) := documentFrom full ps rest
        (ps', rules.map (r :: ·))
      | .error stop => (ps, .error (errorAt ps full stop.rest .noRule))
termination_by s.length

/-- The recursion of the reader of documents, without what its termination needs. -/
theorem documentFrom_eq (full : List Char) (ps : Prefixes) (s : List Char) :
    documentFrom full ps s = match skip s with
      | [] => (ps, .ok [])
      | c :: t =>
        match Text.dropStart? directiveWord (c :: t) with
        | some r =>
          match declaration? r with
          | some ((name, namespaceIri), rest) =>
            documentFrom full (ps.declare name namespaceIri) rest
          | none => (ps, .error (errorAt ps full (c :: t) .badDirective))
        | none =>
          match rule ps (c :: t) with
          | .ok (r, rest) =>
            ((documentFrom full ps rest).1, (documentFrom full ps rest).2.map (r :: ·))
          | .error stop => (ps, .error (errorAt ps full stop.rest .noRule)) := by
  rw [documentFrom]
  split
  · next hs => simp only [hs]
  · next c t hs =>
    split
    · next r hd =>
      split
      · next hp => simp only [hs, hd, hp]
      · next hp => simp only [hs, hd, hp]
    · next hd =>
      split
      · next hr => simp only [hs, hd, hr]
      · next hr => simp only [hs, hd, hr]

section
variable {full : List Char} {ps : Prefixes} {s r rest : List Char}

/-- Comments and spaces before an entry do not matter. -/
theorem documentFrom_congr {s' : List Char} (h : skip s = skip s') :
    documentFrom full ps s = documentFrom full ps s' := by
  rw [documentFrom_eq, documentFrom_eq, h]

theorem documentFrom_of_end (h : skip s = []) : documentFrom full ps s = (ps, .ok []) := by
  rw [documentFrom_eq, h]

/-- After the word for declarations a declaration must follow. -/
theorem documentFrom_of_word (h : skip s = directiveWord ++ r) :
    documentFrom full ps s = match declaration? r with
      | some ((name, namespaceIri), rest) => documentFrom full (ps.declare name namespaceIri) rest
      | none => (ps, .error (errorAt ps full (skip s) .badDirective)) := by
  have hd : Text.dropStart? directiveWord (directiveWord ++ r) = some r :=
    Text.dropStart?_eq_some_iff.2 rfl
  rw [documentFrom_eq, h]
  split
  · next hnil => exact absurd (List.append_eq_nil_iff.1 hnil).1 (by decide)
  · next hcons => simp only [← hcons, hd]

/-- A rule that is read comes before the rules of the rest of the text. -/
theorem documentFrom_of_rule {read : Rule} (h : rule ps (skip s) = .ok (read, rest)) :
    documentFrom full ps s =
      ((documentFrom full ps rest).1, (documentFrom full ps rest).2.map (read :: ·)) := by
  obtain ⟨t, -, -, -, ht, -⟩ := rule_eq_ok_iff.1 h
  rw [ht] at h
  have hd : Text.dropStart? directiveWord ('[' :: t) = none := rfl
  rw [documentFrom_eq, ht]
  simp only [hd, h]

/-- The reader stops where no rule can be read, and says so. -/
theorem documentFrom_of_broken {stop : Stop} (hs : skip s ≠ [])
    (hd : Text.dropStart? directiveWord (skip s) = none) (h : rule ps (skip s) = .error stop) :
    documentFrom full ps s = (ps, .error (errorAt ps full stop.rest .noRule)) := by
  rw [documentFrom_eq]
  split
  · next hnil => exact absurd hnil hs
  · next hcons => rw [← hcons, hd, h]

end

/-- The rules of a document, and the prefixes at its end or at its failure. -/
def document (ps : Prefixes) (text : String) : Prefixes × Except ReadError (List Rule) :=
  documentFrom text.toList ps text.toList

/-- A text that holds one rule, perhaps with declarations, which end with it. -/
def singleRule (ps : Prefixes) (text : String) : Except ReadError Rule :=
  match (document ps text).2 with
  | .error e => .error e
  | .ok [r] => .ok r
  | .ok rules => .error (.notASingleRule rules.length)

/-- A text that is a list of clauses. -/
def clauseList (ps : Prefixes) (text : String) : Except ReadError (List Clause) :=
  match clauses ps text.toList with
  | .error stop => .error (errorAt ps text.toList stop.rest .noClause)
  | .ok (cs, rest) =>
    if (skip rest).isEmpty then .ok cs
    else .error (errorAt ps text.toList (skip rest) .trailing)

end Reader
end RuleFlow
