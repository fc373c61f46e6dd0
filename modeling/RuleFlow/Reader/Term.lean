import RuleFlow.Reader.Lexeme
import RuleFlow.Reader.Prefixes

/-!
# Reading terms

A term is read by the first of seven shapes that fits. A prefixed name whose prefix was not
declared fits no shape and forbids the ones after it: reading stops there for good.
-/

namespace RuleFlow.Reader

/-- Why reading stopped, with the unread text at that point. -/
inductive Stop where
  /-- The wanted shape does not stand here; another may. -/
  | mismatch (rest : List Char)
  /-- A prefixed name without a declaration stands here, and no other shape is tried. -/
  | undeclared (rest : List Char)
  deriving DecidableEq

/-- The unread text where reading stopped. -/
def Stop.rest : Stop → List Char
  | .mismatch rest => rest
  | .undeclared rest => rest

/-- A reader of one shape: what it read and what is left, or why it stopped. -/
abbrev Shape (α : Type) := List Char → Except Stop (α × List Char)

/-- The shape of a lexeme, which stops nothing but itself. -/
def Shape.lexeme {α : Type} (read? : List Char → Option (α × List Char)) : Shape α :=
  fun s => match read? s with
    | some result => .ok result
    | none => .error (.mismatch s)

/-- The first of several shapes that fits. -/
def Shape.firstOf {α : Type} : List (Shape α) → Shape α
  | [], s => .error (.mismatch s)
  | shape :: shapes, s =>
    match shape s with
    | .error (.mismatch _) => firstOf shapes s
    | result => result

/-- The same shape with its value changed. -/
def Shape.map {α β : Type} (f : α → β) (shape : Shape α) : Shape β :=
  fun s => (shape s).map fun (a, rest) => (f a, rest)

/-- The shape leaves a proper end of every text that it reads. -/
def Shape.Consumes {α : Type} (shape : Shape α) : Prop :=
  ∀ s a rest, shape s = .ok (a, rest) → ProperEnd rest s

/-- A lexeme that takes characters makes a shape that does. -/
theorem Shape.consumes_lexeme {α : Type} {read? : List Char → Option (α × List Char)}
    (h : ∀ s a rest, read? s = some (a, rest) → ProperEnd rest s) : (lexeme read?).Consumes := by
  intro s a rest hs
  unfold lexeme at hs
  split at hs
  · next result hr =>
    obtain rfl := Except.ok.inj hs
    exact h s a rest hr
  · simp at hs

/-- The first of some shapes takes characters when each of them does. -/
theorem Shape.consumes_firstOf {α : Type} {shapes : List (Shape α)}
    (h : ∀ shape ∈ shapes, shape.Consumes) : (firstOf shapes).Consumes := by
  induction shapes with
  | nil =>
    intro s a rest hs
    simp [firstOf] at hs
  | cons shape shapes ih =>
    intro s a rest hs
    unfold firstOf at hs
    split at hs
    · exact ih (fun shape hm => h shape (List.mem_cons_of_mem _ hm)) s a rest hs
    · exact h shape List.mem_cons_self s a rest hs

/-- A shape takes the same characters when what it reads is mapped. -/
theorem Shape.Consumes.map {α β : Type} {shape : Shape α} (h : shape.Consumes) (f : α → β) :
    (shape.map f).Consumes := by
  intro s b rest hs
  unfold Shape.map at hs
  cases hr : shape s with
  | error stop => simp [hr, Except.map] at hs
  | ok result =>
    obtain ⟨a, r⟩ := result
    rw [hr] at hs
    obtain ⟨-, rfl⟩ := Prod.mk.inj (Except.ok.inj hs)
    exact h s a r hr

/-! ## Prefixed names and literals -/

/-- A prefixed name, read as the IRI it stands for. -/
def resolvedName (ps : Prefixes) : Shape String := fun s =>
  match prefixedName? s with
  | none => .error (.mismatch s)
  | some ((name, localName), rest) =>
    match ps.resolve? name localName with
    | some iri => .ok (iri, rest)
    | none => .error (.undeclared s)

theorem consumes_resolvedName (ps : Prefixes) : (resolvedName ps).Consumes := by
  intro s a rest hs
  unfold resolvedName at hs
  split at hs
  · simp at hs
  · next name localName r hr =>
    split at hs
    · obtain ⟨-, rfl⟩ := Prod.mk.inj (Except.ok.inj hs)
      exact properEnd_of_prefixedName? hr
    · simp at hs

/-- The IRI of a datatype: between angle brackets or as a prefixed name. -/
def datatype (ps : Prefixes) : Shape String :=
  Shape.firstOf [Shape.lexeme iri?, resolvedName ps]

theorem consumes_datatype (ps : Prefixes) : (datatype ps).Consumes := by
  refine Shape.consumes_firstOf fun shape hm => ?_
  rcases List.mem_cons.1 hm with rfl | hm
  · exact Shape.consumes_lexeme fun s a rest => properEnd_of_iri?
  · rcases List.mem_singleton.1 hm with rfl
    exact consumes_resolvedName ps

/-- A language tag behind its mark. -/
def language? (s : List Char) : Option (String × List Char) :=
  match s with
  | '@' :: r => run? isTagChar r
  | _ => none

/-- A language tag takes at least its at sign. -/
theorem properEnd_of_language? {s rest : List Char} {text : String}
    (h : language? s = some (text, rest)) : ProperEnd rest s := by
  unfold language? at h
  split at h
  · exact (properEnd_of_run? h).suffix (List.suffix_cons _ _)
  · simp at h

/-- A quoted string with a language tag, with two carets and a datatype, or alone. Behind two
carets the datatype must follow. -/
def literal (ps : Prefixes) : Shape Literal := fun s =>
  match quoted? s with
  | none => .error (.mismatch s)
  | some (lexical, r) =>
    match language? r with
    | some (language, rest) => .ok (Literal.tagged lexical language, rest)
    | none =>
      match r with
      | '^' :: '^' :: t => (datatype ps t).map fun (iri, rest) => (⟨lexical, .typed iri⟩, rest)
      | _ => .ok (⟨lexical, .plain⟩, r)

/-- A literal is a quoted text with a language, with a datatype or with neither. -/
theorem literal_eq_ok_iff {ps : Prefixes} {s rest : List Char} {l : Literal} :
    literal ps s = .ok (l, rest) ↔ ∃ lexical r, quoted? s = some (lexical, r) ∧
      ((∃ language, language? r = some (language, rest) ∧ l = Literal.tagged lexical language) ∨
      (∃ t iri, r = '^' :: '^' :: t ∧ datatype ps t = .ok (iri, rest) ∧
        l = ⟨lexical, .typed iri⟩) ∨
      (language? r = none ∧ (∀ t, r ≠ '^' :: '^' :: t) ∧ rest = r ∧ l = ⟨lexical, .plain⟩)) := by
  constructor
  · intro h
    unfold literal at h
    split at h
    · exact nomatch h
    · next lexical r hq =>
      refine ⟨lexical, r, hq, ?_⟩
      split at h
      · next language t hl =>
        obtain ⟨rfl, rfl⟩ := Prod.mk.inj (Except.ok.inj h)
        exact .inl ⟨language, hl, rfl⟩
      · next hl =>
        split at h
        · next t =>
          cases hd : datatype ps t with
          | error stop =>
            rw [hd] at h
            exact nomatch h
          | ok result =>
            rw [hd] at h
            obtain ⟨rfl, rfl⟩ := Prod.mk.inj (Except.ok.inj h)
            exact .inr (.inl ⟨t, result.1, rfl, hd, rfl⟩)
        · next hcarets =>
          obtain ⟨rfl, rfl⟩ := Prod.mk.inj (Except.ok.inj h)
          exact .inr (.inr ⟨hl, hcarets, rfl, rfl⟩)
  · rintro ⟨lexical, r, hq, ⟨language, hl, rfl⟩ | ⟨t, iri, rfl, hd, rfl⟩ | ⟨hl, hcarets, rfl, rfl⟩⟩
    · simp only [literal, hq, hl]
    · have hl : language? ('^' :: '^' :: t) = none := rfl
      simp only [literal, hq, hl, hd, Except.map]
    · simp only [literal, hq, hl]

/-- A literal takes at least its quotes. -/
theorem consumes_literal (ps : Prefixes) : (literal ps).Consumes := by
  intro s l rest hs
  obtain ⟨lexical, r, hq, hrest⟩ := literal_eq_ok_iff.1 hs
  have hquoted : ProperEnd r s := properEnd_of_quoted? hq
  obtain ⟨language, hl, -⟩ | ⟨t, iri, rfl, hd, -⟩ | ⟨-, -, rfl, -⟩ := hrest
  · exact (properEnd_of_language? hl).suffix hquoted.1
  · have hcarets : t <:+ '^' :: '^' :: t := (List.suffix_cons _ _).trans (List.suffix_cons _ _)
    exact (consumes_datatype ps t iri rest hd).suffix (hcarets.trans hquoted.1)
  · exact hquoted

/-! ## Terms -/

/-- The shapes of a term in the order in which they are tried. -/
def termShapes (ps : Prefixes) : List (Shape Term) :=
  [(Shape.lexeme variableName?).map fun name => .var (Variable.ofText name),
    (Shape.lexeme iri?).map .iri,
    (Shape.lexeme blankLabel?).map Term.blankOfText,
    (literal ps).map .literal,
    (Shape.lexeme number?).map .literal,
    (resolvedName ps).map .iri,
    (Shape.lexeme name?).map .iri]

/-- A variable, an IRI, a blank node, a literal, a number, a prefixed name, or a bare name,
which is read as an IRI. -/
def term (ps : Prefixes) : Shape Term :=
  Shape.firstOf (termShapes ps)

/-- A term takes at least one character. -/
theorem consumes_term (ps : Prefixes) : (term ps).Consumes := by
  refine Shape.consumes_firstOf fun shape hm => ?_
  simp only [termShapes, List.mem_cons, List.not_mem_nil, or_false] at hm
  rcases hm with rfl | rfl | rfl | rfl | rfl | rfl | rfl
  · exact (Shape.consumes_lexeme fun s a rest => properEnd_of_variableName?).map _
  · exact (Shape.consumes_lexeme fun s a rest => properEnd_of_iri?).map _
  · exact (Shape.consumes_lexeme fun s a rest => properEnd_of_blankLabel?).map _
  · exact (consumes_literal ps).map _
  · exact (Shape.consumes_lexeme fun s a rest => properEnd_of_number?).map _
  · exact (consumes_resolvedName ps).map _
  · exact (Shape.consumes_lexeme fun s a rest => properEnd_of_name?).map _

end RuleFlow.Reader
