import RuleFlow.Clause.Render
import RuleFlow.Proofs.Reader.Legible

/-!
# Written clauses read back

What is legible reads back from its written form: terms before a space or a closing
parenthesis (`term_render`), clauses before anything (`clause_render`), and whole texts that are
a rule (`document_render`) or a list of clauses (`clauseList_render`). None of this depends on
the declared prefixes, as written forms use none.

A list of clauses stands in its text with different spacing in the body of a rule, in its head
and on its own. `Written` says what these have in common.
-/

namespace RuleFlow.Reader

/-! ## Runs of characters -/

/-- The text does not begin with a character of the class. -/
def Stops (p : Char → Bool) (rest : List Char) : Prop := ∀ c ∈ rest.head?, p c = false

lemma stops_cons {p : Char → Bool} {c : Char} (h : p c = false) (s : List Char) :
    Stops p (c :: s) := by
  intro d hd
  rwa [← Option.mem_some_iff.1 hd]

/-- Characters of a class are taken as far as they go. -/
lemma takeWhile_append {p : Char → Bool} {l rest : List Char} (hl : ∀ c ∈ l, p c = true)
    (hrest : Stops p rest) : (l ++ rest).takeWhile p = l := by
  rw [List.takeWhile_append_of_pos hl]
  cases rest with
  | nil => simp
  | cons c s =>
    have hc : ¬p c = true := by simp [hrest c rfl]
    rw [List.takeWhile_cons_of_neg hc, List.append_nil]

lemma dropWhile_append {p : Char → Bool} {l rest : List Char} (hl : ∀ c ∈ l, p c = true)
    (hrest : Stops p rest) : (l ++ rest).dropWhile p = rest := by
  rw [List.dropWhile_append_of_pos hl]
  cases rest with
  | nil => rfl
  | cons c s =>
    have hc : ¬p c = true := by simp [hrest c rfl]
    exact List.dropWhile_cons_of_neg hc

/-- A run is read as far as it goes. -/
lemma run?_append {p : Char → Bool} {text : String} {rest : List Char} (h : IsRun p text)
    (hrest : Stops p rest) : run? p (text.toList ++ rest) = some (text, rest) := by
  have hne : text.toList.isEmpty = false := by simpa using h.1
  simp only [run?, takeWhile_append h.2 hrest, dropWhile_append h.2 hrest, hne,
    String.ofList_toList, Bool.false_eq_true, if_false]

/-- A name begins with a character that names begin with. -/
lemma IsName.exists_cons {text : String} (h : IsName text) :
    ∃ c s, text.toList = c :: s ∧ isNameStart c = true := by
  obtain ⟨⟨c, hc, hstart⟩, -⟩ := h
  cases hlist : text.toList with
  | nil => rw [hlist] at hc; simp at hc
  | cons d s =>
    rw [hlist] at hc
    exact ⟨d, s, rfl, Option.mem_some_iff.1 hc ▸ hstart⟩

lemma name?_append {text : String} {rest : List Char} (h : IsName text)
    (hrest : Stops isNameChar rest) : name? (text.toList ++ rest) = some (text, rest) := by
  have hread := run?_append h.2 hrest
  obtain ⟨c, s, hs, hstart⟩ := h.exists_cons
  rw [hs] at hread ⊢
  show (if isNameStart c then run? isNameChar (c :: s ++ rest) else none) = _
  rw [if_pos hstart, hread]

/-- An IRI is read up to its closing bracket. -/
lemma iri?_append {iri : String} (h : IsIri iri) (rest : List Char) :
    iri? ('<' :: (iri.toList ++ '>' :: rest)) = some (iri, rest) := by
  have hstop : Stops isIriChar ('>' :: rest) := stops_cons (by decide) rest
  simp only [iri?, takeWhile_append h hstop, dropWhile_append h hstop, String.ofList_toList]

/-! ## Terms -/

/-- The text begins with a space or a closing parenthesis, which end every term. -/
def AfterTerm (rest : List Char) : Prop := ∃ c s, rest = c :: s ∧ (c = ' ' ∨ c = ')')

lemma afterTerm_space (s : List Char) : AfterTerm (' ' :: s) := ⟨' ', s, rfl, .inl rfl⟩

lemma afterTerm_close (s : List Char) : AfterTerm (')' :: s) := ⟨')', s, rfl, .inr rfl⟩

/-- Behind a term no class goes on that has neither the space nor the parenthesis. -/
lemma AfterTerm.stops {rest : List Char} (h : AfterTerm rest) {p : Char → Bool}
    (hspace : p ' ' = false) (hclose : p ')' = false) : Stops p rest := by
  obtain ⟨c, s, rfl, rfl | rfl⟩ := h
  · exact stops_cons hspace s
  · exact stops_cons hclose s

/-! ## Literals -/

/-- A backslash and the character behind it are read as one character. -/
lemma quotedBody?_escape {c d : Char} {s rest cs : List Char} (hd : unescape? c = some d)
    (hs : quotedBody? s = some (cs, rest)) : quotedBody? ('\\' :: c :: s) = some (d :: cs, rest) := by
  simp [quotedBody?, hd, hs]

/-- Reading takes back one character as it is written between quotes. -/
lemma quotedBody?_escapeChar (c : Char) {s rest cs : List Char}
    (hs : quotedBody? s = some (cs, rest)) :
    quotedBody? (Literal.escapeChar c ++ s) = some (c :: cs, rest) := by
  unfold Literal.escapeChar
  split
  · next h =>
    subst h
    exact quotedBody?_escape rfl hs
  split
  · next h =>
    subst h
    exact quotedBody?_escape rfl hs
  split
  · next h =>
    subst h
    exact quotedBody?_escape rfl hs
  split
  · next h =>
    subst h
    exact quotedBody?_escape rfl hs
  split
  · next h =>
    subst h
    exact quotedBody?_escape rfl hs
  · next hquote hslash _ _ _ =>
    show quotedBody? (c :: s) = _
    rw [quotedBody?]
    · rw [if_neg hslash, hs]
    · exact hquote
    · exact fun d t hc => absurd hc hslash

/-- Escaped characters are read back up to the quote. -/
lemma quotedBody?_escaped (cs rest : List Char) :
    quotedBody? (cs.flatMap Literal.escapeChar ++ '"' :: rest) = some (cs, rest) := by
  induction cs with
  | nil => rfl
  | cons c cs ih =>
    rw [List.flatMap_cons, List.append_assoc]
    exact quotedBody?_escapeChar c ih

/-- A quoted text is read back. -/
lemma quoted?_quote (lexical : String) (rest : List Char) :
    quoted? ((Literal.quote lexical).toList ++ rest) = some (lexical, rest) := by
  have htext : (Literal.quote lexical).toList ++ rest =
      '"' :: (lexical.toList.flatMap Literal.escapeChar ++ '"' :: rest) := by
    simp [Literal.quote, String.toList_append]
  rw [htext]
  show (quotedBody? _).map _ = _
  rw [quotedBody?_escaped]
  show some (String.ofList lexical.toList, rest) = _
  rw [String.ofList_toList]

/-- A written literal is read back. -/
theorem literal_render (ps : Prefixes) {l : Literal} (hl : l.Legible) {rest : List Char}
    (hrest : AfterTerm rest) : literal ps (l.render.toList ++ rest) = .ok (l, rest) := by
  obtain ⟨lexical, kind⟩ := l
  cases kind with
  | plain =>
    -- neither a tag nor a datatype begins with what follows a term
    obtain ⟨c, s, rfl, hc⟩ := hrest
    have hread := quoted?_quote lexical (c :: s)
    rcases hc with rfl | rfl
    · rw [Literal.render, literal, hread]
      rfl
    · rw [Literal.render, literal, hread]
      rfl
  | tagged language =>
    have htext : (Literal.render ⟨lexical, .tagged language⟩).toList ++ rest =
        (Literal.quote lexical).toList ++ '@' :: (language.toList ++ rest) := by
      simp [Literal.render, String.toList_append]
    have htag : language? ('@' :: (language.toList ++ rest)) = some (language, rest) :=
      run?_append hl.1 (hrest.stops (isTagChar_eq_false (by decide))
        (isTagChar_eq_false (by decide)))
    have hsmall : Text.lowerAscii language = language := hl.2
    rw [htext]
    simp only [literal, quoted?_quote, htag, Literal.tagged, hsmall]
  | typed datatypeIri =>
    have htext : (Literal.render ⟨lexical, .typed datatypeIri⟩).toList ++ rest =
        (Literal.quote lexical).toList ++
          '^' :: '^' :: '<' :: (datatypeIri.toList ++ '>' :: rest) := by
      simp [Literal.render, String.toList_append]
    have hread : datatype ps ('<' :: (datatypeIri.toList ++ '>' :: rest)) =
        .ok (datatypeIri, rest) := by
      simp only [datatype, Shape.firstOf, Shape.lexeme, iri?_append hl]
    rw [htext]
    simp only [literal, quoted?_quote, language?, hread]
    rfl

/-! ## All terms -/

lemma Shape.firstOf_skip {α : Type} {shape : Shape α} {shapes : List (Shape α)}
    {s rest : List Char} (h : shape s = .error (.mismatch rest)) :
    firstOf (shape :: shapes) s = firstOf shapes s := by
  rw [firstOf, h]

/-- None of the shapes fits the text. -/
def Misfit {α : Type} (shapes : List (Shape α)) (s : List Char) : Prop :=
  ∀ shape ∈ shapes, ∃ rest, shape s = .error (.mismatch rest)

/-- Shapes that do not fit leave the choice to those behind them. -/
lemma Shape.firstOf_misfit {α : Type} {before : List (Shape α)} {s : List Char}
    (h : Misfit before s) (after : List (Shape α)) :
    firstOf (before ++ after) s = firstOf after s := by
  induction before with
  | nil => rfl
  | cons shape before ih =>
    obtain ⟨⟨rest, hshape⟩, hbefore⟩ := List.forall_mem_cons.1 h
    rw [List.cons_append, firstOf_skip hshape, ih hbefore]

lemma Shape.firstOf_take {α : Type} {shape : Shape α} {shapes : List (Shape α)} {s : List Char}
    {result : α × List Char} (h : shape s = .ok result) :
    firstOf (shape :: shapes) s = .ok result := by
  rw [firstOf, h]

lemma Shape.map_ok {α β : Type} {shape : Shape α} {s rest : List Char} {a : α}
    (h : shape s = .ok (a, rest)) (f : α → β) : shape.map f s = .ok (f a, rest) := by
  rw [Shape.map, h]
  rfl

/-- What the first fitting shape reads, one of the shapes reads. -/
lemma Shape.exists_of_firstOf {α : Type} {shapes : List (Shape α)} {s : List Char}
    {result : α × List Char} (h : firstOf shapes s = .ok result) :
    ∃ shape ∈ shapes, shape s = .ok result := by
  induction shapes with
  | nil => exact nomatch h
  | cons shape shapes ih =>
    unfold firstOf at h
    split at h
    · obtain ⟨shape', hm, hread⟩ := ih h
      exact ⟨shape', List.mem_cons_of_mem _ hm, hread⟩
    · exact ⟨shape, List.mem_cons_self, h⟩

lemma Shape.exists_of_map {α β : Type} {shape : Shape α} {f : α → β} {s rest : List Char} {b : β}
    (h : shape.map f s = .ok (b, rest)) : ∃ a, b = f a ∧ shape s = .ok (a, rest) := by
  unfold Shape.map at h
  cases hr : shape s with
  | error stop =>
    rw [hr] at h
    exact nomatch h
  | ok result =>
    rw [hr] at h
    obtain ⟨rfl, rfl⟩ := Prod.mk.inj (Except.ok.inj h)
    exact ⟨result.1, rfl, rfl⟩

lemma Shape.lexeme_some {α : Type} {read? : List Char → Option (α × List Char)} {s : List Char}
    {result : α × List Char} (h : read? s = some result) : lexeme read? s = .ok result := by
  rw [lexeme, h]

/-- A term reads back from its written form. -/
theorem term_render (ps : Prefixes) {t : Term} (ht : t.Legible) {rest : List Char}
    (hrest : AfterTerm rest) : term ps (t.render.toList ++ rest) = .ok (t, rest) := by
  -- the first character of a written form rules the shapes before the right one out
  cases t with
  | var v =>
    have htext : (Term.var v).render.toList ++ rest = '?' :: (v.name.toList ++ rest) := by
      simp [Term.render, Variable.render, String.toList_append]
    have hread : variableName? ('?' :: (v.name.toList ++ rest)) = some (v.name, rest) :=
      run?_append ht (hrest.stops (isPlainChar_eq_false (by decide))
        (isPlainChar_eq_false (by decide)))
    have hvar : Variable.ofText v.name = v := ofText_of_isRun ht
    rw [htext, term, termShapes, Shape.firstOf_take (Shape.map_ok (Shape.lexeme_some hread) _),
      hvar]
  | iri name =>
    have htext : (Term.iri name).render.toList ++ rest =
        '<' :: (name.toList ++ '>' :: rest) := by
      simp [Term.render, String.toList_append]
    rw [htext, term, termShapes, Shape.firstOf_skip (by rfl)]
    exact Shape.firstOf_take (Shape.map_ok (Shape.lexeme_some (iri?_append ht rest)) _)
  | literal l =>
    have hread := literal_render ps ht hrest
    obtain ⟨s, hs⟩ : ∃ s, l.render.toList ++ rest = '"' :: s := by
      cases hk : l.kind <;>
        exact ⟨_, by simp [Literal.render, hk, Literal.quote, String.toList_append]; rfl⟩
    have htext : (Term.literal l).render.toList ++ rest = '"' :: s := hs
    rw [hs] at hread
    rw [htext, term, termShapes, Shape.firstOf_skip (by rfl), Shape.firstOf_skip (by rfl),
      Shape.firstOf_skip (by rfl)]
    exact Shape.firstOf_take (Shape.map_ok hread _)
  | blank label =>
    have htext : (Term.blank label).render.toList ++ rest =
        '_' :: ':' :: (label.toList ++ rest) := by
      simp [Term.render, String.toList_append]
    have hread : blankLabel? ('_' :: ':' :: (label.toList ++ rest)) = some (label, rest) :=
      run?_append ht (hrest.stops (isLocalChar_eq_false (by decide))
        (isLocalChar_eq_false (by decide)))
    rw [htext, term, termShapes, Shape.firstOf_skip (by rfl), Shape.firstOf_skip (by rfl),
      Shape.firstOf_take (Shape.map_ok (Shape.lexeme_some hread) _), blankOfText_of_isRun ht]

/-! ## Space before a clause -/

/-- The text begins with something that is neither space nor comment nor comma. -/
def Solid (s : List Char) : Prop :=
  ∃ c t, s = c :: t ∧ Text.isSpacing c = false ∧ c ≠ '#' ∧ c ≠ '/' ∧ c ≠ ','

lemma solid_of_ne {c : Char} (h : ∀ d ∈ [' ', '\t', '\r', '\n', '#', '/', ','], c ≠ d)
    (s : List Char) : Solid (c :: s) := by
  simp only [List.mem_cons, List.not_mem_nil, or_false, forall_eq_or_imp, forall_eq] at h
  obtain ⟨hspace, htab, hreturn, hbreak, hsharp, hslash, hcomma⟩ := h
  exact ⟨c, s, rfl, by simp [Text.isSpacing, hspace, htab, hreturn, hbreak], hsharp, hslash,
    hcomma⟩

lemma solid_of_isPlainChar {c : Char} (h : isPlainChar c = true) (s : List Char) :
    Solid (c :: s) := by
  have hmarks : ∀ d ∈ [' ', '\t', '\r', '\n', '#', '/', ','],
      d.toNat < 128 ∧ (d.isAlphanum || d = '_') = false := by
    simp only [List.forall_mem_cons, List.not_mem_nil, false_imp_iff, implies_true]
    decide
  refine solid_of_ne ?_ s
  rintro d hd rfl
  exact absurd h (ne_true_of_eq_false (isPlainChar_eq_false (hmarks c hd)))

lemma Solid.append {s : List Char} (h : Solid s) (rest : List Char) : Solid (s ++ rest) := by
  obtain ⟨c, t, rfl, hc⟩ := h
  exact ⟨c, t ++ rest, rfl, hc⟩

/-- Nothing is skipped before something solid. -/
lemma skip_of_solid {s : List Char} (h : Solid s) : skip s = s := by
  obtain ⟨c, t, rfl, hspace, hsharp, hslash, -⟩ := h
  rw [skip]
  · rw [hspace]
    rfl
  · exact hsharp
  · exact fun u hc => absurd hc hslash

lemma skip_space (s : List Char) : skip (' ' :: s) = skip s := by
  rw [skip]
  · rfl
  · simp
  · simp

lemma skipSeparators_of_solid {s : List Char} (h : Solid s) : skipSeparators s = s := by
  obtain ⟨c, t, rfl, hspace, -, -, hcomma⟩ := h
  exact List.dropWhile_cons_of_neg (by simp [hspace, hcomma])

lemma skipSeparators_space (s : List Char) : skipSeparators (' ' :: s) = skipSeparators s :=
  List.dropWhile_cons_of_pos (by decide)

lemma Literal.solid_render (l : Literal) : Solid l.render.toList := by
  cases hk : l.kind <;>
    exact ⟨'"', _, by simp [Literal.render, hk, Literal.quote, String.toList_append]; rfl,
      by decide⟩

/-- A written term is solid. -/
lemma solid_term_render (t : Term) : Solid t.render.toList := by
  cases t with
  | var v => exact ⟨'?', v.name.toList, by simp [Term.render, Variable.render], by decide⟩
  | iri name => exact ⟨'<', name.toList ++ ['>'], by simp [Term.render], by decide⟩
  | literal l => exact Literal.solid_render l
  | blank label => exact ⟨'_', ':' :: label.toList, by simp [Term.render], by decide⟩

/-! ## Patterns and functors -/

/-- A written pattern is read back. -/
theorem pattern_render (ps : Prefixes) {p : Pattern} (hp : p.Legible) (rest : List Char) :
    pattern ps (p.render.toList ++ rest) = .ok (p, rest) := by
  obtain ⟨subject, predicate, object⟩ := p
  have htext : (Pattern.render ⟨subject, predicate, object⟩).toList ++ rest =
      '(' :: (subject.render.toList ++ ' ' :: (predicate.render.toList ++ ' ' ::
        (object.render.toList ++ ')' :: rest))) := by
    simp [Pattern.render, String.toList_append]
  have hterm : ∀ t ∈ [subject, predicate, object], ∀ {s}, AfterTerm s →
      term ps (t.render.toList ++ s) = .ok (t, s) :=
    fun t ht _ hs => term_render ps (hp t ht) hs
  have hclose : skip (')' :: rest) = ')' :: rest := skip_of_solid ⟨')', rest, rfl, by decide⟩
  rw [htext]
  simp only [pattern, bind, Except.bind, skip_of_solid ((solid_term_render subject).append _),
    hterm subject (by simp) (afterTerm_space _), skipSeparators_space,
    skipSeparators_of_solid ((solid_term_render predicate).append _),
    hterm predicate (by simp) (afterTerm_space _),
    skipSeparators_of_solid ((solid_term_render object).append _),
    hterm object (by simp) (afterTerm_close _), hclose]

lemma quoted?_mismatch {s : List Char} (h : ∀ u, s ≠ '"' :: u) : quoted? s = none := by
  unfold quoted?
  split
  · next u => exact absurd rfl (h u)
  · rfl

/-- Where no quote stands there is no literal. -/
lemma literal_mismatch (ps : Prefixes) {s : List Char} (h : ∀ u, s ≠ '"' :: u) :
    literal ps s = .error (.mismatch s) := by
  rw [literal, quoted?_mismatch h]

/-- No shape before that of a prefixed name begins with other characters than these. -/
lemma misfit_before_prefixed (ps : Prefixes) {c : Char} {s : List Char}
    (hc : c ∉ ['?', '<', '"', '+', '-']) (hdigit : c.isDigit = false)
    (hblank : blankLabel? (c :: s) = none) : Misfit ((termShapes ps).take 5) (c :: s) := by
  simp only [List.mem_cons, List.not_mem_nil, or_false, not_or] at hc
  obtain ⟨hvariable, hiri, hquote, hplus, hminus⟩ := hc
  have hv : variableName? (c :: s) = none := by simp [variableName?, hvariable]
  have hi : iri? (c :: s) = none := by simp [iri?, hiri]
  have hl : literal ps (c :: s) = .error (.mismatch (c :: s)) :=
    literal_mismatch ps fun u hu => hquote (List.cons.inj hu).1
  have hn : number? (c :: s) = none := by simp [number?, splitSign, hplus, hminus, run?, hdigit]
  intro shape hm
  simp only [termShapes, List.take_succ_cons, List.take_zero, List.mem_cons, List.not_mem_nil,
    or_false] at hm
  refine ⟨c :: s, ?_⟩
  rcases hm with rfl | rfl | rfl | rfl | rfl
  · rw [Shape.map, Shape.lexeme, hv]
    rfl
  · rw [Shape.map, Shape.lexeme, hi]
    rfl
  · rw [Shape.map, Shape.lexeme, hblank]
    rfl
  · rw [Shape.map, hl]
    rfl
  · rw [Shape.map, Shape.lexeme, hn]
    rfl

/-- A character that begins no term. -/
def EndsTerms (c : Char) : Prop :=
  c ∉ ['?', '<', '"', '+', '-', '_', ':'] ∧ c.isDigit = false ∧ isPlainChar c = false ∧
    isNameStart c = false

/-- An ASCII character outside letters, digits and a few signs begins no term. -/
lemma endsTerms_of_ascii {c : Char} (h : c ∉ ['?', '<', '"', '+', '-', '_', ':'] ∧ c.toNat < 128 ∧
    c.isAlphanum = false) : EndsTerms c := by
  obtain ⟨hmem, hascii, hword⟩ := h
  have hmark : c ≠ '_' := fun hc => hmem (by simp [hc])
  have hsplit : c.isAlpha = false ∧ c.isDigit = false := by simpa [Char.isAlphanum] using hword
  obtain ⟨hletter, hdigit⟩ := hsplit
  exact ⟨hmem, hdigit, isPlainChar_eq_false ⟨hascii, by simp [hword, hmark]⟩,
    isNameStart_eq_false ⟨hascii, by simp [hletter, hmark]⟩⟩

/-- No term is read where none begins. -/
lemma term_mismatch (ps : Prefixes) {c : Char} (hc : EndsTerms c) (s : List Char) :
    term ps (c :: s) = .error (.mismatch (c :: s)) := by
  obtain ⟨hmem, hdigit, hplain, hstart⟩ := hc
  have hfirst : c ∉ ['?', '<', '"', '+', '-'] := fun h =>
    hmem (List.mem_append_left ['_', ':'] h)
  have hblank : blankLabel? (c :: s) = none := by
    have hc : c ≠ '_' := fun h => hmem (by simp [h])
    simp [blankLabel?, hc]
  have hresolved : resolvedName ps (c :: s) = .error (.mismatch (c :: s)) := by
    have hc : c ≠ ':' := fun h => hmem (by simp [h])
    simp [resolvedName, prefixedName?, hplain, hc]
  have hname : name? (c :: s) = none := by simp [name?, hstart]
  refine (Shape.firstOf_misfit (misfit_before_prefixed ps hfirst hdigit hblank) _).trans ?_
  rw [Shape.firstOf_skip (by rw [Shape.map, hresolved]; rfl),
    Shape.firstOf_skip (by rw [Shape.map, Shape.lexeme, hname]; rfl)]
  rfl

lemma term_close (ps : Prefixes) (rest : List Char) :
    term ps (')' :: rest) = .error (.mismatch (')' :: rest)) :=
  term_mismatch ps (endsTerms_of_ascii (by decide)) rest

/-- Arguments end where no term is read. -/
lemma arguments_of_mismatch {ps : Prefixes} {s rest : List Char}
    (h : term ps s = .error (.mismatch rest)) : arguments ps s = .ok ([], s) := by
  rw [arguments_eq, h]

lemma arguments_of_ok {ps : Prefixes} {s r rest : List Char} {t : Term} {ts : List Term}
    (h : term ps s = .ok (t, r)) (hrest : arguments ps (skipSeparators r) = .ok (ts, rest)) :
    arguments ps s = .ok (t :: ts, rest) := by
  rw [arguments_eq, h]
  show (arguments ps (skipSeparators r)).map _ = _
  rw [hrest]
  rfl

/-- Terms with spaces between them, behind which a parenthesis closes. -/
lemma arguments_render (ps : Prefixes) {ts : List Term} (hts : ∀ t ∈ ts, t.Legible)
    (rest : List Char) :
    arguments ps (skipSeparators
      ((Text.joinWith " " (ts.map Term.render)).toList ++ ')' :: rest)) =
      .ok (ts, ')' :: rest) := by
  have hclose : skipSeparators (')' :: rest) = ')' :: rest :=
    skipSeparators_of_solid ⟨')', rest, rfl, by decide⟩
  induction ts with
  | nil =>
    show arguments ps (skipSeparators (')' :: rest)) = _
    rw [hclose]
    exact arguments_of_mismatch (term_close ps rest)
  | cons t ts ih =>
    obtain ⟨ht, hts⟩ := List.forall_mem_cons.1 hts
    have ih := ih hts
    -- behind the last term stands the parenthesis, behind the others a space
    cases ts with
    | nil =>
      show arguments ps (skipSeparators (t.render.toList ++ ')' :: rest)) = _
      rw [skipSeparators_of_solid ((solid_term_render t).append _)]
      exact arguments_of_ok (term_render ps ht (afterTerm_close rest)) ih
    | cons u us =>
      have htext : (Text.joinWith " " ((t :: u :: us).map Term.render)).toList ++ ')' :: rest =
          t.render.toList ++ ' ' ::
            ((Text.joinWith " " ((u :: us).map Term.render)).toList ++ ')' :: rest) := by
        simp [Text.joinWith_cons_cons, String.toList_append]
      rw [htext, skipSeparators_of_solid ((solid_term_render t).append _)]
      apply arguments_of_ok (term_render ps ht (afterTerm_space _))
      rw [skipSeparators_space]
      exact ih

lemma functor_text (f : Functor) (rest : List Char) :
    f.render.toList ++ rest = f.name.toList ++ '(' ::
      ((Text.joinWith " " (f.args.map Term.render)).toList ++ ')' :: rest) := by
  simp [Functor.render, String.toList_append]

lemma stops_paren (s : List Char) : Stops isNameChar ('(' :: s) :=
  stops_cons (isNameChar_eq_false (by decide)) s

/-- A written functor is read back. -/
theorem functor_render (ps : Prefixes) {f : Functor} (hf : f.Legible) (rest : List Char) :
    functor ps (f.render.toList ++ rest) = .ok (f, rest) := by
  rw [functor_text]
  simp only [functor, name?_append hf.1 (stops_paren _), arguments_render ps hf.2, bind,
    Except.bind]

/-! ## Lists of clauses in a text -/

/-- The clauses stand at the front of the text with space before each, and behind them and more
space stands `stop`. -/
inductive Written : List Clause → List Char → List Char → Prop
  | nil {s stop : List Char} (h : skip s = stop) : Written [] s stop
  | cons {c : Clause} {cs : List Clause} {s t stop : List Char}
      (h : skip s = c.render.toList ++ t) (ht : Written cs t stop) : Written (c :: cs) s stop

/-- One more space before the clauses does not matter. -/
lemma Written.space {cs : List Clause} {s stop : List Char} (h : Written cs s stop) :
    Written cs (' ' :: s) stop := by
  cases h with
  | nil h => exact .nil ((skip_space s).trans h)
  | cons h ht => exact .cons ((skip_space s).trans h) ht

/-- Clauses that read back one by one read back as a list when no clause begins behind them. -/
lemma clauses_of_written {ps : Prefixes} {cs : List Clause} {s stop r : List Char}
    (h : Written cs s stop)
    (hcs : ∀ c ∈ cs, ∀ rest, clause ps (c.render.toList ++ rest) = .ok (c, rest))
    (hstop : clause ps stop = .error (.mismatch r)) :
    ∃ s₁, clauses ps s = .ok (cs, s₁) ∧ skip s₁ = stop := by
  induction h with
  | @nil s stop h =>
    refine ⟨s, ?_, h⟩
    rw [clauses_eq, h, hstop]
  | @cons c cs s t stop h _ ih =>
    obtain ⟨hc, hcs⟩ := List.forall_mem_cons.1 hcs
    -- the first clause is read, and the others from where it ends
    obtain ⟨s₁, hread, hskip⟩ := ih hcs hstop
    refine ⟨s₁, ?_, hskip⟩
    rw [clauses_eq, h, hc t]
    show (clauses ps t).map _ = _
    rw [hread]
    rfl

lemma pattern_mismatch (ps : Prefixes) {s : List Char} (h : ∀ t, s ≠ '(' :: t) :
    pattern ps s = .error (.mismatch s) := by
  unfold pattern
  split
  · next t => exact absurd rfl (h t)
  · rfl

/-- No clause begins with a character that is neither an opening bracket nor a letter. -/
lemma clause_mismatch (ps : Prefixes) {s : List Char} (hparen : ∀ t, s ≠ '(' :: t)
    (hbracket : ∀ t, s ≠ '[' :: t) (hname : name? s = none) :
    clause ps s = .error (.mismatch s) := by
  have hfunctor : functor ps s = .error (.mismatch s) := by
    simp only [functor, hname]
  rw [clause_eq, Shape.firstOf_skip (by rw [Shape.map, pattern_mismatch ps hparen]; rfl),
    Shape.firstOf_skip (by rw [Shape.map, rule_mismatch ps hbracket]; rfl),
    Shape.firstOf_skip (by rw [Shape.map, hfunctor]; rfl)]
  rfl

lemma name?_head {s rest : List Char} {name : String} (h : name? s = some (name, rest)) :
    ∃ c t, s = c :: t ∧ isNameStart c = true := by
  unfold name? at h
  split at h
  · next c t =>
    split at h
    · next hc => exact ⟨c, t, rfl, hc⟩
    · exact nomatch h
  · exact nomatch h

/-- The shapes of a clause begin with different characters, so what one of them reads is what
is read as a clause. -/
theorem clause_eq_ok_iff {ps : Prefixes} {s rest : List Char} {c : Clause} :
    clause ps s = .ok (c, rest) ↔ (∃ p, c = .pattern p ∧ pattern ps s = .ok (p, rest)) ∨
      (∃ r, c = r.toClause ∧ rule ps s = .ok (r, rest)) ∨
      ∃ f, c = .functor f ∧ functor ps s = .ok (f, rest) := by
  rw [clause_eq]
  constructor
  · intro h
    obtain ⟨shape, hm, h⟩ := Shape.exists_of_firstOf h
    simp only [List.mem_cons, List.not_mem_nil, or_false] at hm
    rcases hm with rfl | rfl | rfl
    · obtain ⟨p, hp, h⟩ := Shape.exists_of_map h
      exact .inl ⟨p, hp, h⟩
    · obtain ⟨r, hr, h⟩ := Shape.exists_of_map h
      exact .inr (.inl ⟨r, hr, h⟩)
    · obtain ⟨f, hf, h⟩ := Shape.exists_of_map h
      exact .inr (.inr ⟨f, hf, h⟩)
  · rintro (⟨p, rfl, hp⟩ | ⟨r, rfl, hr⟩ | ⟨f, rfl, hf⟩)
    · exact Shape.firstOf_take (Shape.map_ok hp _)
    · obtain ⟨s₀, -, -, -, rfl, -⟩ := rule_eq_ok_iff.1 hr
      rw [Shape.firstOf_skip (by rfl)]
      exact Shape.firstOf_take (Shape.map_ok hr _)
    · obtain ⟨_, hn, -⟩ := functor_eq_ok_iff.1 hf
      obtain ⟨d, t, rfl, hd⟩ := name?_head hn
      have hparen : ∀ u, d :: t ≠ '(' :: u := by
        rintro u h
        exact absurd ((List.cons.inj h).1 ▸ hd)
          (ne_true_of_eq_false (isNameStart_eq_false (by decide)))
      have hbracket : ∀ u, d :: t ≠ '[' :: u := by
        rintro u h
        exact absurd ((List.cons.inj h).1 ▸ hd)
          (ne_true_of_eq_false (isNameStart_eq_false (by decide)))
      rw [Shape.firstOf_skip (by rw [Shape.map, pattern_mismatch ps hparen]; rfl),
        Shape.firstOf_skip (by rw [Shape.map, rule_mismatch ps hbracket]; rfl)]
      exact Shape.firstOf_take (Shape.map_ok hf _)

lemma name?_eq_none {c : Char} (h : isNameStart c = false) (s : List Char) :
    name? (c :: s) = none := by
  simp [name?, h]

/-- No clause is read at the arrow of a rule. -/
lemma clause_arrow (ps : Prefixes) (s : List Char) :
    clause ps ('-' :: s) = .error (.mismatch ('-' :: s)) :=
  clause_mismatch ps nofun nofun (name?_eq_none (isNameStart_eq_false (by decide)) s)

lemma clause_close (ps : Prefixes) (s : List Char) :
    clause ps (']' :: s) = .error (.mismatch (']' :: s)) :=
  clause_mismatch ps nofun nofun (name?_eq_none (isNameStart_eq_false (by decide)) s)

lemma clause_nil (ps : Prefixes) : clause ps [] = .error (.mismatch []) :=
  clause_mismatch ps nofun nofun rfl

/-! ## Rules -/

lemma pattern_head (p : Pattern) : ∃ s, p.render.toList = '(' :: s :=
  ⟨_, by simp [Pattern.render, String.toList_append]; rfl⟩

lemma frame_head (name : Option String) (body head : List String) :
    ∃ s, (Rule.frame name body head).toList = '[' :: s :=
  ⟨_, by simp [Rule.frame, String.toList_append]; rfl⟩

lemma solid_name {name : String} (h : IsName name) : Solid name.toList := by
  obtain ⟨c, s, hs, hstart⟩ := h.exists_cons
  rw [hs]
  exact solid_of_isPlainChar (isPlainChar_of_isNameStart hstart) s

lemma solid_clause_render {c : Clause} (h : c.Legible) : Solid c.render.toList := by
  cases h with
  | @pattern p h =>
    obtain ⟨s, hs⟩ := pattern_head p
    exact ⟨'(', s, hs, by decide⟩
  | @functor f h =>
    have htext := functor_text f []
    rw [List.append_nil] at htext
    show Solid f.render.toList
    rw [htext]
    exact (solid_name h.1).append _
  | @nested name body head hn hb hh =>
    obtain ⟨s, hs⟩ := frame_head name (Clause.renderAll body) (Clause.renderAll head)
    exact ⟨'[', s, hs, by decide⟩

/-- The clauses of a body, with a space behind each. -/
lemma written_body {cs : List Clause} (hcs : ∀ c ∈ cs, c.Legible) {stop : List Char}
    (hstop : Solid stop) :
    Solid ((Text.concat ((cs.map Clause.render).map (· ++ " "))).toList ++ stop) ∧
    Written cs ((Text.concat ((cs.map Clause.render).map (· ++ " "))).toList ++ stop) stop := by
  induction cs with
  | nil => exact ⟨hstop, .nil (skip_of_solid hstop)⟩
  | cons c cs ih =>
    obtain ⟨hc, hcs⟩ := List.forall_mem_cons.1 hcs
    have htext : (Text.concat (((c :: cs).map Clause.render).map (· ++ " "))).toList ++ stop =
        c.render.toList ++
          ' ' :: ((Text.concat ((cs.map Clause.render).map (· ++ " "))).toList ++ stop) := by
      simp [String.toList_append]
    have hsolid := (solid_clause_render hc).append
      (' ' :: ((Text.concat ((cs.map Clause.render).map (· ++ " "))).toList ++ stop))
    rw [htext]
    exact ⟨hsolid, .cons (skip_of_solid hsolid) (ih hcs).2.space⟩

/-- The clauses of a head, with a space before each. -/
lemma written_head {cs : List Clause} (hcs : ∀ c ∈ cs, c.Legible) {stop : List Char}
    (hstop : Solid stop) :
    Written cs ((Text.concat ((cs.map Clause.render).map (" " ++ ·))).toList ++ ' ' :: stop)
      stop := by
  induction cs with
  | nil => exact .nil ((skip_space stop).trans (skip_of_solid hstop))
  | cons c cs ih =>
    obtain ⟨hc, hcs⟩ := List.forall_mem_cons.1 hcs
    have htext : (Text.concat (((c :: cs).map Clause.render).map (" " ++ ·))).toList ++
        ' ' :: stop =
        ' ' :: (c.render.toList ++
          ((Text.concat ((cs.map Clause.render).map (" " ++ ·))).toList ++ ' ' :: stop)) := by
      simp [String.toList_append]
    rw [htext]
    refine .cons ?_ (ih hcs)
    rw [skip_space, skip_of_solid ((solid_clause_render hc).append _)]

/-- A name with a colon behind it names the rule. -/
lemma ruleName_of_name {n : String} (hn : IsName n) {s : List Char} (hs : Solid s) :
    ruleName (n.toList ++ ' ' :: ':' :: ' ' :: s) = (some n, s) := by
  have hstop : Stops isNameChar (' ' :: ':' :: ' ' :: s) :=
    stops_cons (isNameChar_eq_false (by decide)) _
  have hcolon : skip (' ' :: ':' :: ' ' :: s) = ':' :: ' ' :: s :=
    (skip_space _).trans (skip_of_solid ⟨':', _, rfl, by decide⟩)
  have hspace : endsRuleName (' ' :: s) = true := rfl
  simp only [ruleName, name?_append hn hstop, hcolon, hspace, if_true, skip_space,
    skip_of_solid hs]

lemma ruleName_of_arrow (s : List Char) : ruleName ('-' :: s) = (none, '-' :: s) := by
  rw [ruleName, name?_eq_none (isNameStart_eq_false (by decide))]

/-- What a body without a name begins with is not taken for a name. -/
lemma ruleName_of_clause {c : Clause} (hc : c.Legible) (rest : List Char) :
    ruleName (c.render.toList ++ rest) = (none, c.render.toList ++ rest) := by
  cases hc with
  | @pattern p h =>
    obtain ⟨s, hs⟩ := pattern_head p
    have htext : (Clause.pattern p).render.toList = '(' :: s := hs
    rw [htext, List.cons_append, ruleName, name?_eq_none (isNameStart_eq_false (by decide))]
  | @functor f h =>
    -- the name of a functor is followed by a parenthesis, not by a colon
    have hskip : ∀ s, skip ('(' :: s) = '(' :: s := fun s => skip_of_solid ⟨'(', s, rfl, by decide⟩
    show ruleName (f.render.toList ++ rest) = (none, f.render.toList ++ rest)
    rw [functor_text]
    simp only [ruleName, name?_append h.1 (stops_paren _), hskip]
    rfl
  | @nested name body head hn hb hh =>
    obtain ⟨s, hs⟩ := frame_head name (Clause.renderAll body) (Clause.renderAll head)
    have htext : (Clause.nested name body head).render.toList = '[' :: s := hs
    rw [htext, List.cons_append, ruleName, name?_eq_none (isNameStart_eq_false (by decide))]

/-- A body without a name has none. -/
lemma ruleName_of_body {cs : List Clause} (hcs : ∀ c ∈ cs, c.Legible) (s : List Char) :
    ruleName ((Text.concat ((cs.map Clause.render).map (· ++ " "))).toList ++ '-' :: s) =
      (none, (Text.concat ((cs.map Clause.render).map (· ++ " "))).toList ++ '-' :: s) := by
  cases cs with
  | nil => exact ruleName_of_arrow s
  | cons c cs =>
    have htext : (Text.concat (((c :: cs).map Clause.render).map (· ++ " "))).toList ++ '-' :: s =
        c.render.toList ++
          ' ' :: ((Text.concat ((cs.map Clause.render).map (· ++ " "))).toList ++ '-' :: s) := by
      simp [String.toList_append]
    rw [htext]
    exact ruleName_of_clause (hcs c List.mem_cons_self) _

/-- A rule reads back when its clauses do. -/
lemma rule_frame {ps : Prefixes} {name : Option String} {body head : List Clause}
    (hr : (Clause.nested name body head).Legible)
    (hbody : ∀ c ∈ body, ∀ rest, clause ps (c.render.toList ++ rest) = .ok (c, rest))
    (hhead : ∀ c ∈ head, ∀ rest, clause ps (c.render.toList ++ rest) = .ok (c, rest))
    (rest : List Char) :
    rule ps ((Rule.frame name (body.map Clause.render) (head.map Clause.render)).toList ++ rest) =
      .ok (⟨name, body, head⟩, rest) := by
  cases hr with
  | nested hn hb hh =>
  let afterArrow := (Text.concat ((head.map Clause.render).map (" " ++ ·))).toList ++
    ' ' :: ']' :: rest
  let clausesText := (Text.concat ((body.map Clause.render).map (· ++ " "))).toList ++
    '-' :: '>' :: afterArrow
  obtain ⟨hsolid, hwritten⟩ := written_body hb
    (show Solid ('-' :: '>' :: afterArrow) from ⟨'-', _, rfl, by decide⟩)
  -- no clause begins with what ends the body, and none with what ends the head
  obtain ⟨s₁, hb₁, hs₁⟩ := clauses_of_written hwritten hbody (clause_arrow ps _)
  obtain ⟨s₃, hh₃, hs₃⟩ := clauses_of_written
    (written_head hh (show Solid (']' :: rest) from ⟨']', rest, rfl, by decide⟩)) hhead
    (clause_close ps rest)
  have hread : ∀ s₀, ruleName (skip s₀) = (name, clausesText) →
      rule ps ('[' :: s₀) = .ok (⟨name, body, head⟩, rest) := by
    intro s₀ hs₀
    rw [rule_eq, hs₀]
    simp only [bind, Except.bind, clausesText, hb₁, hs₁, arrow?, afterArrow, hh₃, hs₃]
  cases name with
  | none =>
    have htext : (Rule.frame none (body.map Clause.render) (head.map Clause.render)).toList ++
        rest = '[' :: ' ' :: clausesText := by
      simp [Rule.frame, String.toList_append, clausesText, afterArrow]
    rw [htext]
    apply hread _
    rw [skip_space, skip_of_solid hsolid]
    exact ruleName_of_body hb _
  | some n =>
    have htext : (Rule.frame (some n) (body.map Clause.render) (head.map Clause.render)).toList ++
        rest = '[' :: ' ' :: (n.toList ++ ' ' :: ':' :: ' ' :: clausesText) := by
      simp [Rule.frame, String.toList_append, clausesText, afterArrow]
    have hn : IsName n := hn n rfl
    rw [htext]
    apply hread _
    rw [skip_space, skip_of_solid ((solid_name hn).append _)]
    exact ruleName_of_name hn hsolid

/-- A clause reads back from its written form. -/
theorem clause_render (ps : Prefixes) {c : Clause} (hc : c.Legible) (rest : List Char) :
    clause ps (c.render.toList ++ rest) = .ok (c, rest) := by
  induction c generalizing rest with
  | pattern p =>
    cases hc with
    | pattern hp =>
    exact clause_eq_ok_iff.2 (.inl ⟨p, rfl, pattern_render ps hp rest⟩)
  | functor f =>
    cases hc with
    | functor hf =>
    exact clause_eq_ok_iff.2 (.inr (.inr ⟨f, rfl, functor_render ps hf rest⟩))
  | nested name body head ihb ihh =>
    have hlegible := hc
    cases hc with
    | nested hn hb hh =>
    have hread := rule_frame hlegible (fun c hc => ihb c hc (hb c hc))
      (fun c hc => ihh c hc (hh c hc)) rest
    have htext : (Clause.nested name body head).render =
        Rule.frame name (body.map Clause.render) (head.map Clause.render) := by
      rw [Clause.render, Clause.renderAll_eq_map, Clause.renderAll_eq_map]
    rw [htext]
    exact clause_eq_ok_iff.2 (.inr (.inl ⟨⟨name, body, head⟩, rfl, hread⟩))

/-! ## Whole texts -/

/-- A rule reads back from its written form. -/
theorem document_render (ps : Prefixes) {r : Rule} (hr : r.Legible) :
    document ps r.render = (ps, .ok [r]) := by
  obtain ⟨name, body, head⟩ := r
  obtain ⟨s, hs⟩ := frame_head name (body.map Clause.render) (head.map Clause.render)
  have htext : (Rule.render ⟨name, body, head⟩).toList = '[' :: s := hs
  have hread : rule ps ('[' :: s) = .ok (⟨name, body, head⟩, []) := by
    cases hr with
    | nested hn hb hh =>
    have hframe := rule_frame (.nested hn hb hh) (fun c hc => clause_render ps (hb c hc))
      (fun c hc => clause_render ps (hh c hc)) []
    rwa [hs, List.append_nil] at hframe
  have hskip : skip ('[' :: s) = '[' :: s := skip_of_solid ⟨'[', s, rfl, by decide⟩
  rw [document, htext, documentFrom_of_rule (hskip.symm ▸ hread), documentFrom_of_end rfl]
  rfl

/-- A rule is the only one in its written form. -/
theorem singleRule_render (ps : Prefixes) {r : Rule} (hr : r.Legible) :
    singleRule ps r.render = .ok r := by
  rw [singleRule, document_render ps hr]

/-- Clauses with spaces between them. -/
lemma written_joined {cs : List Clause} (hcs : ∀ c ∈ cs, c.Legible) :
    Written cs (Text.joinWith " " (cs.map Clause.render)).toList [] := by
  induction cs with
  | nil => exact .nil rfl
  | cons c cs ih =>
    obtain ⟨hc, hcs⟩ := List.forall_mem_cons.1 hcs
    cases cs with
    | nil =>
      have hsolid := (solid_clause_render hc).append []
      rw [List.append_nil] at hsolid
      refine .cons (t := []) ?_ (.nil rfl)
      rw [List.append_nil]
      exact skip_of_solid hsolid
    | cons d ds =>
      have htext : (Text.joinWith " " ((c :: d :: ds).map Clause.render)).toList =
          c.render.toList ++ ' ' :: (Text.joinWith " " ((d :: ds).map Clause.render)).toList := by
        simp [Text.joinWith_cons_cons, String.toList_append]
      rw [htext]
      exact .cons (skip_of_solid ((solid_clause_render hc).append _)) (ih hcs).space

/-- A list of clauses reads back when it is written with spaces between the clauses. -/
theorem clauseList_render (ps : Prefixes) {cs : List Clause} (hcs : ∀ c ∈ cs, c.Legible) :
    clauseList ps (Text.joinWith " " (cs.map Clause.render)) = .ok cs := by
  obtain ⟨s, hread, hskip⟩ := clauses_of_written (written_joined hcs)
    (fun c hc => clause_render ps (hcs c hc)) (clause_nil ps)
  simp only [clauseList, hread, hskip, List.isEmpty_nil, if_true]

end RuleFlow.Reader
