import RuleFlow.Proofs.Reader.ReadBack

/-!
# Texts one behind another

What is read of a text that is complete is read in the same way when a line break and more text
follow (`pattern_line`, `functor_line`, `rule_line`). A reader may scan to the end of its text,
in a comment, a name or a number; all such scans end at the line break. What is left at the end
of a comment is an exception: there the scan goes on behind the line break, but leaves nothing
before it.

So a document can be read piece by piece, with the prefixes of one piece for the next, or all
at once (`document_append`).
-/

namespace RuleFlow.Reader

/-! ## Runs of characters -/

section
variable (s b : List Char)

/-- A run of characters without line breaks ends at the line break. -/
lemma takeWhile_line {p : Char → Bool} (hp : p '\n' = false) :
    (s ++ '\n' :: b).takeWhile p = s.takeWhile p := by
  induction s with
  | nil => simp [hp]
  | cons c s ih => cases hc : p c <;> simp [hc, ih]

/-- What follows a run of characters without line breaks reaches beyond the line break. -/
lemma dropWhile_line {p : Char → Bool} (hp : p '\n' = false) :
    (s ++ '\n' :: b).dropWhile p = s.dropWhile p ++ '\n' :: b := by
  induction s with
  | nil => simp [hp]
  | cons c s ih => cases hc : p c <;> simp [hc, ih]

end

/-- A word without a line break that begins the longer text begins the text itself. -/
lemma exists_of_append_line {s b t : List Char} (word : List Char) (hword : '\n' ∉ word)
    (h : s ++ '\n' :: b = word ++ t) : ∃ t', s = word ++ t' ∧ t = t' ++ '\n' :: b := by
  obtain ⟨t', rfl, ht⟩ | ⟨u, rfl, hu⟩ := List.append_eq_append_iff.1 h
  · cases t' with
    | nil => exact ⟨[], by simp, ht.symm⟩
    | cons c t' =>
      obtain ⟨rfl, -⟩ := List.cons.inj ht
      exact absurd (List.mem_append_right s List.mem_cons_self) hword
  · exact ⟨u, rfl, hu⟩

/-- What the reader finds at the front of a text and where it leaves the text does not change
when a line break and more text follow. -/
def StaysInLine {α : Type} (read? : List Char → Option (α × List Char)) : Prop :=
  ∀ s b, read? (s ++ '\n' :: b) = (read? s).map fun (a, rest) => (a, rest ++ '\n' :: b)

lemma run?_line {p : Char → Bool} (hp : p '\n' = false) : StaysInLine (run? p) := by
  intro s b
  simp only [run?, takeWhile_line s b hp, dropWhile_line s b hp]
  split <;> rfl

lemma name?_line : StaysInLine name? := by
  intro s b
  cases s with
  | nil =>
    have hbreak : isNameStart '\n' = false := isNameStart_eq_false (by decide)
    simp [name?, hbreak]
  | cons c s =>
    have hbreak : isNameChar '\n' = false := isNameChar_eq_false (by decide)
    have hrun := run?_line hbreak (c :: s) b
    simp only [List.cons_append] at hrun
    cases hc : isNameStart c <;> simp [name?, hc, hrun]

lemma prefixedName?_line : StaysInLine prefixedName? := by
  intro s b
  have hplain : isPlainChar '\n' = false := isPlainChar_eq_false (by decide)
  have hlocal : isLocalChar '\n' = false := isLocalChar_eq_false (by decide)
  simp only [prefixedName?, dropWhile_line s b hplain, takeWhile_line s b hplain]
  -- the colon stands before the line break or nowhere
  cases s.dropWhile isPlainChar with
  | nil => rfl
  | cons c r =>
    by_cases hc : c = ':'
    · subst hc
      simp only [List.cons_append, dropWhile_line r b hlocal, takeWhile_line r b hlocal,
        Option.map_some]
    · simp [hc]

lemma iri?_line : StaysInLine iri? := by
  intro s b
  have hiri : isIriChar '\n' = false := by decide
  cases s with
  | nil => rfl
  | cons c r =>
    by_cases hc : c = '<'
    · subst hc
      simp only [iri?, List.cons_append, dropWhile_line r b hiri, takeWhile_line r b hiri]
      cases r.dropWhile isIriChar with
      | nil => rfl
      | cons d t => by_cases hd : d = '>' <;> simp [hd]
    · simp [iri?, hc]

lemma variableName?_line : StaysInLine variableName? := by
  intro s b
  cases s with
  | nil => rfl
  | cons c r =>
    by_cases hc : c = '?'
    · subst hc
      exact run?_line (isPlainChar_eq_false (by decide)) r b
    · simp [variableName?, hc]

lemma language?_line : StaysInLine language? := by
  intro s b
  cases s with
  | nil => rfl
  | cons c r =>
    by_cases hc : c = '@'
    · subst hc
      exact run?_line (isTagChar_eq_false (by decide)) r b
    · simp [language?, hc]

lemma blankLabel?_line : StaysInLine blankLabel? := by
  intro s b
  rcases s with _ | ⟨c, _ | ⟨d, r⟩⟩
  · rfl
  · simp [blankLabel?]
  · by_cases hc : c = '_' ∧ d = ':'
    · obtain ⟨rfl, rfl⟩ := hc
      exact run?_line (isLocalChar_eq_false (by decide)) r b
    · simp_all [blankLabel?]

lemma fraction?_line : StaysInLine fraction? := by
  intro s b
  cases s with
  | nil => rfl
  | cons c r =>
    by_cases hc : c = '.'
    · subst hc
      simp only [fraction?, List.cons_append, run?_line (show Char.isDigit '\n' = false by decide)
        r b, Option.map_map]
      rfl
    · simp [fraction?, hc]

lemma splitSign_line (s b : List Char) :
    splitSign (s ++ '\n' :: b) = ((splitSign s).1, (splitSign s).2 ++ '\n' :: b) := by
  cases s with
  | nil => rfl
  | cons c s => by_cases hp : c = '+' <;> by_cases hm : c = '-' <;> simp_all [splitSign]

lemma number?_line : StaysInLine number? := by
  intro s b
  have hrun := run?_line (show Char.isDigit '\n' = false by decide) (splitSign s).2 b
  simp only [number?, splitSign_line, hrun]
  cases run? Char.isDigit (splitSign s).2 with
  | none => rfl
  | some whole =>
    obtain ⟨digits, r⟩ := whole
    simp only [Option.map_some, fraction?_line r b]
    cases fraction? r <;> rfl

/-- The inside of a literal, when its quote ends it, is read as before. -/
lemma quotedBody?_line {s rest cs : List Char} (b : List Char)
    (h : quotedBody? s = some (cs, rest)) :
    quotedBody? (s ++ '\n' :: b) = some (cs, rest ++ '\n' :: b) := by
  fun_induction quotedBody? s generalizing cs with
  | case1 => cases h
  | case2 s =>
    obtain ⟨rfl, rfl⟩ := Prod.mk.inj (Option.some.inj h)
    rfl
  | case3 c s d cs' rest' hs hd ih =>
    obtain ⟨rfl, rfl⟩ := Prod.mk.inj (Option.some.inj h)
    exact quotedBody?_escape hd (ih hs)
  | case4 => cases h
  | case5 => cases h
  | case6 c s hquote hescape hslash cs' rest' hs ih =>
    obtain ⟨rfl, rfl⟩ := Prod.mk.inj (Option.some.inj h)
    rw [List.cons_append, quotedBody?, if_neg hslash, ih hs]
    · exact hquote
    · exact fun d t hc => absurd hc hslash
  | case7 => cases h

/-- A literal that ends may hold line breaks; what is behind it does not matter. -/
lemma quoted?_line {s rest : List Char} {text : String} (b : List Char)
    (h : quoted? s = some (text, rest)) :
    quoted? (s ++ '\n' :: b) = some (text, rest ++ '\n' :: b) := by
  unfold quoted? at h
  split at h
  · next r =>
    obtain ⟨⟨cs, rest'⟩, hbody, he⟩ := Option.map_eq_some_iff.1 h
    obtain ⟨rfl, rfl⟩ := Prod.mk.inj he
    simp only [List.cons_append, quoted?, quotedBody?_line b hbody, Option.map_some]
  · exact nomatch h

/-! ## Space and comments -/

/-- A line break does not complete the beginning of a comment. -/
lemma opensComment_line {c : Char} {s : List Char} (b : List Char) :
    OpensComment c (s ++ '\n' :: b) ↔ OpensComment c s := by
  cases s <;> simp [OpensComment]

/-- A comment that ends with the text ends at the line break as well; then nothing is left
before it. -/
lemma skip_append_line (s b : List Char) :
    skip (s ++ '\n' :: b) = (if skip s = [] then skip b else skip s ++ '\n' :: b) ∧
    skipLine (s ++ '\n' :: b) =
      (if skipLine s = [] then skip b else skipLine s ++ '\n' :: b) := by
  induction s with
  | nil => simp [skip, skipLine, Text.isSpacing]
  | cons c s ih =>
    have line : skipLine (c :: s ++ '\n' :: b) =
        (if skipLine (c :: s) = [] then skip b else skipLine (c :: s) ++ '\n' :: b) := by
      rw [List.cons_append, skipLine, skipLine]
      split
      · exact ih.1
      · exact ih.2
    refine ⟨?_, line⟩
    rw [List.cons_append]
    by_cases hcomment : OpensComment c s
    · rw [skip_comment hcomment, skip_comment ((opensComment_line b).2 hcomment)]
      exact ih.2
    · rw [skip_cons hcomment, skip_cons (mt (opensComment_line b).1 hcomment)]
      split
      · exact ih.1
      · rfl

/-- When nothing is left but comments and spaces, the text behind the line break is left. -/
lemma skip_line_of_nil {s : List Char} (h : skip s = []) (b : List Char) :
    skip (s ++ '\n' :: b) = skip b := by
  rw [(skip_append_line s b).1, if_pos h]

/-- When something is left, the line break and what is behind it are left as well. -/
lemma skip_line {s : List Char} (h : skip s ≠ []) (b : List Char) :
    skip (s ++ '\n' :: b) = skip s ++ '\n' :: b := by
  rw [(skip_append_line s b).1, if_neg h]

/-- What is left behind separators is left with the line break and what is behind it. -/
lemma skipSeparators_line {s : List Char} (h : skipSeparators s ≠ []) (b : List Char) :
    skipSeparators (s ++ '\n' :: b) = skipSeparators s ++ '\n' :: b := by
  have hne : (skipSeparators s).isEmpty = false := by simpa using h
  simp only [skipSeparators, List.dropWhile_append] at hne ⊢
  simp [hne]

/-! ## Terms -/

/-- The same outcome with a line break and more text behind what is left. -/
def behind {α : Type} (b : List Char) : Except Stop (α × List Char) → Except Stop (α × List Char)
  | .ok (a, rest) => .ok (a, rest ++ '\n' :: b)
  | .error (.mismatch rest) => .error (.mismatch (rest ++ '\n' :: b))
  | .error (.undeclared rest) => .error (.undeclared (rest ++ '\n' :: b))

/-- Whether the shape fits the text does not depend on what follows a line break. -/
def Shape.SettledAt {α : Type} (shape : Shape α) (s : List Char) : Prop :=
  ∀ b, shape (s ++ '\n' :: b) = behind b (shape s)

/-- What the shape reads it reads as well when a line break and more text follow. -/
def Shape.Lasts {α : Type} (shape : Shape α) : Prop :=
  ∀ s a rest b, shape s = .ok (a, rest) → shape (s ++ '\n' :: b) = .ok (a, rest ++ '\n' :: b)

/-- Lexemes that stay in their line are settled. -/
lemma Shape.settledAt_lexeme {α : Type} {read? : List Char → Option (α × List Char)}
    (h : StaysInLine read?) (s : List Char) : (lexeme read?).SettledAt s := by
  intro b
  simp only [lexeme, h s b]
  cases read? s <;> rfl

lemma Shape.SettledAt.map {α β : Type} {shape : Shape α} {s : List Char} (h : shape.SettledAt s)
    (f : α → β) : (shape.map f).SettledAt s := by
  intro b
  simp only [Shape.map, h b]
  rcases shape s with ⟨rest | rest⟩ | result <;> rfl

/-- A choice between settled shapes is settled. -/
lemma Shape.settledAt_firstOf {α : Type} {shapes : List (Shape α)} {s : List Char}
    (h : ∀ shape ∈ shapes, shape.SettledAt s) : (firstOf shapes).SettledAt s := by
  intro b
  induction shapes with
  | nil => rfl
  | cons shape shapes ih =>
    obtain ⟨hfirst, hothers⟩ := List.forall_mem_cons.1 h
    simp only [firstOf, hfirst b]
    rcases shape s with ⟨rest | rest⟩ | result
    · exact ih hothers
    · rfl
    · rfl

section
variable (ps : Prefixes)

lemma settledAt_resolvedName (s : List Char) : (resolvedName ps).SettledAt s := by
  intro b
  simp only [resolvedName, prefixedName?_line s b]
  cases prefixedName? s with
  | none => rfl
  | some found =>
    obtain ⟨⟨name, localName⟩, rest⟩ := found
    simp only [Option.map_some]
    cases ps.resolve? name localName <;> rfl

lemma settledAt_datatype (s : List Char) : (datatype ps).SettledAt s := by
  refine Shape.settledAt_firstOf fun shape hm => ?_
  simp only [List.mem_cons, List.not_mem_nil, or_false] at hm
  rcases hm with rfl | rfl
  · exact Shape.settledAt_lexeme iri?_line s
  · exact settledAt_resolvedName ps s

lemma literal_line : (literal ps).Lasts := by
  intro s l rest b h
  obtain ⟨lexical, r, hq, hbehind⟩ := literal_eq_ok_iff.1 h
  refine literal_eq_ok_iff.2 ⟨lexical, r ++ '\n' :: b, quoted?_line b hq, ?_⟩
  obtain ⟨language, hl, rfl⟩ | ⟨t, iri, rfl, hd, rfl⟩ | ⟨hl, hcarets, rfl, rfl⟩ := hbehind
  · exact .inl ⟨language, by rw [language?_line r b, hl]; rfl, rfl⟩
  · exact .inr (.inl ⟨t ++ '\n' :: b, iri, rfl, by rw [settledAt_datatype ps t b, hd]; rfl, rfl⟩)
  · refine .inr (.inr ⟨by rw [language?_line rest b, hl]; rfl, fun t ht => ?_, rfl, rfl⟩)
    obtain ⟨t', ht', -⟩ := exists_of_append_line ['^', '^'] (by decide) ht
    exact hcarets t' ht'

/-- No shape but that of a literal fits a text that begins with a quote. -/
lemma literal_of_term {s rest : List Char} {t : Term} (h : term ps ('"' :: s) = .ok (t, rest)) :
    ∃ l, t = .literal l ∧ literal ps ('"' :: s) = .ok (l, rest) := by
  have hplain : isPlainChar '"' = false := isPlainChar_eq_false (by decide)
  have hstart : isNameStart '"' = false := isNameStart_eq_false (by decide)
  obtain ⟨shape, hm, hread⟩ := Shape.exists_of_firstOf h
  simp only [termShapes, List.mem_cons, List.not_mem_nil, or_false] at hm
  rcases hm with rfl | rfl | rfl | rfl | rfl | rfl | rfl
  · cases hread
  · cases hread
  · cases hread
  · exact Shape.exists_of_map hread
  · cases hread
  · obtain ⟨_, -, hname⟩ := Shape.exists_of_map hread
    simp [resolvedName, prefixedName?, hplain] at hname
  · obtain ⟨_, -, hname⟩ := Shape.exists_of_map hread
    simp [Shape.lexeme, name?, hstart] at hname

lemma term_line : (term ps).Lasts := by
  intro s t rest b h
  by_cases hquote : ∃ u, s = '"' :: u
  · obtain ⟨u, rfl⟩ := hquote
    obtain ⟨l, rfl, hl⟩ := literal_of_term ps h
    have hread := literal_line ps _ l rest b hl
    rw [List.cons_append] at hread ⊢
    rw [term, termShapes, Shape.firstOf_skip (by rfl), Shape.firstOf_skip (by rfl),
      Shape.firstOf_skip (by rfl)]
    exact Shape.firstOf_take (Shape.map_ok hread _)
  · have hsettled : (term ps).SettledAt s := by
      refine Shape.settledAt_firstOf fun shape hm => ?_
      simp only [termShapes, List.mem_cons, List.not_mem_nil, or_false] at hm
      rcases hm with rfl | rfl | rfl | rfl | rfl | rfl | rfl
      · exact (Shape.settledAt_lexeme variableName?_line s).map _
      · exact (Shape.settledAt_lexeme iri?_line s).map _
      · exact (Shape.settledAt_lexeme blankLabel?_line s).map _
      · -- without a quote there is no literal, neither with more text nor without
        refine Shape.SettledAt.map (fun b => ?_) _
        have hmore : ∀ u, s ++ '\n' :: b ≠ '"' :: u := by
          intro u hu
          obtain ⟨u', hu', -⟩ := exists_of_append_line ['"'] (by decide) hu
          exact hquote ⟨u', hu'⟩
        rw [literal_mismatch ps hmore, literal_mismatch ps fun u hu => hquote ⟨u, hu⟩]
        rfl
      · exact (Shape.settledAt_lexeme number?_line s).map _
      · exact (settledAt_resolvedName ps s).map _
      · exact (Shape.settledAt_lexeme name?_line s).map _
    rw [hsettled b, h]
    rfl

/-! ## Patterns and functors -/

/-- A shape that takes characters reads nothing from an empty text. -/
lemma Shape.Consumes.ne_nil {α : Type} {shape : Shape α} (hshape : shape.Consumes)
    {s rest : List Char} {a : α} (h : shape s = .ok (a, rest)) : s ≠ [] := by
  rintro rfl
  exact absurd (hshape _ _ _ h).2 (Nat.not_lt_zero _)

/-- A pattern is read as before. -/
lemma pattern_line : (pattern ps).Lasts := by
  intro s p rest b h
  obtain ⟨s₀, s₁, s₂, s₃, rfl, h₁, h₂, h₃, h₄⟩ := pattern_eq_ok_iff.1 h
  have hterm : ∀ {u t v}, term ps u = .ok (t, v) → u ≠ [] := (consumes_term ps).ne_nil
  have hclose : skip s₃ ≠ [] := by simp [h₄]
  refine pattern_eq_ok_iff.2 ⟨s₀ ++ '\n' :: b, s₁ ++ '\n' :: b, s₂ ++ '\n' :: b, s₃ ++ '\n' :: b,
    rfl, ?_, ?_, ?_, by rw [skip_line hclose, h₄]; rfl⟩
  · rw [skip_line (hterm h₁)]
    exact term_line ps _ _ _ b h₁
  · rw [skipSeparators_line (hterm h₂)]
    exact term_line ps _ _ _ b h₂
  · rw [skipSeparators_line (hterm h₃)]
    exact term_line ps _ _ _ b h₃

/-- Behind the terms stands the parenthesis that ends them, and no term begins with it. -/
lemma arguments_line {s rest : List Char} {ts : List Term} (b : List Char)
    (h : arguments ps s = .ok (ts, ')' :: rest)) :
    arguments ps (s ++ '\n' :: b) = .ok (ts, ')' :: (rest ++ '\n' :: b)) := by
  fun_induction arguments ps s generalizing ts with
  | case1 => cases h
  | case2 =>
    obtain ⟨rfl, rfl⟩ := Prod.mk.inj (Except.ok.inj h)
    exact arguments_of_mismatch (term_close ps _)
  | case3 => cases h
  | case4 s t r ht _ ts' rest' hr ih =>
    obtain ⟨rfl, rfl⟩ := Prod.mk.inj (Except.ok.inj h)
    have hne : skipSeparators r ≠ [] := (arguments_suffix ps _ hr).ne_nil (by simp)
    refine arguments_of_ok (term_line ps s t r b ht) ?_
    rw [skipSeparators_line hne]
    exact ih hr

lemma functor_line : (functor ps).Lasts := by
  intro s f rest b h
  obtain ⟨s₀, hn, hargs⟩ := functor_eq_ok_iff.1 h
  have hne : skipSeparators s₀ ≠ [] := (arguments_suffix ps _ hargs).ne_nil (by simp)
  refine functor_eq_ok_iff.2 ⟨s₀ ++ '\n' :: b, ?_, ?_⟩
  · rw [name?_line s b, hn]
    rfl
  · rw [skipSeparators_line hne]
    exact arguments_line ps b hargs

/-! ## Rules -/

/-- A name that a list of clauses begins with, when more than the clauses follows, is that of a
functor. -/
lemma paren_of_name? {s r rest t : List Char} {name : String} {cs : List Clause}
    (hs : skip s = s) (hname : name? s = some (name, r)) (h : clauses ps s = .ok (cs, rest))
    (hrest : skip rest = '-' :: t) : ∃ r', r = '(' :: r' := by
  obtain ⟨c, u, rfl, hc⟩ := name?_head hname
  have hne : ∀ d, isNameStart d = false → c ≠ d := by
    rintro d hd rfl
    exact absurd hc (ne_true_of_eq_false hd)
  obtain ⟨-, rfl, -⟩ | ⟨first, -, r₁, -, hfirst, -⟩ := clauses_eq_ok_iff.1 h
  · rw [hs] at hrest
    exact absurd (List.cons.inj hrest).1 (hne '-' (isNameStart_eq_false (by decide)))
  · rw [hs] at hfirst
    obtain ⟨p, -, hp⟩ | ⟨rl, -, hr⟩ | ⟨f, -, hf⟩ := clause_eq_ok_iff.1 hfirst
    · obtain ⟨_, _, _, _, hopen, -⟩ := pattern_eq_ok_iff.1 hp
      exact absurd (List.cons.inj hopen).1 (hne '(' (isNameStart_eq_false (by decide)))
    · obtain ⟨_, _, _, _, hopen, -⟩ := rule_eq_ok_iff.1 hr
      exact absurd (List.cons.inj hopen).1 (hne '[' (isNameStart_eq_false (by decide)))
    · obtain ⟨s₀, hf, -⟩ := functor_eq_ok_iff.1 hf
      rw [hname] at hf
      exact ⟨s₀, (Prod.mk.inj (Option.some.inj hf)).2⟩

/-- What shows that a name was that of the rule shows it with more text behind, too. -/
lemma endsRuleName_line {s : List Char} (b : List Char) (h : endsRuleName s = true) :
    endsRuleName (s ++ '\n' :: b) = true := by
  rcases s with _ | ⟨c, _ | ⟨d, u⟩⟩
  · exact nomatch h
  · have hc : (Text.isSpacing c || c = '(' || c = '[') = true := by simpa [endsRuleName] using h
    simpa [endsRuleName] using hc
  · by_cases harrow : c = '-' ∧ d = '>'
    · obtain ⟨rfl, rfl⟩ := harrow
      rfl
    · simp_all [endsRuleName]

omit ps in
/-- A name with a colon behind it is that of the rule when a part of a rule follows. -/
lemma ruleName_of_colon {s r t : List Char} {name : String} (hname : name? s = some (name, r))
    (hr : skip r = ':' :: t) (ht : endsRuleName t = true) : ruleName s = (some name, skip t) := by
  simp only [ruleName, hname, hr, ht, if_true]

omit ps in
lemma ruleName_of_paren {s r : List Char} {name : String}
    (hname : name? s = some (name, '(' :: r)) : ruleName s = (none, s) := by
  have hskip : skip ('(' :: r) = '(' :: r := skip_of_solid ⟨'(', r, rfl, by decide⟩
  simp only [ruleName, hname, hskip]
  rfl

/-- The name of a rule is read as before when the body of the rule is. -/
lemma ruleName_line {s rest t : List Char} {cs : List Clause} (b : List Char) (hs : skip s = s)
    (h : clauses ps (ruleName s).2 = .ok (cs, rest)) (hrest : skip rest = '-' :: t) :
    ruleName (s ++ '\n' :: b) = ((ruleName s).1, (ruleName s).2 ++ '\n' :: b) := by
  have hmore := name?_line s b
  cases hname : name? s with
  | none =>
    rw [hname] at hmore
    simp only [ruleName, hname, hmore, Option.map_none]
  | some found =>
    obtain ⟨name, r⟩ := found
    rw [hname] at hmore
    by_cases hcolon : ∃ t, skip r = ':' :: t ∧ endsRuleName t = true
    · obtain ⟨t', hr, ht'⟩ := hcolon
      rw [ruleName_of_colon hname hr ht'] at h ⊢
      have hne : skip t' ≠ [] := by
        have e : '-' :: t <:+ skip t' := hrest ▸ (skip_suffix rest).1.trans (clauses_suffix ps h)
        exact e.ne_nil (by simp)
      have hr' : skip (r ++ '\n' :: b) = ':' :: (t' ++ '\n' :: b) := by
        rw [skip_line (by simp [hr]), hr]
        rfl
      rw [ruleName_of_colon hmore hr' (endsRuleName_line b ht'), skip_line hne]
    · -- a name that is not the rule's is that of a functor
      have hself : ruleName s = (none, s) := by
        simp only [ruleName, hname]
        split
        · next t' hr => exact if_neg fun ht' => hcolon ⟨t', hr, ht'⟩
        · rfl
      rw [hself] at h ⊢
      obtain ⟨r', rfl⟩ := paren_of_name? ps hs hname h hrest
      exact ruleName_of_paren hmore

/-- What ends the clauses of a rule: the arrow or the closing bracket. -/
def EndsRulePart (s : List Char) : Prop := ∃ t, s = '-' :: t ∨ s = ']' :: t

/-- The clauses at the front of the text, when they end as in a rule, are read as well when a
line break and more text follow. -/
def ClausesLastAt (s : List Char) : Prop :=
  ∀ cs rest b, clauses ps s = .ok (cs, rest) → EndsRulePart (skip rest) →
    clauses ps (s ++ '\n' :: b) = .ok (cs, rest ++ '\n' :: b)

/-- A rule is read as before when shorter lists of clauses are. -/
lemma rule_line_of {s rest : List Char} {r : Rule} (b : List Char)
    (ih : ∀ t, t.length < s.length → ClausesLastAt ps t) (h : rule ps s = .ok (r, rest)) :
    rule ps (s ++ '\n' :: b) = .ok (r, rest ++ '\n' :: b) := by
  obtain ⟨s₀, s₁, s₂, s₃, rfl, hname, hbody, h₂, hhead, h₄⟩ := rule_eq_ok_iff.1 h
  have harrow : skip s₁ = '-' :: '>' :: s₂ := arrow?_eq_some_iff.1 h₂
  -- the text behind the bracket is not blank, since the arrow and the bracket are in it
  have hopen : skip s₀ ≠ [] := by
    have e : skip s₁ <:+ skip s₀ :=
      ((skip_suffix s₁).1.trans (clauses_suffix ps hbody)).trans (ruleName_suffix _)
    exact e.ne_nil (by simp [harrow])
  have hname' := ruleName_line ps b (skip_skip s₀).1 hbody harrow
  refine rule_eq_ok_iff.2 ⟨s₀ ++ '\n' :: b, s₁ ++ '\n' :: b, s₂ ++ '\n' :: b, s₃ ++ '\n' :: b, rfl,
    ?_, ?_, ?_, ?_, ?_⟩
  · rw [skip_line hopen, hname', hname]
  · rw [skip_line hopen, hname']
    exact ih _ (Nat.lt_succ_of_le (body_suffix s₀).length_le) _ _ b hbody
      ⟨_, .inl harrow⟩
  · rw [skip_line (by simp [harrow]), harrow]
    rfl
  · exact ih _ (Nat.lt_succ_of_le (head_suffix hbody h₂).length_le) _ _ b hhead ⟨_, .inr h₄⟩
  · rw [skip_line (by simp [h₄]), h₄]
    rfl

lemma clause_line_of {s rest : List Char} {c : Clause} (b : List Char)
    (ih : ∀ t, t.length < s.length → ClausesLastAt ps t) (h : clause ps s = .ok (c, rest)) :
    clause ps (s ++ '\n' :: b) = .ok (c, rest ++ '\n' :: b) := by
  rw [clause_eq_ok_iff] at h ⊢
  obtain ⟨p, rfl, hp⟩ | ⟨r, rfl, hr⟩ | ⟨f, rfl, hf⟩ := h
  · exact .inl ⟨p, rfl, pattern_line ps s p rest b hp⟩
  · exact .inr (.inl ⟨r, rfl, rule_line_of ps b ih hr⟩)
  · exact .inr (.inr ⟨f, rfl, functor_line ps s f rest b hf⟩)

/-- No clause begins with what ends the clauses of a rule. -/
lemma clause_of_endsRulePart {s : List Char} (h : EndsRulePart s) :
    clause ps s = .error (.mismatch s) := by
  obtain ⟨t, rfl | rfl⟩ := h
  · exact clause_arrow ps t
  · exact clause_close ps t

lemma EndsRulePart.append {s : List Char} (h : EndsRulePart s) (t : List Char) :
    EndsRulePart (s ++ t) := by
  obtain ⟨u, rfl | rfl⟩ := h
  · exact ⟨u ++ t, .inl rfl⟩
  · exact ⟨u ++ t, .inr rfl⟩

lemma EndsRulePart.ne_nil {s : List Char} (h : EndsRulePart s) : s ≠ [] := by
  obtain ⟨u, rfl | rfl⟩ := h <;> simp

/-- Clauses that end as in a rule are read as before. -/
theorem clauses_line (s : List Char) : ClausesLastAt ps s := by
  -- on the length of the text: a clause is shorter than the list that begins with it
  induction hn : s.length using Nat.strong_induction_on generalizing s with
  | h n ih =>
    subst hn
    intro cs rest b h hend
    have hshort : ∀ {t}, t.length < s.length → ClausesLastAt ps t := fun ht => ih _ ht _ rfl
    obtain ⟨rfl, rfl, -⟩ | ⟨c, cs', r, rfl, hc, hcs⟩ := clauses_eq_ok_iff.1 h
    · refine clauses_eq_ok_iff.2 (.inl ⟨rfl, rfl, ?_⟩)
      rw [skip_line hend.ne_nil]
      exact ⟨_, clause_of_endsRulePart ps (hend.append _)⟩
    · have hr : r.length < s.length :=
        Nat.lt_of_lt_of_le (consumes_clause ps _ _ _ hc).2 (length_skip_le s)
      refine clauses_eq_ok_iff.2 (.inr ⟨c, cs', r ++ '\n' :: b, rfl, ?_, ?_⟩)
      · rw [skip_line ((consumes_clause ps).ne_nil hc)]
        exact clause_line_of ps b
          (fun t ht => hshort (Nat.lt_of_lt_of_le ht (length_skip_le s))) hc
      · exact hshort hr cs' rest b hcs hend

/-- A rule is read as before. -/
theorem rule_line : (rule ps).Lasts :=
  fun _ _ _ b h => rule_line_of ps b (fun t _ => clauses_line ps t) h

end

/-! ## Documents -/

lemma dropDot_of_ne {s : List Char} (h : ∀ t, s ≠ '.' :: t) : dropDot s = s := by
  unfold dropDot
  split
  · next t => exact absurd rfl (h t)
  · rfl

/-- The dot of a declaration is found before the line break, when something is left there. -/
lemma dropDot_line {s : List Char} (h : s ≠ []) (b : List Char) :
    dropDot (s ++ '\n' :: b) = dropDot s ++ '\n' :: b := by
  obtain ⟨c, t, rfl⟩ := List.exists_cons_of_ne_nil h
  by_cases hc : c = '.'
  · subst hc
    rfl
  · have hne : ∀ u v, c :: u ≠ '.' :: v := fun u v huv => hc (List.cons.inj huv).1
    rw [dropDot_of_ne (hne t), List.cons_append, dropDot_of_ne (hne _)]

/-- A declaration without a dot at the end of the text would take the dot that follows it. -/
lemma declaration?_line {s rest : List Char} {pair : String × String} {b : List Char}
    (h : declaration? s = some (pair, rest)) (hb : ∀ t, skip b ≠ '.' :: t) :
    ∃ rest', declaration? (s ++ '\n' :: b) = some (pair, rest') ∧
      skip rest' = skip (rest ++ '\n' :: b) := by
  have hplain : isPlainChar '\n' = false := isPlainChar_eq_false (by decide)
  unfold declaration? at h
  split at h
  · next r hr =>
    split at h
    · next namespaceIri t ht =>
      obtain ⟨rfl, rfl⟩ := Prod.mk.inj (Option.some.inj h)
      have hs : skip s ≠ [] := by
        intro hnil
        rw [hnil] at hr
        exact nomatch hr
      have hr₀ : skip r ≠ [] := by
        intro hnil
        rw [hnil] at ht
        exact nomatch ht
      have hiri := iri?_line (skip r) b
      rw [ht] at hiri
      refine ⟨dropDot (skip (t ++ '\n' :: b)), ?_, ?_⟩
      · simp only [declaration?, skip_line hs, dropWhile_line _ b hplain, takeWhile_line _ b hplain,
          hr, List.cons_append, skip_line hr₀, hiri, Option.map_some]
      · by_cases ht : skip t = []
        · rw [skip_line_of_nil ht, ht, dropDot_of_ne hb, (skip_skip b).1]
          exact (skip_line_of_nil rfl b).symm
        · rw [skip_line ht, dropDot_line ht]
    · exact nomatch h
  · exact nomatch h

section
variable {full : List Char} {ps ps' : Prefixes} {s : List Char} {rules : List Rule}

/-- Only an error mentions the text as a whole. -/
lemma documentFrom_of_ok (full' : List Char) (h : documentFrom full ps s = (ps', .ok rules)) :
    documentFrom full' ps s = (ps', .ok rules) := by
  fun_induction documentFrom full ps s generalizing ps' rules with
  | case1 ps s hskip => rw [documentFrom_of_end hskip, ← h]
  | case2 ps s c t hskip _ r hd name namespaceIri rest hp _ ih =>
    rw [documentFrom_of_word (hskip.trans (Text.dropStart?_eq_some_iff.1 hd)), hp]
    exact ih h
  | case3 => cases (Prod.mk.inj h).2
  | case4 ps s c t hskip _ hd r rest hrule _ ps₁ results hrest ih =>
    obtain ⟨rfl, hrules⟩ := Prod.mk.inj h
    cases results with
    | error e => cases hrules
    | ok rs =>
      rw [documentFrom_of_rule (hskip.symm ▸ hrule), ih hrest, ← hrules]
  | case5 => cases (Prod.mk.inj h).2

/-- No rule or declaration begins with a dot, so a document that is read does not. -/
lemma skip_ne_dot (h : documentFrom full ps s = (ps', .ok rules)) (t : List Char) :
    skip s ≠ '.' :: t := by
  intro hs
  have hrule : rule ps (skip s) = .error (.mismatch (skip s)) :=
    rule_mismatch ps fun u hu => absurd (List.cons.inj (hs.symm.trans hu)).1 (by decide)
  rw [documentFrom_of_broken (by simp [hs]) (by rw [hs]; rfl) hrule] at h
  exact nomatch (Prod.mk.inj h).2

/-- The rules of two texts one behind the other are those of the first, then those of the second. -/
lemma documentFrom_line {full' full'' b : List Char} {ps'' : Prefixes} {rules' : List Rule}
    (hs : documentFrom full ps s = (ps', .ok rules))
    (hb : documentFrom full' ps' b = (ps'', .ok rules')) :
    documentFrom full'' ps (s ++ '\n' :: b) = (ps'', .ok (rules ++ rules')) := by
  fun_induction documentFrom full ps s generalizing ps' rules with
  | case1 ps s hskip =>
    obtain ⟨rfl, hrules⟩ := Prod.mk.inj hs
    obtain rfl := Except.ok.inj hrules
    rw [documentFrom_congr (skip_line_of_nil hskip b)]
    exact documentFrom_of_ok full'' hb
  | case2 ps s c t hskip _ r hd name namespaceIri rest hp _ ih =>
    obtain ⟨rest', hp', hrest⟩ := declaration?_line hp (skip_ne_dot hb)
    have hword : skip (s ++ '\n' :: b) = directiveWord ++ (r ++ '\n' :: b) := by
      rw [skip_line (by simp [hskip]), hskip, Text.dropStart?_eq_some_iff.1 hd, List.append_assoc]
    rw [documentFrom_of_word hword, hp']
    simp only [documentFrom_congr hrest]
    exact ih hs hb
  | case3 => cases (Prod.mk.inj hs).2
  | case4 ps s c t hskip _ hd r rest hrule _ ps₁ results hrest ih =>
    obtain ⟨rfl, hrules⟩ := Prod.mk.inj hs
    cases results with
    | error e => cases hrules
    | ok rs =>
      obtain rfl := Except.ok.inj hrules
      have hrule' : rule ps (skip (s ++ '\n' :: b)) = .ok (r, rest ++ '\n' :: b) := by
        rw [skip_line (by simp [hskip]), hskip]
        exact rule_line ps _ r rest b hrule
      rw [documentFrom_of_rule hrule', ih hrest hb]
      rfl
  | case5 => cases (Prod.mk.inj hs).2

end

/-- Reading one text and then another with the prefixes that the first leaves is reading both
at once with a line break between them: the rules of the one are followed by those of the
other, and the same prefixes are left. -/
theorem document_append {ps ps₁ ps₂ : Prefixes} {a b : String} {rules₁ rules₂ : List Rule}
    (ha : document ps a = (ps₁, .ok rules₁)) (hb : document ps₁ b = (ps₂, .ok rules₂)) :
    document ps (a ++ "\n" ++ b) = (ps₂, .ok (rules₁ ++ rules₂)) := by
  have htext : (a ++ "\n" ++ b).toList = a.toList ++ '\n' :: b.toList := by
    simp [String.toList_append]
  rw [document, htext]
  exact documentFrom_line ha hb

/-- The first text ends in a comment and declares, without a dot, a prefix that the second text
uses. -/
theorem document_append_of_comment :
    let a := "@prefix p: <http://n/> [ r : (?x p:a ?y) -> (?y p:a ?x) ] # both ways"
    let b := "[ (?x p:a 5) -> (?x p:b \"five\") ]"
    let ps := Prefixes.standard.declare "p" "http://n/"
    let r₁ : Rule := ⟨some "r", [.pattern ⟨.var ⟨"x"⟩, .iri "http://n/a", .var ⟨"y"⟩⟩],
      [.pattern ⟨.var ⟨"y"⟩, .iri "http://n/a", .var ⟨"x"⟩⟩]⟩
    let r₂ : Rule := ⟨none,
      [.pattern ⟨.var ⟨"x"⟩, .iri "http://n/a",
        .literal ⟨"5", .typed (Vocabulary.xsd ++ "integer")⟩⟩],
      [.pattern ⟨.var ⟨"x"⟩, .iri "http://n/b", .literal ⟨"five", .plain⟩⟩]⟩
    document .standard a = (ps, .ok [r₁]) ∧ document ps b = (ps, .ok [r₂]) ∧
    document .standard (a ++ "\n" ++ b) = (ps, .ok [r₁, r₂]) := by
  intro a b ps r₁ r₂
  have ha : document .standard a = (ps, .ok [r₁]) := by decide +kernel
  have hb : document ps b = (ps, .ok [r₂]) := by decide +kernel
  exact ⟨ha, hb, document_append ha hb⟩

end RuleFlow.Reader
