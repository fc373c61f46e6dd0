import RuleFlow.Proofs.Reader.ReadBack

/-!
# Readers that call readers

A clause is read by readers that call one another, each on an end of the text of its caller.
`Calls` lists the calls of one reader in the order in which it makes them, and `Reaches` is what
they lead to, at any depth.

Whatever a reader stops at is an end of its text (`stop_suffix`), and for good it stops at a
prefixed name without a declaration only. Such a stop goes through every reader on the way to
the name, whatever else each of them could have tried: `stop_iff_reaches` says that a reader
stops there exactly if its calls lead there, and `Calls.le_of_undeclared` that none of them
makes a call after that.
-/

namespace RuleFlow.Reader

/-! ## Readers and their calls -/

/-- The readers that may come to a prefixed name, and that of a bare name, which is tried
behind it. -/
inductive Part where
  /-- A bare name as a term. -/
  | name
  /-- A prefixed name. -/
  | resolvedName
  /-- The datatype of a literal. -/
  | datatype
  /-- A quoted literal. -/
  | literal
  /-- A term. -/
  | term
  /-- A triple pattern. -/
  | pattern
  /-- The arguments of a functor. -/
  | arguments
  /-- A functor. -/
  | functor
  /-- A rule. -/
  | rule
  /-- A clause. -/
  | clause
  /-- A list of clauses. -/
  | clauses
  deriving DecidableEq

/-- The stop of a reading, when it did stop. -/
def stopOf? {α : Type} : Except Stop α → Option Stop
  | .ok _ => none
  | .error stop => some stop

/-- Why the reader stops at the text, when it does. -/
def Part.stop? (ps : Prefixes) : Part → List Char → Option Stop
  | .name, s => stopOf? (Shape.lexeme name? s)
  | .resolvedName, s => stopOf? (Reader.resolvedName ps s)
  | .datatype, s => stopOf? (Reader.datatype ps s)
  | .literal, s => stopOf? (Reader.literal ps s)
  | .term, s => stopOf? (Reader.term ps s)
  | .pattern, s => stopOf? (Reader.pattern ps s)
  | .arguments, s => stopOf? (Reader.arguments ps s)
  | .functor, s => stopOf? (Reader.functor ps s)
  | .rule, s => stopOf? (Reader.rule ps s)
  | .clause, s => stopOf? (Reader.clause ps s)
  | .clauses, s => stopOf? (Reader.clauses ps s)

/-- The calls that a reader makes on a text: the reader that is called, its text, and how many
calls come before. A call is made when those before it have ended as the reader needs it. -/
inductive Calls (ps : Prefixes) : Part → List Char → Nat → Part → List Char → Prop
  | datatype_name {s} (h : iri? s = none) : Calls ps .datatype s 0 .resolvedName s
  | literal_datatype {s lexical t} (h : quoted? s = some (lexical, '^' :: '^' :: t)) :
    Calls ps .literal s 0 .datatype t
  | term_literal {s} (h : Misfit ((termShapes ps).take 3) s) : Calls ps .term s 0 .literal s
  | term_prefixed {s} (h : Misfit ((termShapes ps).take 5) s) :
    Calls ps .term s 1 .resolvedName s
  | term_name {s} (h : Misfit ((termShapes ps).take 6) s) : Calls ps .term s 2 .name s
  | pattern_subject {s} : Calls ps .pattern ('(' :: s) 0 .term (skip s)
  | pattern_predicate {s t s₁} (h : term ps (skip s) = .ok (t, s₁)) :
    Calls ps .pattern ('(' :: s) 1 .term (skipSeparators s₁)
  | pattern_object {s t s₁ t' s₂} (h : term ps (skip s) = .ok (t, s₁))
    (h' : term ps (skipSeparators s₁) = .ok (t', s₂)) :
    Calls ps .pattern ('(' :: s) 2 .term (skipSeparators s₂)
  | arguments_first {s} : Calls ps .arguments s 0 .term s
  | arguments_next {s t r} (h : term ps s = .ok (t, r)) :
    Calls ps .arguments s 1 .arguments (skipSeparators r)
  | functor_arguments {s name s₀} (h : name? s = some (name, '(' :: s₀)) :
    Calls ps .functor s 0 .arguments (skipSeparators s₀)
  | rule_body {s} : Calls ps .rule ('[' :: s) 0 .clauses (ruleName (skip s)).2
  | rule_head {s body s₁ s₂} (h : clauses ps (ruleName (skip s)).2 = .ok (body, s₁))
    (h' : arrow? (skip s₁) = some s₂) : Calls ps .rule ('[' :: s) 1 .clauses s₂
  | clause_pattern {s} : Calls ps .clause s 0 .pattern s
  | clause_rule {s} (h : Misfit [(pattern ps).map Clause.pattern] s) : Calls ps .clause s 1 .rule s
  | clause_functor {s} (h : Misfit [(pattern ps).map .pattern, (rule ps).map Rule.toClause] s) :
    Calls ps .clause s 2 .functor s
  | clauses_first {s} : Calls ps .clauses s 0 .clause (skip s)
  | clauses_next {s c r} (h : clause ps (skip s) = .ok (c, r)) : Calls ps .clauses s 1 .clauses r

/-- The calls of the reader on the text lead to the other reader on the other text. -/
inductive Reaches (ps : Prefixes) : Part → List Char → Part → List Char → Prop
  | here {p s} : Reaches ps p s p s
  | through {p s i q t r u} (h : Calls ps p s i q t) (h' : Reaches ps q t r u) :
    Reaches ps p s r u

/-- The text begins with a prefixed name, and its prefix is not declared. -/
def Undeclared (ps : Prefixes) (s : List Char) (name : String) : Prop :=
  ∃ localName rest, prefixedName? s = some ((name, localName), rest) ∧ ps.find? name = none

section
variable {ps : Prefixes} {p q : Part} {s t rest : List Char} {i : Nat}

@[simp] lemma stopOf?_eq_some_iff {α : Type} {result : Except Stop α} {stop : Stop} :
    stopOf? result = some stop ↔ result = .error stop := by
  cases result <;> simp [stopOf?]

lemma eq_error_of_map {α β : Type} {f : α → β} {result : Except Stop α} {stop : Stop}
    (h : result.map f = .error stop) : result = .error stop := by
  cases result with
  | error stop' => exact congrArg Except.error (Except.error.inj h)
  | ok a => exact nomatch h

/-- Two steps stop at the first of them or, when that one is done, at the second. -/
lemma bind_eq_error {α β : Type} {f : α → Except Stop β} {result : Except Stop α} {stop : Stop}
    (h : result >>= f = .error stop) :
    result = .error stop ∨ ∃ a, result = .ok a ∧ f a = .error stop := by
  cases result with
  | error stop' => exact .inl (congrArg Except.error (Except.error.inj h))
  | ok a => exact .inr ⟨a, rfl, h⟩

/-! ## Calls go to shorter texts -/

/-- How deep in the grammar a reader stands. Readers of one text call those below them. -/
def Part.rank : Part → Nat
  | .name => 0
  | .resolvedName => 0
  | .datatype => 1
  | .literal => 2
  | .term => 3
  | .pattern => 4
  | .arguments => 4
  | .functor => 5
  | .rule => 5
  | .clause => 6
  | .clauses => 7

/-- The text of a call is shorter, or it is the same and the reader stands below. -/
def Below (q : Part) (t : List Char) (p : Part) (s : List Char) : Prop :=
  t <:+ s ∧ (t.length < s.length ∨ t.length = s.length ∧ q.rank < p.rank)

lemma below_of_properEnd (h : ProperEnd t s) : Below q t p s := ⟨h.1, .inl h.2⟩

/-- Of two readers of one text the one that stands deeper is below the other. -/
lemma below_of_rank (h : q.rank < p.rank) : Below q s p s := ⟨List.suffix_rfl, .inr ⟨rfl, h⟩⟩

/-- Each call goes to a reader below. -/
lemma Calls.below (h : Calls ps p s i q t) : Below q t p s := by
  cases h with
  | datatype_name => exact below_of_rank (by decide)
  | literal_datatype h =>
    have hcarets : t <:+ '^' :: '^' :: t := (List.suffix_cons _ _).trans (List.suffix_cons _ _)
    exact below_of_properEnd ((properEnd_of_quoted? h).of_suffix hcarets)
  | term_literal => exact below_of_rank (by decide)
  | term_prefixed => exact below_of_rank (by decide)
  | term_name => exact below_of_rank (by decide)
  | pattern_subject => exact below_of_properEnd (.of_cons (skip_suffix _).1)
  | pattern_predicate h =>
    have e := (consumes_term ps _ _ _ h).1.trans (skip_suffix _).1
    exact below_of_properEnd (.of_cons ((skipSeparators_suffix _).trans e))
  | pattern_object h h' =>
    have e := (consumes_term ps _ _ _ h).1.trans (skip_suffix _).1
    have e' := ((consumes_term ps _ _ _ h').1.trans (skipSeparators_suffix _)).trans e
    exact below_of_properEnd (.of_cons ((skipSeparators_suffix _).trans e'))
  | arguments_first => exact below_of_rank (by decide)
  | arguments_next h =>
    exact below_of_properEnd ((consumes_term ps _ _ _ h).of_suffix (skipSeparators_suffix _))
  | functor_arguments h =>
    refine below_of_properEnd ((properEnd_of_name? h).of_suffix ?_)
    exact (skipSeparators_suffix _).trans (List.suffix_cons '(' _)
  | rule_body => exact below_of_properEnd (.of_cons (body_suffix _))
  | rule_head h h' => exact below_of_properEnd (.of_cons (head_suffix h h'))
  | clause_pattern => exact below_of_rank (by decide)
  | clause_rule => exact below_of_rank (by decide)
  | clause_functor => exact below_of_rank (by decide)
  | clauses_first =>
    exact ⟨(skip_suffix s).1, (length_skip_le s).lt_or_eq.imp_right fun h => ⟨h, by decide⟩⟩
  | clauses_next h =>
    exact below_of_properEnd ((consumes_clause ps _ _ _ h).suffix (skip_suffix s).1)

/-- What the calls of a reader lead to can be proved of the reader, from its calls to it. -/
lemma calls_induction (ps : Prefixes) {P : Part → List Char → Prop}
    (step : ∀ p s, (∀ i q t, Calls ps p s i q t → P q t) → P p s) (p : Part) (s : List Char) :
    P p s := by
  -- a call lowers the length of the text, or keeps it and lowers the rank, which is at most 7
  induction hn : 8 * s.length + p.rank using Nat.strong_induction_on generalizing p s with
  | h n ih =>
    refine step p s fun i q t h => ih _ ?_ q t rfl
    have hq : q.rank ≤ 7 := by cases q <;> decide
    obtain ⟨-, hlen | ⟨hlen, hrank⟩⟩ := h.below <;> omega

/-! ## Stops -/

lemma Shape.firstOf_undeclared {α : Type} {shape : Shape α} {shapes : List (Shape α)}
    (h : shape s = .error (.undeclared rest)) :
    firstOf (shape :: shapes) s = .error (.undeclared rest) := by
  rw [firstOf, h]

lemma Shape.map_error {α β : Type} {shape : Shape α} {stop : Stop} (h : shape s = .error stop)
    (f : α → β) : shape.map f s = .error stop := by
  rw [Shape.map, h]
  rfl

/-- An undeclared name stops the reader that called. -/
lemma Calls.undeclared (h : Calls ps p s i q t) (hq : q.stop? ps t = some (.undeclared rest)) :
    p.stop? ps s = some (.undeclared rest) := by
  cases h
  all_goals simp only [Part.stop?, stopOf?_eq_some_iff] at hq ⊢
  case datatype_name h =>
    rw [datatype, Shape.firstOf_skip (by rw [Shape.lexeme, h])]
    exact Shape.firstOf_undeclared hq
  case literal_datatype h =>
    have hl : language? ('^' :: '^' :: t) = none := rfl
    simp only [literal, h, hl, hq, Except.map]
  case term_literal h =>
    exact (Shape.firstOf_misfit h _).trans (Shape.firstOf_undeclared (Shape.map_error hq _))
  case term_prefixed h =>
    exact (Shape.firstOf_misfit h _).trans (Shape.firstOf_undeclared (Shape.map_error hq _))
  case term_name h =>
    exact (Shape.firstOf_misfit h _).trans (Shape.firstOf_undeclared (Shape.map_error hq _))
  case pattern_subject => simp only [pattern, bind, Except.bind, hq]
  case pattern_predicate h => simp only [pattern, bind, Except.bind, h, hq]
  case pattern_object h h' => simp only [pattern, bind, Except.bind, h, h', hq]
  case arguments_first => rw [arguments_eq, hq]
  case arguments_next h =>
    rw [arguments_eq, h]
    simp only [hq, Except.map]
  case functor_arguments h => simp only [functor, h, bind, Except.bind, hq]
  case rule_body =>
    rw [rule_eq]
    simp only [bind, Except.bind, hq]
  case rule_head h h' =>
    rw [rule_eq]
    simp only [bind, Except.bind, h, h', hq]
  case clause_pattern =>
    rw [clause_eq]
    exact Shape.firstOf_undeclared (Shape.map_error hq _)
  case clause_rule h =>
    rw [clause_eq]
    exact (Shape.firstOf_misfit h _).trans (Shape.firstOf_undeclared (Shape.map_error hq _))
  case clause_functor h =>
    rw [clause_eq]
    exact (Shape.firstOf_misfit h _).trans (Shape.firstOf_undeclared (Shape.map_error hq _))
  case clauses_first => rw [clauses_eq, hq]
  case clauses_next h =>
    rw [clauses_eq, h]
    simp only [hq, Except.map]

/-- The first shape that neither fits nor leaves the text to the others stops at an undeclared
name; without one, nothing fits. -/
lemma Shape.firstOf_stop {α : Type} {shapes : List (Shape α)} {stop : Stop}
    (h : firstOf shapes s = .error stop) : stop = .mismatch s ∨
      ∃ n, ∃ hn : n < shapes.length, Misfit (shapes.take n) s ∧ shapes[n] s = .error stop ∧
        ∃ rest, stop = .undeclared rest := by
  induction shapes with
  | nil => exact .inl (Except.error.inj h).symm
  | cons shape shapes ih =>
    rw [firstOf] at h
    split at h
    · next rest hshape =>
      obtain hstop | ⟨n, hn, hbefore, hread, hstop⟩ := ih h
      · exact .inl hstop
      · refine .inr ⟨n + 1, Nat.succ_lt_succ hn, ?_, hread, hstop⟩
        exact List.forall_mem_cons.2 ⟨⟨rest, hshape⟩, hbefore⟩
    · next hne =>
      cases stop with
      | mismatch rest => exact absurd h (hne rest)
      | undeclared rest => exact .inr ⟨0, Nat.succ_pos _, List.forall_mem_nil _, h, rest, rfl⟩

/-- A lexeme that does not fit stops where it began. -/
lemma Shape.lexeme_stop {α : Type} {read? : List Char → Option (α × List Char)} {stop : Stop}
    (h : lexeme read? s = .error stop) : read? s = none ∧ stop = .mismatch s := by
  unfold lexeme at h
  split at h
  · exact nomatch h
  · next hnone => exact ⟨hnone, (Except.error.inj h).symm⟩

lemma Shape.error_of_map {α β : Type} {shape : Shape α} {f : α → β} {stop : Stop}
    (h : shape.map f s = .error stop) : shape s = .error stop :=
  eq_error_of_map h

/-- Where a reader stops without a call that stops: at an end of its text or, for good, at an
undeclared name. -/
def StopsItself (ps : Prefixes) (p : Part) (s : List Char) : Stop → Prop
  | .mismatch rest => rest <:+ s
  | .undeclared rest => p = .resolvedName ∧ rest = s ∧ ∃ name, Undeclared ps s name

/-- The reader stops by itself, or as one of the readers that it calls. -/
def StopsThere (ps : Prefixes) (p : Part) (s : List Char) (stop : Stop) : Prop :=
  StopsItself ps p s stop ∨ ∃ i q t, Calls ps p s i q t ∧ q.stop? ps t = some stop

/-- A prefixed name stops at its own front. -/
lemma resolvedName_stop {stop : Stop} (h : resolvedName ps s = .error stop) :
    StopsThere ps .resolvedName s stop := by
  unfold resolvedName at h
  split at h
  · obtain rfl := Except.error.inj h
    exact .inl List.suffix_rfl
  · next name localName r hname =>
    split at h
    · exact nomatch h
    · next hnone =>
      obtain rfl := Except.error.inj h
      exact .inl ⟨rfl, rfl, name, localName, r, hname, Prefixes.resolve?_eq_none_iff.1 hnone⟩

lemma datatype_stop {stop : Stop} (h : datatype ps s = .error stop) :
    StopsThere ps .datatype s stop := by
  obtain rfl | ⟨n, hn, hbefore, hread, rest, rfl⟩ := Shape.firstOf_stop h
  · exact .inl List.suffix_rfl
  · obtain _ | _ | n := n
    · exact nomatch (Shape.lexeme_stop hread).2
    · have hiri : iri? s = none := by
        obtain ⟨r, hr⟩ := hbefore (Shape.lexeme iri?) List.mem_cons_self
        exact (Shape.lexeme_stop hr).1
      exact .inr ⟨0, .resolvedName, s, .datatype_name hiri, stopOf?_eq_some_iff.2 hread⟩
    · exact absurd hn (by simp)

/-- A literal stops in its datatype, or at what is no literal. -/
lemma literal_stop {stop : Stop} (h : literal ps s = .error stop) :
    StopsThere ps .literal s stop := by
  unfold literal at h
  split at h
  · obtain rfl := Except.error.inj h
    exact .inl List.suffix_rfl
  · next lexical r hq =>
    split at h
    · exact nomatch h
    · split at h
      · next t _ =>
        exact .inr ⟨0, .datatype, t, .literal_datatype hq,
          stopOf?_eq_some_iff.2 (eq_error_of_map h)⟩
      · exact nomatch h

lemma pattern_stop {stop : Stop} (h : pattern ps s = .error stop) :
    StopsThere ps .pattern s stop := by
  unfold pattern at h
  split at h
  · next s₀ =>
    obtain h₁ | ⟨⟨x, s₁⟩, h₁, h⟩ := bind_eq_error h
    · exact .inr ⟨0, .term, _, .pattern_subject, stopOf?_eq_some_iff.2 h₁⟩
    obtain h₂ | ⟨⟨y, s₂⟩, h₂, h⟩ := bind_eq_error h
    · exact .inr ⟨1, .term, _, .pattern_predicate h₁, stopOf?_eq_some_iff.2 h₂⟩
    obtain h₃ | ⟨⟨z, s₃⟩, h₃, h⟩ := bind_eq_error h
    · exact .inr ⟨2, .term, _, .pattern_object h₁ h₂, stopOf?_eq_some_iff.2 h₃⟩
    dsimp only at h
    split at h
    · exact nomatch h
    · -- the three terms are read, and no parenthesis follows
      obtain rfl := Except.error.inj h
      have e₁ := (consumes_term ps _ _ _ h₁).1.trans (skip_suffix s₀).1
      have e₂ := ((consumes_term ps _ _ _ h₂).1.trans (skipSeparators_suffix _)).trans e₁
      have e₃ := ((consumes_term ps _ _ _ h₃).1.trans (skipSeparators_suffix _)).trans e₂
      exact .inl (((skip_suffix _).1.trans e₃).trans (List.suffix_cons '(' s₀))
  · obtain rfl := Except.error.inj h
    exact .inl List.suffix_rfl

/-- Arguments stop for an undeclared prefix only, in one of the terms. -/
lemma arguments_stop {stop : Stop} (h : arguments ps s = .error stop) :
    StopsThere ps .arguments s stop := by
  rw [arguments_eq] at h
  split at h
  · next rest' ht =>
    obtain rfl := Except.error.inj h
    exact .inr ⟨0, .term, s, .arguments_first, stopOf?_eq_some_iff.2 ht⟩
  · exact nomatch h
  · next t r ht =>
    exact .inr ⟨1, .arguments, _, .arguments_next ht,
      stopOf?_eq_some_iff.2 (eq_error_of_map h)⟩

lemma functor_stop {stop : Stop} (h : functor ps s = .error stop) :
    StopsThere ps .functor s stop := by
  unfold functor at h
  split at h
  · next name s₀ hn =>
    obtain hargs | ⟨⟨args, r⟩, hargs, h⟩ := bind_eq_error h
    · exact .inr ⟨0, .arguments, _, .functor_arguments hn, stopOf?_eq_some_iff.2 hargs⟩
    dsimp only at h
    split at h
    · exact nomatch h
    · obtain rfl := Except.error.inj h
      have e := (arguments_suffix ps _ hargs).trans (skipSeparators_suffix s₀)
      exact .inl ((e.trans (List.suffix_cons '(' s₀)).trans (properEnd_of_name? hn).1)
  · obtain rfl := Except.error.inj h
    exact .inl List.suffix_rfl

lemma rule_stop {stop : Stop} (h : rule ps s = .error stop) : StopsThere ps .rule s stop := by
  by_cases hopen : ∃ s₀, s = '[' :: s₀
  · obtain ⟨s₀, rfl⟩ := hopen
    rw [rule_eq] at h
    obtain hbody | ⟨⟨body, s₁⟩, hbody, h⟩ := bind_eq_error h
    · exact .inr ⟨0, .clauses, _, .rule_body, stopOf?_eq_some_iff.2 hbody⟩
    have hsuffix := (clauses_suffix ps hbody).trans (body_suffix s₀)
    dsimp only at h
    split at h
    · obtain rfl := Except.error.inj h
      exact .inl (((skip_suffix s₁).1.trans hsuffix).trans (List.suffix_cons '[' s₀))
    · next s₂ harrow =>
      obtain hhead | ⟨⟨head, s₃⟩, hhead, h⟩ := bind_eq_error h
      · exact .inr ⟨1, .clauses, s₂, .rule_head hbody harrow, stopOf?_eq_some_iff.2 hhead⟩
      dsimp only at h
      split at h
      · exact nomatch h
      · obtain rfl := Except.error.inj h
        have hsuffix := (clauses_suffix ps hhead).trans (head_suffix hbody harrow)
        exact .inl (((skip_suffix s₃).1.trans hsuffix).trans (List.suffix_cons '[' s₀))
  · rw [rule_mismatch ps fun s₀ e => hopen ⟨s₀, e⟩] at h
    obtain rfl := Except.error.inj h
    exact .inl List.suffix_rfl

/-- A term stops at its front, or for an undeclared prefix in one of the shapes for it. -/
lemma term_stop {stop : Stop} (h : term ps s = .error stop) : StopsThere ps .term s stop := by
  obtain rfl | ⟨n, hn, hbefore, hread, rest, rfl⟩ := Shape.firstOf_stop h
  · exact .inl List.suffix_rfl
  · obtain _ | _ | _ | _ | _ | _ | _ | n := n
    · exact nomatch (Shape.lexeme_stop (Shape.error_of_map
        (f := fun name => Term.var (Variable.ofText name)) hread)).2
    · exact nomatch (Shape.lexeme_stop (Shape.error_of_map hread)).2
    · exact nomatch (Shape.lexeme_stop (Shape.error_of_map hread)).2
    · exact .inr ⟨0, .literal, s, .term_literal hbefore,
        stopOf?_eq_some_iff.2 (Shape.error_of_map hread)⟩
    · exact nomatch (Shape.lexeme_stop (Shape.error_of_map hread)).2
    · exact .inr ⟨1, .resolvedName, s, .term_prefixed hbefore,
        stopOf?_eq_some_iff.2 (Shape.error_of_map hread)⟩
    · exact nomatch (Shape.lexeme_stop (Shape.error_of_map hread)).2
    · exact absurd hn (by simp [termShapes])

/-- A clause stops at its front, or for an undeclared prefix in one of the shapes for it. -/
lemma clause_stop {stop : Stop} (h : clause ps s = .error stop) :
    StopsThere ps .clause s stop := by
  rw [clause_eq] at h
  obtain rfl | ⟨n, hn, hbefore, hread, rest, rfl⟩ := Shape.firstOf_stop h
  · exact .inl List.suffix_rfl
  · obtain _ | _ | _ | n := n
    · exact .inr ⟨0, .pattern, s, .clause_pattern,
        stopOf?_eq_some_iff.2 (Shape.error_of_map hread)⟩
    · exact .inr ⟨1, .rule, s, .clause_rule hbefore,
        stopOf?_eq_some_iff.2 (Shape.error_of_map hread)⟩
    · exact .inr ⟨2, .functor, s, .clause_functor hbefore,
        stopOf?_eq_some_iff.2 (Shape.error_of_map hread)⟩
    · exact absurd hn (by simp)

lemma clauses_stop {stop : Stop} (h : clauses ps s = .error stop) :
    StopsThere ps .clauses s stop := by
  rw [clauses_eq] at h
  split at h
  · next rest' hc =>
    obtain rfl := Except.error.inj h
    exact .inr ⟨0, .clause, _, .clauses_first, stopOf?_eq_some_iff.2 hc⟩
  · exact nomatch h
  · next c r hc =>
    exact .inr ⟨1, .clauses, r, .clauses_next hc,
      stopOf?_eq_some_iff.2 (eq_error_of_map h)⟩

/-- A reader stops by itself, or where one of its calls does. -/
theorem stop_cases {stop : Stop} (h : p.stop? ps s = some stop) : StopsThere ps p s stop := by
  cases p
  all_goals simp only [Part.stop?, stopOf?_eq_some_iff] at h
  case name =>
    obtain rfl := (Shape.lexeme_stop h).2
    exact .inl List.suffix_rfl
  case resolvedName => exact resolvedName_stop h
  case datatype => exact datatype_stop h
  case literal => exact literal_stop h
  case term => exact term_stop h
  case pattern => exact pattern_stop h
  case arguments => exact arguments_stop h
  case functor => exact functor_stop h
  case rule => exact rule_stop h
  case clause => exact clause_stop h
  case clauses => exact clauses_stop h

/-! ## What the calls lead to -/

/-- Readers are called on ends of the text. -/
lemma Reaches.suffix (h : Reaches ps p s q t) : t <:+ s := by
  induction h with
  | here => exact List.suffix_rfl
  | through hcall _ ih => exact ih.trans hcall.below.1

/-- What a reader stops at is an end of its text, however deep the stop lies. -/
theorem stop_suffix (p : Part) (s : List Char) :
    ∀ stop, p.stop? ps s = some stop → stop.rest <:+ s := by
  induction p, s using calls_induction ps with
  | step p s ih =>
    intro stop h
    obtain hself | ⟨i, q, t, hcall, hstop⟩ := stop_cases h
    · cases stop with
      | mismatch rest => exact hself
      | undeclared rest => exact hself.2.1 ▸ List.suffix_rfl
    · exact (ih i q t hcall stop hstop).trans hcall.below.1

/-- An undeclared prefix stops the reader of prefixed names. -/
lemma Undeclared.stop {name : String} (h : Undeclared ps s name) :
    Part.resolvedName.stop? ps s = some (.undeclared s) := by
  obtain ⟨localName, rest, hname, hnone⟩ := h
  rw [Part.stop?, stopOf?_eq_some_iff]
  simp only [resolvedName, hname, Prefixes.resolve?_eq_none_iff.2 hnone]

/-- A stop at an undeclared name goes through all the readers that lead to it. -/
lemma Reaches.stop (h : Reaches ps p s q t) (hq : q.stop? ps t = some (.undeclared rest)) :
    p.stop? ps s = some (.undeclared rest) := by
  induction h with
  | here => exact hq
  | through hcall _ ih => exact hcall.undeclared (ih hq)

/-- A reader that stops for an undeclared prefix has called the one of prefixed names there. -/
lemma reaches_of_stop (p : Part) (s : List Char) :
    p.stop? ps s = some (.undeclared rest) →
      Reaches ps p s .resolvedName rest ∧ ∃ name, Undeclared ps rest name := by
  induction p, s using calls_induction ps with
  | step p s ih =>
    intro h
    obtain ⟨rfl, rfl, hname⟩ | ⟨i, q, t, hcall, hstop⟩ := stop_cases h
    · exact ⟨.here, hname⟩
    · obtain ⟨hreach, hname⟩ := ih i q t hcall hstop
      exact ⟨.through hcall hreach, hname⟩

/-- A reader stops for good exactly where its calls lead to an undeclared name. -/
theorem stop_iff_reaches : p.stop? ps s = some (.undeclared rest) ↔
    Reaches ps p s .resolvedName rest ∧ ∃ name, Undeclared ps rest name := by
  constructor
  · exact reaches_of_stop p s
  · rintro ⟨hreach, name, hname⟩
    exact hreach.stop hname.stop

/-- A shape that does not fit does not stop for an undeclared prefix. -/
lemma Misfit.ne_undeclared {α β : Type} {shapes : List (Shape β)} {shape : Shape α} {f : α → β}
    (h : Misfit shapes s) (hm : shape.map f ∈ shapes) : shape s ≠ .error (.undeclared rest) := by
  intro hshape
  obtain ⟨r, hr⟩ := h _ hm
  rw [Shape.map_error hshape] at hr
  exact nomatch hr

/-- A reader makes no call after one that stops at an undeclared name. -/
theorem Calls.le_of_undeclared {q' : Part} {t' : List Char} {j : Nat} (h : Calls ps p s i q t)
    (hq : q.stop? ps t = some (.undeclared rest)) (h' : Calls ps p s j q' t') : j ≤ i := by
  -- a call is made on the condition that those before it did not stop in this way
  cases h' with
  | datatype_name | literal_datatype | term_literal | pattern_subject | arguments_first
    | functor_arguments | rule_body | clause_pattern | clauses_first => exact Nat.zero_le i
  | term_prefixed hbefore =>
    cases h with
    | term_literal =>
      have hm : (literal ps).map Term.literal ∈ (termShapes ps).take 5 := by simp [termShapes]
      exact absurd (stopOf?_eq_some_iff.1 hq) (hbefore.ne_undeclared hm)
    | term_prefixed => exact le_rfl
    | term_name => exact Nat.le_succ 1
  | term_name hbefore =>
    cases h with
    | term_literal =>
      have hm : (literal ps).map Term.literal ∈ (termShapes ps).take 6 := by simp [termShapes]
      exact absurd (stopOf?_eq_some_iff.1 hq) (hbefore.ne_undeclared hm)
    | term_prefixed =>
      have hm : (resolvedName ps).map Term.iri ∈ (termShapes ps).take 6 := by simp [termShapes]
      exact absurd (stopOf?_eq_some_iff.1 hq) (hbefore.ne_undeclared hm)
    | term_name => exact le_rfl
  | pattern_predicate h₁ =>
    cases h with
    | pattern_subject => cases h₁.symm.trans (stopOf?_eq_some_iff.1 hq)
    | pattern_predicate => exact le_rfl
    | pattern_object => exact Nat.le_succ 1
  | pattern_object h₁ h₂ =>
    cases h with
    | pattern_subject => cases h₁.symm.trans (stopOf?_eq_some_iff.1 hq)
    | pattern_predicate h₁' =>
      obtain ⟨-, rfl⟩ := Prod.mk.inj (Except.ok.inj (h₁.symm.trans h₁'))
      cases h₂.symm.trans (stopOf?_eq_some_iff.1 hq)
    | pattern_object => exact le_rfl
  | arguments_next h₁ =>
    cases h with
    | arguments_first => cases h₁.symm.trans (stopOf?_eq_some_iff.1 hq)
    | arguments_next => exact le_rfl
  | rule_head h₁ =>
    cases h with
    | rule_body => cases h₁.symm.trans (stopOf?_eq_some_iff.1 hq)
    | rule_head => exact le_rfl
  | clause_rule hbefore =>
    cases h with
    | clause_pattern =>
      exact absurd (stopOf?_eq_some_iff.1 hq) (hbefore.ne_undeclared List.mem_cons_self)
    | clause_rule => exact le_rfl
    | clause_functor => exact Nat.le_succ 1
  | clause_functor hbefore =>
    cases h with
    | clause_pattern =>
      exact absurd (stopOf?_eq_some_iff.1 hq) (hbefore.ne_undeclared List.mem_cons_self)
    | clause_rule =>
      have hm : (rule ps).map Rule.toClause ∈
          [(pattern ps).map Clause.pattern, (rule ps).map Rule.toClause] := by simp
      exact absurd (stopOf?_eq_some_iff.1 hq) (hbefore.ne_undeclared hm)
    | clause_functor => exact le_rfl
  | clauses_next h₁ =>
    cases h with
    | clauses_first => cases h₁.symm.trans (stopOf?_eq_some_iff.1 hq)
    | clauses_next => exact le_rfl

end

end RuleFlow.Reader
