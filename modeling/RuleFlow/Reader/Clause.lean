import RuleFlow.Reader.Term
import RuleFlow.Clause.Basic

/-!
# Reading clauses and rules

A clause is a triple pattern, a rule or a functor, tried in this order. A list of clauses takes
clauses as long as they fit; what does not fit ends the list, except that a prefixed name
without a declaration stops everything.

`rule`, `clause` and `clauses` call one another. Their workers return the unread text with a
proof that it is shorter, by which the recursion ends; `rule_eq`, `clause_eq` and `clauses_eq`
say how the three are built from one another without mention of it.
-/

namespace RuleFlow.Reader

/-! ## Patterns and functors -/

/-- Three terms between parentheses. -/
def pattern (ps : Prefixes) : Shape Pattern := fun s =>
  match s with
  | '(' :: s₀ => do
    let (subject, s₁) ← term ps (skip s₀)
    let (predicate, s₂) ← term ps (skipSeparators s₁)
    let (object, s₃) ← term ps (skipSeparators s₂)
    match skip s₃ with
    | ')' :: rest => .ok (⟨subject, predicate, object⟩, rest)
    | other => .error (.mismatch other)
  | _ => .error (.mismatch s)

/-- Terms with separators behind each, as many as there are. -/
def arguments (ps : Prefixes) (s : List Char) : Except Stop (List Term × List Char) :=
  match h : term ps s with
  | .error (.undeclared rest) => .error (.undeclared rest)
  | .error (.mismatch _) => .ok ([], s)
  | .ok (t, r) =>
    have : (skipSeparators r).length < s.length :=
      Nat.lt_of_le_of_lt (skipSeparators_suffix r).length_le (consumes_term ps s t r h).2
    match arguments ps (skipSeparators r) with
    | .error stop => .error stop
    | .ok (ts, rest) => .ok (t :: ts, rest)
termination_by s.length

/-- Terms are read as long as one can be; an undeclared prefix stops the reader. -/
theorem arguments_eq (ps : Prefixes) (s : List Char) :
    arguments ps s = match term ps s with
      | .error (.undeclared rest) => .error (.undeclared rest)
      | .error (.mismatch _) => .ok ([], s)
      | .ok (t, r) => (arguments ps (skipSeparators r)).map fun (ts, rest) => (t :: ts, rest) := by
  rw [arguments]
  split
  · next h => simp only [h]
  · next h => simp only [h]
  · next t r h =>
    simp only [h]
    cases arguments ps (skipSeparators r) <;> rfl

/-- A name with arguments between parentheses behind it. -/
def functor (ps : Prefixes) : Shape Functor := fun s =>
  match name? s with
  | some (name, '(' :: s₀) => do
    let (args, s₁) ← arguments ps (skipSeparators s₀)
    match s₁ with
    | ')' :: rest => .ok (⟨name, args⟩, rest)
    | other => .error (.mismatch other)
  | _ => .error (.mismatch s)

/-- A pattern is three terms between parentheses. -/
theorem pattern_eq_ok_iff {ps : Prefixes} {s rest : List Char} {p : Pattern} :
    pattern ps s = .ok (p, rest) ↔ ∃ s₀ s₁ s₂ s₃, s = '(' :: s₀ ∧
      term ps (skip s₀) = .ok (p.subject, s₁) ∧
      term ps (skipSeparators s₁) = .ok (p.predicate, s₂) ∧
      term ps (skipSeparators s₂) = .ok (p.object, s₃) ∧ skip s₃ = ')' :: rest := by
  constructor
  · intro h
    unfold pattern at h
    split at h
    · next s₀ =>
      simp only [bind, Except.bind] at h
      split at h
      · exact nomatch h
      · next r₁ h₁ =>
        split at h
        · exact nomatch h
        · next r₂ h₂ =>
          split at h
          · exact nomatch h
          · next r₃ h₃ =>
            split at h
            · next h₄ =>
              obtain ⟨rfl, rfl⟩ := Prod.mk.inj (Except.ok.inj h)
              exact ⟨s₀, r₁.2, r₂.2, r₃.2, rfl, h₁, h₂, h₃, h₄⟩
            · exact nomatch h
    · exact nomatch h
  · rintro ⟨s₀, s₁, s₂, s₃, rfl, h₁, h₂, h₃, h₄⟩
    simp only [pattern, bind, Except.bind, h₁, h₂, h₃, h₄]

/-- A functor is a name with its arguments between parentheses behind it. -/
theorem functor_eq_ok_iff {ps : Prefixes} {s rest : List Char} {f : Functor} :
    functor ps s = .ok (f, rest) ↔ ∃ s₀, name? s = some (f.name, '(' :: s₀) ∧
      arguments ps (skipSeparators s₀) = .ok (f.args, ')' :: rest) := by
  constructor
  · intro h
    unfold functor at h
    split at h
    · next name s₀ hn =>
      simp only [bind, Except.bind] at h
      split at h
      · exact nomatch h
      · next r hr =>
        split at h
        · next s₁ hs₁ =>
          obtain ⟨rfl, rfl⟩ := Prod.mk.inj (Except.ok.inj h)
          exact ⟨s₀, hn, hs₁ ▸ hr⟩
        · exact nomatch h
    · exact nomatch h
  · rintro ⟨s₀, hn, hargs⟩
    simp only [functor, hn, bind, Except.bind, hargs]

/-- A pattern takes at least its parentheses. -/
theorem consumes_pattern (ps : Prefixes) : (pattern ps).Consumes := by
  intro s p rest hs
  obtain ⟨s₀, s₁, s₂, s₃, rfl, h₁, h₂, h₃, h₄⟩ := pattern_eq_ok_iff.1 hs
  have e₁ : s₁ <:+ s₀ := (consumes_term ps _ _ _ h₁).1.trans (skip_suffix s₀).1
  have e₂ : s₂ <:+ s₀ := ((consumes_term ps _ _ _ h₂).1.trans (skipSeparators_suffix s₁)).trans e₁
  have e₃ : s₃ <:+ s₀ := ((consumes_term ps _ _ _ h₃).1.trans (skipSeparators_suffix s₂)).trans e₂
  have e₄ : rest <:+ s₃ := (List.suffix_cons ')' rest).trans (h₄ ▸ (skip_suffix s₃).1)
  exact ProperEnd.of_cons (e₄.trans e₃)

/-- The reader of arguments leaves an end of the text. -/
theorem arguments_suffix (ps : Prefixes) (s : List Char) {ts : List Term} {rest : List Char}
    (h : arguments ps s = .ok (ts, rest)) : rest <:+ s := by
  fun_induction arguments ps s generalizing ts with
  | case1 => simp at h
  | case2 =>
    obtain ⟨-, rfl⟩ := Prod.mk.inj (Except.ok.inj h)
    exact List.suffix_rfl
  | case3 => simp at h
  | case4 s t r ht _ ts' rest' hr ih =>
    obtain ⟨-, rfl⟩ := Prod.mk.inj (Except.ok.inj h)
    exact ((ih hr).trans (skipSeparators_suffix r)).trans (consumes_term ps s t r ht).1

theorem consumes_functor (ps : Prefixes) : (functor ps).Consumes := by
  intro s f rest hs
  obtain ⟨s₀, hn, hargs⟩ := functor_eq_ok_iff.1 hs
  have e : ')' :: rest <:+ s₀ := (arguments_suffix ps _ hargs).trans (skipSeparators_suffix s₀)
  have e' : rest <:+ '(' :: s₀ := ((List.suffix_cons ')' rest).trans e).trans (List.suffix_cons _ _)
  exact (properEnd_of_name? hn).of_suffix e'

/-! ## Rules -/

/-- Whether a colon is followed by space, a clause or an arrow. A colon behind a name makes the
name a rule's only then. -/
def endsRuleName : List Char → Bool
  | [] => false
  | '-' :: '>' :: _ => true
  | c :: _ => Text.isSpacing c || c = '(' || c = '['

/-- The name of a rule with its colon, when the text begins with one. -/
def ruleName (s : List Char) : Option String × List Char :=
  match name? s with
  | none => (none, s)
  | some (name, r) =>
    match skip r with
    | ':' :: t => if endsRuleName t then (some name, skip t) else (none, s)
    | _ => (none, s)

/-- What follows the name of a rule is an end of the text. -/
theorem ruleName_suffix (s : List Char) : (ruleName s).2 <:+ s := by
  unfold ruleName
  split
  · exact List.suffix_rfl
  · next name r hn =>
    split
    · next t ht =>
      split
      · have e : t <:+ r := (List.suffix_cons ':' t).trans (ht ▸ (skip_suffix r).1)
        exact ((skip_suffix t).1.trans e).trans (properEnd_of_name? hn).1
      · exact List.suffix_rfl
    · exact List.suffix_rfl

/-- What follows an arrow. -/
def arrow? : List Char → Option (List Char)
  | '-' :: '>' :: s => some s
  | _ => none

theorem arrow?_eq_some_iff {s rest : List Char} :
    arrow? s = some rest ↔ s = '-' :: '>' :: rest := by
  constructor
  · intro h
    unfold arrow? at h
    split at h
    · rw [Option.some.inj h]
    · exact nomatch h
  · rintro rfl
    rfl

theorem suffix_of_arrow? {s rest : List Char} (h : arrow? s = some rest) : rest <:+ s := by
  rw [arrow?_eq_some_iff.1 h]
  exact (List.suffix_cons _ _).trans (List.suffix_cons _ _)

mutual

/-- The worker of `rule`. -/
def ruleWithin (ps : Prefixes) (s : List Char) :
    Except Stop (Rule × { rest : List Char // ProperEnd rest s }) :=
  match s with
  | '[' :: s₀ =>
    have h₀ : (ruleName (skip s₀)).2 <:+ s₀ := (ruleName_suffix _).trans (skip_suffix s₀).1
    have : (ruleName (skip s₀)).2.length ≤ s₀.length := h₀.length_le
    match clausesWithin ps (ruleName (skip s₀)).2 with
    | .error stop => .error stop
    | .ok (body, ⟨s₁, h₁⟩) =>
      match h₂ : arrow? (skip s₁) with
      | none => .error (.mismatch (skip s₁))
      | some s₂ =>
        have e₂ : s₂ <:+ s₀ := (((suffix_of_arrow? h₂).trans (skip_suffix s₁).1).trans h₁).trans h₀
        have : s₂.length ≤ s₀.length := e₂.length_le
        match clausesWithin ps s₂ with
        | .error stop => .error stop
        | .ok (head, ⟨s₃, h₃⟩) =>
          match h₄ : skip s₃ with
          | ']' :: rest =>
            .ok (⟨(ruleName (skip s₀)).1, body, head⟩, ⟨rest, ProperEnd.of_cons
              ((((List.suffix_cons _ _).trans (h₄ ▸ (skip_suffix s₃).1)).trans h₃).trans e₂)⟩)
          | other => .error (.mismatch other)
  | _ => .error (.mismatch s)
termination_by 3 * s.length

/-- The worker of `clause`. -/
def clauseWithin (ps : Prefixes) (s : List Char) :
    Except Stop (Clause × { rest : List Char // ProperEnd rest s }) :=
  match h : pattern ps s with
  | .ok (p, rest) => .ok (.pattern p, ⟨rest, consumes_pattern ps s p rest h⟩)
  | .error (.undeclared rest) => .error (.undeclared rest)
  | .error (.mismatch _) =>
    match ruleWithin ps s with
    | .ok (r, rest) => .ok (r.toClause, rest)
    | .error (.undeclared rest) => .error (.undeclared rest)
    | .error (.mismatch _) =>
      match h' : functor ps s with
      | .ok (f, rest) => .ok (.functor f, ⟨rest, consumes_functor ps s f rest h'⟩)
      | .error (.undeclared rest) => .error (.undeclared rest)
      | .error (.mismatch _) => .error (.mismatch s)
termination_by 3 * s.length + 1

/-- The worker of `clauses`. -/
def clausesWithin (ps : Prefixes) (s : List Char) :
    Except Stop (List Clause × { rest : List Char // rest <:+ s }) :=
  have : (skip s).length ≤ s.length := length_skip_le s
  match clauseWithin ps (skip s) with
  | .error (.undeclared rest) => .error (.undeclared rest)
  | .error (.mismatch _) => .ok ([], ⟨s, List.suffix_rfl⟩)
  | .ok (c, ⟨r, h⟩) =>
    have : r.length < (skip s).length := h.2
    match clausesWithin ps r with
    | .error stop => .error stop
    | .ok (cs, ⟨rest, h'⟩) => .ok (c :: cs, ⟨rest, (h'.trans h.1).trans (skip_suffix s).1⟩)
termination_by 3 * s.length + 2

end

/-- What was read, without the proof about the unread text. -/
def forget {α : Type} {P : List Char → Prop} (result : Except Stop (α × { rest // P rest })) :
    Except Stop (α × List Char) :=
  result.map fun (a, rest) => (a, rest.val)

@[simp] theorem forget_ok {α : Type} {P : List Char → Prop} (a : α) (rest : { rest // P rest }) :
    forget (.ok (a, rest)) = .ok (a, rest.val) := rfl

@[simp] theorem forget_error {α : Type} {P : List Char → Prop} (stop : Stop) :
    forget (.error stop : Except Stop (α × { rest // P rest })) = .error stop := rfl

/-- A rule: between brackets an optional name with a colon, the clauses of the body, an arrow
and the clauses of the head. -/
def rule (ps : Prefixes) : Shape Rule := fun s => forget (ruleWithin ps s)

/-- A triple pattern, a rule or a functor. -/
def clause (ps : Prefixes) : Shape Clause := fun s => forget (clauseWithin ps s)

/-- Clauses with space before each, as many as there are. -/
def clauses (ps : Prefixes) : Shape (List Clause) := fun s => forget (clausesWithin ps s)

/-- A clause is the first of a pattern, a rule and a functor that can be read. -/
theorem clause_eq (ps : Prefixes) (s : List Char) :
    clause ps s = Shape.firstOf [(pattern ps).map .pattern, (rule ps).map Rule.toClause,
      (functor ps).map .functor] s := by
  unfold clause
  rw [clauseWithin]
  simp only [Shape.firstOf, Shape.map, rule]
  split
  · next h => simp [h, forget, Except.map]
  · next h => simp [h, forget, Except.map]
  · next h =>
    rw [h]
    cases ruleWithin ps s with
    | ok r => rfl
    | error stop =>
      cases stop with
      | undeclared rest => rfl
      | mismatch rest =>
        simp only [forget_error]
        split
        · next h' => simp [h', Except.map]
        · next h' => simp [h', Except.map]
        · next h' => simp [h', Except.map]

/-- Clauses are read as long as one can be; an undeclared prefix stops the reader. -/
theorem clauses_eq (ps : Prefixes) (s : List Char) :
    clauses ps s = match clause ps (skip s) with
      | .error (.undeclared rest) => .error (.undeclared rest)
      | .error (.mismatch _) => .ok ([], s)
      | .ok (c, r) => (clauses ps r).map fun (cs, rest) => (c :: cs, rest) := by
  unfold clauses
  rw [clausesWithin]
  unfold clause
  cases clauseWithin ps (skip s) with
  | error stop => cases stop <;> simp [forget, Except.map]
  | ok result =>
    obtain ⟨c, r, h⟩ := result
    simp only [forget, Except.map]
    cases clausesWithin ps r <;> simp

/-- The clauses that are read end where no clause fits, and the space there is left. -/
theorem clauses_eq_ok_iff {ps : Prefixes} {s rest : List Char} {cs : List Clause} :
    clauses ps s = .ok (cs, rest) ↔
      (cs = [] ∧ rest = s ∧ ∃ r, clause ps (skip s) = .error (.mismatch r)) ∨
      ∃ c cs' r, cs = c :: cs' ∧ clause ps (skip s) = .ok (c, r) ∧
        clauses ps r = .ok (cs', rest) := by
  rw [clauses_eq]
  cases clause ps (skip s) with
  | error stop =>
    cases stop with
    | undeclared r => simp
    | mismatch r => simp [eq_comm]
  | ok result =>
    obtain ⟨c, r⟩ := result
    cases hr : clauses ps r with
    | error stop => simp [Except.map, hr]
    | ok result => simp [Except.map, hr, eq_comm, Prod.ext_iff, and_comm, and_assoc]

/-- The reader of rules behind the opening bracket, step by step. -/
theorem rule_eq (ps : Prefixes) (s₀ : List Char) :
    rule ps ('[' :: s₀) = (do
      let (body, s₁) ← clauses ps (ruleName (skip s₀)).2
      match arrow? (skip s₁) with
      | none => .error (.mismatch (skip s₁))
      | some s₂ =>
        let (head, s₃) ← clauses ps s₂
        match skip s₃ with
        | ']' :: rest => .ok (⟨(ruleName (skip s₀)).1, body, head⟩, rest)
        | other => .error (.mismatch other)) := by
  unfold rule
  rw [ruleWithin]
  unfold clauses
  cases clausesWithin ps (ruleName (skip s₀)).2 with
  | error stop => rfl
  | ok result =>
    obtain ⟨body, s₁, h₁⟩ := result
    simp only [forget_ok, bind, Except.bind]
    split
    · next h => simp [h]
    · next s₂ h =>
      simp only [h]
      cases clausesWithin ps s₂ with
      | error stop => rfl
      | ok result =>
        obtain ⟨head, s₃, h₃⟩ := result
        simp only [forget_ok]
        split
        · next h₄ => simp [h₄]
        · next hne => split <;> simp_all

/-- A text that does not begin with a bracket is no rule. -/
theorem rule_mismatch (ps : Prefixes) {s : List Char} (h : ∀ s₀, s ≠ '[' :: s₀) :
    rule ps s = .error (.mismatch s) := by
  unfold rule
  cases s with
  | nil =>
    rw [ruleWithin]
    · rfl
    · exact nofun
  | cons c s =>
    by_cases hc : c = '['
    · exact absurd (hc ▸ rfl) (h s)
    · rw [ruleWithin]
      · rfl
      · exact fun s₀ e => h s₀ e

/-- A rule is a name, if any, with its body, an arrow and its head between brackets. -/
theorem rule_eq_ok_iff {ps : Prefixes} {s rest : List Char} {r : Rule} :
    rule ps s = .ok (r, rest) ↔ ∃ s₀ s₁ s₂ s₃, s = '[' :: s₀ ∧ (ruleName (skip s₀)).1 = r.name ∧
      clauses ps (ruleName (skip s₀)).2 = .ok (r.body, s₁) ∧ arrow? (skip s₁) = some s₂ ∧
      clauses ps s₂ = .ok (r.head, s₃) ∧ skip s₃ = ']' :: rest := by
  constructor
  · intro h
    obtain ⟨s₀, rfl⟩ : ∃ s₀, s = '[' :: s₀ := by
      refine Classical.byContradiction fun hopen => ?_
      rw [rule_mismatch ps fun s₀ e => hopen ⟨s₀, e⟩] at h
      exact nomatch h
    rw [rule_eq] at h
    simp only [bind, Except.bind] at h
    split at h
    · exact nomatch h
    · next b hb =>
      split at h
      · exact nomatch h
      · next s₂ h₂ =>
        split at h
        · exact nomatch h
        · next d hd =>
          split at h
          · next h₄ =>
            obtain ⟨rfl, rfl⟩ := Prod.mk.inj (Except.ok.inj h)
            exact ⟨s₀, b.2, s₂, d.2, rfl, rfl, hb, h₂, hd, h₄⟩
          · exact nomatch h
  · rintro ⟨s₀, s₁, s₂, s₃, rfl, hname, hbody, h₂, hhead, h₄⟩
    rw [rule_eq]
    simp only [bind, Except.bind, hbody, h₂, hhead, h₄, hname]

/-- A rule takes at least its brackets. -/
theorem consumes_rule (ps : Prefixes) : (rule ps).Consumes := by
  intro s r rest hs
  unfold rule at hs
  cases hr : ruleWithin ps s with
  | error stop => simp [hr, forget, Except.map] at hs
  | ok result =>
    rw [hr] at hs
    obtain ⟨-, rfl⟩ := Prod.mk.inj (Except.ok.inj hs)
    exact result.2.property

end RuleFlow.Reader
