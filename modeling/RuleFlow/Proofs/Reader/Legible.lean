import Mathlib.Data.List.TakeWhile
import RuleFlow.Reader.Document
import RuleFlow.Proofs.Clause.Substitution

/-!
# Legible clauses

Not every term that the types allow has a written form that reads back: an IRI may hold no
closing bracket, a variable's name no space. `Legible` says of terms, functors and clauses that
their parts are made of the characters that the reader takes for them.

Everything that the reader yields is legible, whatever the prefixes stand for, as long as their
namespaces were declared by the reader too (`legible_of_document`, `legible_of_clauseList`).
-/

namespace RuleFlow

namespace Reader

/-- A text of characters of one class, at least one. -/
def IsRun (p : Char → Bool) (text : String) : Prop :=
  text.toList ≠ [] ∧ ∀ c ∈ text.toList, p c = true

/-- A text that may stand between angle brackets. -/
def IsIri (text : String) : Prop := ∀ c ∈ text.toList, isIriChar c = true

/-- A text that names a functor or a rule. -/
def IsName (text : String) : Prop :=
  (∃ c ∈ text.toList.head?, isNameStart c = true) ∧ IsRun isNameChar text

/-- A language tag in small letters. -/
def IsTag (text : String) : Prop := IsRun isTagChar text ∧ Text.lowerAscii text = text

end Reader

open Reader

/-- The tag or the datatype of the literal can be written. -/
def Literal.Legible (l : Literal) : Prop :=
  match l.kind with
  | .plain => True
  | .tagged language => IsTag language
  | .typed datatype => IsIri datatype

/-- The term has a written form that reads as this term. -/
def Term.Legible : Term → Prop
  | .var v => IsRun isPlainChar v.name
  | .iri name => IsIri name
  | .literal l => l.Legible
  | .blank label => IsRun isLocalChar label

/-- The terms of the pattern are legible. -/
def Pattern.Legible (p : Pattern) : Prop := ∀ t ∈ p.terms, t.Legible

/-- The name of the functor is one and its arguments are legible. -/
def Functor.Legible (f : Functor) : Prop := IsName f.name ∧ ∀ t ∈ f.args, t.Legible

/-- The parts of the clause are legible, down to the terms. -/
inductive Clause.Legible : Clause → Prop
  | pattern {p : Pattern} (h : p.Legible) : Clause.Legible (.pattern p)
  | functor {f : Functor} (h : f.Legible) : Clause.Legible (.functor f)
  | nested {name : Option String} {body head : List Clause} (hn : ∀ n ∈ name, IsName n)
      (hb : ∀ c ∈ body, Clause.Legible c) (hh : ∀ c ∈ head, Clause.Legible c) :
      Clause.Legible (.nested name body head)

/-- The name of the rule is one and its clauses are legible. -/
def Rule.Legible (r : Rule) : Prop := r.toClause.Legible

theorem Rule.Legible.isName {r : Rule} (h : r.Legible) {name : String} (hname : r.name = some name) :
    IsName name := by
  cases h with
  | nested hn => exact hn name hname

namespace Reader

/-! ## Classes of characters -/

/-- Letters and digits may stand in an IRI. -/
theorem isIriChar_of_isAlphanumeric {c : Char} (h : Text.isAlphanumeric c = true) :
    isIriChar c = true := by
  have hne : ∀ d : Char, d.toNat < 128 ∧ d.isAlphanum = false → c ≠ d := by
    rintro d ⟨hascii, hword⟩ rfl
    rw [Text.isAlphanumeric_of_ascii hascii, hword] at h
    exact Bool.noConfusion h
  have h₁ := hne '>' (by decide)
  have h₂ := hne ' ' (by decide)
  have h₃ := hne '\n' (by decide)
  have h₄ := hne '\r' (by decide)
  simp [isIriChar, h₁, h₂, h₃, h₄]

theorem isIriChar_of_isLocalChar {c : Char} (h : isLocalChar c = true) : isIriChar c = true := by
  simp only [isLocalChar, Bool.or_eq_true, decide_eq_true_eq] at h
  rcases h with (h | rfl) | rfl
  · exact isIriChar_of_isAlphanumeric h
  · decide
  · decide

theorem isIriChar_of_isNameChar {c : Char} (h : isNameChar c = true) : isIriChar c = true := by
  simp only [isNameChar, Bool.or_eq_true, decide_eq_true_eq] at h
  rcases h with ((h | rfl) | rfl) | rfl
  · exact isIriChar_of_isAlphanumeric h
  · decide
  · decide
  · decide

theorem isPlainChar_of_isBlank {c : Char} (h : Text.isBlank c = true) : isPlainChar c = false := by
  obtain ⟨r, hr, hfirst, hlast⟩ := CodeRange.covers_iff.1 h
  have hall : ∀ r ∈ Text.blankRanges, ∀ n ∈ List.range' r.first (r.last + 1 - r.first),
      isPlainChar (Char.ofNat n) = false := by decide +kernel
  have hc := hall r hr c.toNat (List.mem_range'_1.2 ⟨hfirst, by omega⟩)
  rwa [Char.ofNat_toNat] at hc

/-! ## Lexemes are legible -/

/-- What is read as a run is one. -/
theorem isRun_of_run? {p : Char → Bool} {s rest : List Char} {text : String}
    (h : run? p s = some (text, rest)) : IsRun p text := by
  unfold run? at h
  split at h
  · simp at h
  · next hne =>
    obtain ⟨rfl, -⟩ := Prod.mk.inj (Option.some.inj h)
    rw [IsRun, String.toList_ofList]
    exact ⟨by simpa using hne, fun c hc => List.mem_takeWhile_imp hc⟩

theorem isName_of_name? {s rest : List Char} {text : String}
    (h : name? s = some (text, rest)) : IsName text := by
  unfold name? at h
  split at h
  · next c s' =>
    split at h
    · next hstart =>
      refine ⟨⟨c, ?_, hstart⟩, isRun_of_run? h⟩
      unfold run? at h
      split at h
      · simp at h
      · next hne =>
        obtain ⟨rfl, -⟩ := Prod.mk.inj (Option.some.inj h)
        rw [String.toList_ofList]
        by_cases hc : isNameChar c = true
        · rw [List.takeWhile_cons_of_pos hc]
          rfl
        · rw [List.takeWhile_cons_of_neg hc] at hne
          exact absurd rfl hne
    · simp at h
  · simp at h

theorem isIri_of_iri? {s rest : List Char} {text : String}
    (h : iri? s = some (text, rest)) : IsIri text := by
  unfold iri? at h
  split at h
  · split at h
    · obtain ⟨rfl, -⟩ := Prod.mk.inj (Option.some.inj h)
      rw [IsIri, String.toList_ofList]
      exact fun c hc => List.mem_takeWhile_imp hc
    · simp at h
  · simp at h

/-- A name can be written between angle brackets. -/
theorem IsName.isIri {text : String} (h : IsName text) : IsIri text :=
  fun c hc => isIriChar_of_isNameChar (h.2.2 c hc)

theorem isRun_of_variableName? {s rest : List Char} {text : String}
    (h : variableName? s = some (text, rest)) : IsRun isPlainChar text := by
  unfold variableName? at h
  split at h
  · exact isRun_of_run? h
  · simp at h

theorem isRun_of_blankLabel? {s rest : List Char} {text : String}
    (h : blankLabel? s = some (text, rest)) : IsRun isLocalChar text := by
  unfold blankLabel? at h
  split at h
  · exact isRun_of_run? h
  · simp at h

/-- A text that does not begin with the start keeps all of its characters. -/
private lemma withoutStart_eq_self {start text : String}
    (h : ∀ rest, text.toList ≠ start.toList ++ rest) : Text.withoutStart start text = text := by
  unfold Text.withoutStart
  split
  · next rest hrest => exact absurd (Text.dropStart?_eq_some_iff.1 hrest) (h rest)
  · rfl

/-- The name of a variable has no question mark that would be dropped. -/
lemma ofText_of_isRun {name : String} (h : IsRun isPlainChar name) :
    Variable.ofText name = ⟨name⟩ := by
  refine congrArg Variable.mk (withoutStart_eq_self fun rest heq => ?_)
  have hmark := h.2 '?' (heq ▸ List.mem_cons_self)
  exact absurd hmark (ne_true_of_eq_false (isPlainChar_eq_false (by decide)))

/-- The label of a blank node has no mark that would be dropped. -/
lemma blankOfText_of_isRun {label : String} (h : IsRun isLocalChar label) :
    Term.blankOfText label = .blank label := by
  refine congrArg Term.blank (withoutStart_eq_self fun rest heq => ?_)
  have hcolon := h.2 ':' (heq ▸ List.mem_cons_of_mem _ List.mem_cons_self)
  exact absurd hcolon (ne_true_of_eq_false (isLocalChar_eq_false (by decide)))

theorem isRun_of_language? {s rest : List Char} {text : String}
    (h : language? s = some (text, rest)) : IsRun isTagChar text := by
  unfold language? at h
  split at h
  · exact isRun_of_run? h
  · simp at h

/-! ## Language tags -/

private lemma isLower_iff {c : Char} :
    c.isLower = true ↔ 97 ≤ c.val.toNat ∧ c.val.toNat ≤ 122 := by
  show (decide _ && decide _) = true ↔ _
  rw [Bool.and_eq_true, decide_eq_true_iff, decide_eq_true_iff, ge_iff_le,
    UInt32.le_iff_toNat_le, UInt32.le_iff_toNat_le]
  rfl

private lemma toLower_of_isLower {c : Char} (h : c.isLower = true) : c.toLower = c := by
  have hbounds := isLower_iff.1 h
  apply dif_neg
  intro hup
  have hz : c.val.toNat ≤ 90 := UInt32.le_iff_toNat_le.1 hup.2
  omega

/-- A small letter comes out, or the character itself. -/
private lemma toLower_eq_or_isLower (c : Char) : c.toLower = c ∨ c.toLower.isLower = true := by
  by_cases hup : c.val ≥ 'A'.val ∧ c.val ≤ 'Z'.val
  · have hbounds : 65 ≤ c.val.toNat ∧ c.val.toNat ≤ 90 :=
      ⟨UInt32.le_iff_toNat_le.1 hup.1, UInt32.le_iff_toNat_le.1 hup.2⟩
    have hlower : c.toLower.val = c.val + 32 := congrArg Char.val (dif_pos hup)
    have hval : c.toLower.val.toNat = c.val.toNat + 32 := by
      rw [hlower, UInt32.toNat_add]
      show (c.val.toNat + 32) % 4294967296 = _
      omega
    right
    rw [isLower_iff, hval]
    omega
  · exact .inl (dif_neg hup)

private lemma isTagChar_toLower {c : Char} (h : isTagChar c = true) :
    isTagChar c.toLower = true := by
  rcases toLower_eq_or_isLower c with hc | hc
  · rwa [hc]
  · have halpha : c.toLower.isAlphanum = true := by
      show ((c.toLower.isUpper || c.toLower.isLower) || c.toLower.isDigit) = true
      rw [hc, Bool.or_true, Bool.true_or]
    simp [isTagChar, Text.isAlphanumeric_of_isAlphanum halpha]

private lemma toLower_toLower (c : Char) : c.toLower.toLower = c.toLower := by
  rcases toLower_eq_or_isLower c with hc | hc
  · rw [hc, hc]
  · exact toLower_of_isLower hc

/-- A tag that was put in small letters is a tag still. -/
lemma isTag_lowerAscii {text : String} (h : IsRun isTagChar text) :
    IsTag (Text.lowerAscii text) := by
  have hlist : (Text.lowerAscii text).toList = text.toList.map Char.toLower := String.toList_map
  refine ⟨⟨?_, ?_⟩, ?_⟩
  · rw [hlist]
    exact fun hnil => h.1 (List.map_eq_nil_iff.1 hnil)
  · rw [hlist]
    intro c hc
    obtain ⟨d, hd, rfl⟩ := List.mem_map.1 hc
    exact isTagChar_toLower (h.2 d hd)
  · rw [← String.toList_inj, Text.lowerAscii, String.toList_map, hlist, List.map_map]
    exact List.map_congr_left fun c _ => toLower_toLower c

/-! ## What is read is legible -/

/-- What the shape yields for this text has a property. -/
def Shape.YieldsAt {α : Type} (shape : Shape α) (s : List Char) (P : α → Prop) : Prop :=
  ∀ a rest, shape s = .ok (a, rest) → P a

/-- Whatever the shape yields has a property. -/
def Shape.Yields {α : Type} (shape : Shape α) (P : α → Prop) : Prop :=
  ∀ s, shape.YieldsAt s P

/-- A lexeme yields what its reader finds. -/
theorem Shape.yields_lexeme {α : Type} {read? : List Char → Option (α × List Char)}
    {P : α → Prop} (h : ∀ s a rest, read? s = some (a, rest) → P a) : (lexeme read?).Yields P := by
  intro s a rest hs
  unfold lexeme at hs
  split at hs
  · next result hr =>
    obtain rfl := Except.ok.inj hs
    exact h s a rest hr
  · simp at hs

/-- What all of some shapes yield the first of them that fits yields. -/
theorem Shape.yieldsAt_firstOf {α : Type} {shapes : List (Shape α)} {s : List Char}
    {P : α → Prop} (h : ∀ shape ∈ shapes, shape.YieldsAt s P) :
    (firstOf shapes).YieldsAt s P := by
  induction shapes with
  | nil =>
    intro a rest hs
    simp [firstOf] at hs
  | cons shape shapes ih =>
    intro a rest hs
    unfold firstOf at hs
    split at hs
    · exact ih (fun shape hm => h shape (List.mem_cons_of_mem _ hm)) a rest hs
    · exact h shape List.mem_cons_self a rest hs

theorem Shape.YieldsAt.map {α β : Type} {shape : Shape α} {s : List Char} {P : α → Prop}
    {Q : β → Prop} (h : shape.YieldsAt s P) {f : α → β} (hf : ∀ a, P a → Q (f a)) :
    (shape.map f).YieldsAt s Q := by
  intro b rest hs
  unfold Shape.map at hs
  cases hr : shape s with
  | error stop => simp [hr, Except.map] at hs
  | ok result =>
    obtain ⟨a, r⟩ := result
    rw [hr] at hs
    obtain ⟨rfl, -⟩ := Prod.mk.inj (Except.ok.inj hs)
    exact hf a (h a r hr)

end Reader

/-- Every namespace of the table can be written between angle brackets. -/
def Prefixes.Legible (ps : Prefixes) : Prop := ∀ name iri, ps.find? name = some iri → IsIri iri

/-- Declaring a prefix for an IRI keeps the table legible. -/
theorem Prefixes.Legible.declare {ps : Prefixes} (h : ps.Legible) {name iri : String}
    (hiri : IsIri iri) : (ps.declare name iri).Legible := by
  intro other found hfound
  by_cases hname : other = name
  · rw [hname, Prefixes.declare, Table.find?_insert_self] at hfound
    exact Option.some.inj hfound ▸ hiri
  · rw [Prefixes.declare, Table.find?_insert_of_ne _ _ hname] at hfound
    exact h other found hfound

/-- The namespaces that are known from the start can be written. -/
theorem Prefixes.legible_standard : Prefixes.standard.Legible := by
  have hempty : Prefixes.Legible Table.empty := fun _ _ h => nomatch h
  have hrdf : IsIri Vocabulary.rdf := List.all_eq_true.1 (by decide +kernel)
  have hrdfs : IsIri Vocabulary.rdfs := List.all_eq_true.1 (by decide +kernel)
  have hxsd : IsIri Vocabulary.xsd := List.all_eq_true.1 (by decide +kernel)
  have howl : IsIri Vocabulary.owl := List.all_eq_true.1 (by decide +kernel)
  exact (((hempty.declare hrdf).declare hrdfs).declare hxsd).declare howl

namespace Reader

section
variable {ps : Prefixes} (hps : ps.Legible)
include hps

/-- A prefixed name is read as an IRI that can be written. -/
theorem resolvedName_yields : (resolvedName ps).Yields IsIri := by
  intro s iri rest hs
  unfold resolvedName at hs
  split at hs
  · simp at hs
  · next name localName r hname =>
    split at hs
    · next iri' hresolve =>
      obtain ⟨rfl, -⟩ := Prod.mk.inj (Except.ok.inj hs)
      obtain ⟨base, hbase, rfl⟩ := Option.map_eq_some_iff.1 hresolve
      -- the local part has none of the characters that end an IRI
      have hlocal : IsIri localName := by
        unfold prefixedName? at hname
        split at hname
        · obtain ⟨hpair, -⟩ := Prod.mk.inj (Option.some.inj hname)
          obtain ⟨-, rfl⟩ := Prod.mk.inj hpair
          rw [IsIri, String.toList_ofList]
          exact fun c hc => isIriChar_of_isLocalChar (List.mem_takeWhile_imp hc)
        · simp at hname
      rw [IsIri, String.toList_append]
      exact List.forall_mem_append.2 ⟨hps name base hbase, hlocal⟩
    · simp at hs

theorem datatype_yields : (datatype ps).Yields IsIri := by
  intro s
  apply Shape.yieldsAt_firstOf
  intro shape hm
  simp only [List.mem_cons, List.not_mem_nil, or_false] at hm
  rcases hm with rfl | rfl
  · exact Shape.yields_lexeme (fun _ _ _ => isIri_of_iri?) s
  · exact resolvedName_yields hps s

theorem literal_yields : (literal ps).Yields Literal.Legible := by
  intro s l rest hs
  obtain ⟨lexical, r, -, ⟨language, hl, rfl⟩ | ⟨t, iri, -, hd, rfl⟩ | ⟨-, -, -, rfl⟩⟩ :=
    literal_eq_ok_iff.1 hs
  · exact isTag_lowerAscii (isRun_of_language? hl)
  · exact datatype_yields hps t iri rest hd
  · exact trivial

omit hps in
/-- Numbers that are read are legible literals. -/
lemma legible_of_number? {s rest : List Char} {l : Literal} (h : number? s = some (l, rest)) :
    l.Legible := by
  have hdecimal : IsIri (Vocabulary.xsd ++ "decimal") := List.all_eq_true.1 (by decide +kernel)
  have hinteger : IsIri (Vocabulary.xsd ++ "integer") := List.all_eq_true.1 (by decide +kernel)
  unfold number? at h
  split at h
  · simp at h
  · split at h
    · obtain ⟨rfl, -⟩ := Prod.mk.inj (Option.some.inj h)
      exact hdecimal
    · obtain ⟨rfl, -⟩ := Prod.mk.inj (Option.some.inj h)
      exact hinteger

/-- Terms that are read are legible. -/
theorem term_yields : (term ps).Yields Term.Legible := by
  intro s
  apply Shape.yieldsAt_firstOf
  intro shape hm
  simp only [termShapes, List.mem_cons, List.not_mem_nil, or_false] at hm
  -- one case for each shape, in the order in which they are tried
  rcases hm with rfl | rfl | rfl | rfl | rfl | rfl | rfl
  · refine (Shape.yields_lexeme (fun _ _ _ => isRun_of_variableName?) s).map fun name h => ?_
    rwa [ofText_of_isRun h]
  · exact (Shape.yields_lexeme (fun _ _ _ => isIri_of_iri?) s).map fun _ h => h
  · refine (Shape.yields_lexeme (fun _ _ _ => isRun_of_blankLabel?) s).map fun label h => ?_
    rwa [blankOfText_of_isRun h]
  · exact (literal_yields hps s).map fun _ h => h
  · exact (Shape.yields_lexeme (fun _ _ _ => legible_of_number?) s).map fun _ h => h
  · exact (resolvedName_yields hps s).map fun _ h => h
  · exact (Shape.yields_lexeme (fun _ _ _ => isName_of_name?) s).map fun _ h => h.isIri

theorem pattern_yields : (pattern ps).Yields Pattern.Legible := by
  intro s p rest hs
  obtain ⟨s₀, s₁, s₂, s₃, rfl, h₁, h₂, h₃, -⟩ := pattern_eq_ok_iff.1 hs
  intro t ht
  simp only [Pattern.terms, List.mem_cons, List.not_mem_nil, or_false] at ht
  rcases ht with rfl | rfl | rfl
  · exact term_yields hps _ _ _ h₁
  · exact term_yields hps _ _ _ h₂
  · exact term_yields hps _ _ _ h₃

theorem arguments_yields : Shape.Yields (arguments ps) fun ts => ∀ t ∈ ts, t.Legible := by
  intro s ts rest hs
  fun_induction arguments ps s generalizing ts with
  | case1 => simp at hs
  | case2 =>
    obtain ⟨rfl, -⟩ := Prod.mk.inj (Except.ok.inj hs)
    exact fun t ht => absurd ht List.not_mem_nil
  | case3 => simp at hs
  | case4 s t r ht _ ts' rest' hr ih =>
    obtain ⟨rfl, rfl⟩ := Prod.mk.inj (Except.ok.inj hs)
    exact List.forall_mem_cons.2 ⟨term_yields hps s t r ht, ih ts' hr⟩

theorem functor_yields : (functor ps).Yields Functor.Legible := by
  intro s f rest hs
  obtain ⟨s₀, hn, hargs⟩ := functor_eq_ok_iff.1 hs
  exact ⟨isName_of_name? hn, arguments_yields hps _ _ _ hargs⟩

end

/-! ## Induction on what was read -/

lemma isName_of_ruleName {s : List Char} {name : String} (h : name ∈ (ruleName s).1) :
    IsName name := by
  unfold ruleName at h
  split at h
  · simp at h
  · next hn =>
    split at h
    · split at h
      · obtain rfl := Option.mem_some_iff.1 h
        exact isName_of_name? hn
      · simp at h
    · simp at h

theorem consumes_clause (ps : Prefixes) : (clause ps).Consumes := by
  intro s c rest hs
  rw [clause_eq] at hs
  refine Shape.consumes_firstOf (fun shape hm => ?_) s c rest hs
  simp only [List.mem_cons, List.not_mem_nil, or_false] at hm
  rcases hm with rfl | rfl | rfl
  · exact (consumes_pattern ps).map _
  · exact (consumes_rule ps).map _
  · exact (consumes_functor ps).map _

/-- Clauses leave an end of the text. -/
theorem clauses_suffix (ps : Prefixes) {s rest : List Char} {cs : List Clause}
    (h : clauses ps s = .ok (cs, rest)) : rest <:+ s := by
  unfold clauses at h
  cases hr : clausesWithin ps s with
  | error stop => simp [hr, forget, Except.map] at h
  | ok result =>
    rw [hr] at h
    obtain ⟨-, rfl⟩ := Prod.mk.inj (Except.ok.inj h)
    exact result.2.property

/-- The body of a rule is read from an end of the text behind the bracket, -/
lemma body_suffix (s₀ : List Char) : (ruleName (skip s₀)).2 <:+ s₀ :=
  (ruleName_suffix _).trans (skip_suffix s₀).1

/-- and so is its head. -/
lemma head_suffix {ps : Prefixes} {s₀ s₁ s₂ : List Char} {body : List Clause}
    (hbody : clauses ps (ruleName (skip s₀)).2 = .ok (body, s₁))
    (harrow : arrow? (skip s₁) = some s₂) : s₂ <:+ s₀ :=
  ((suffix_of_arrow? harrow).trans ((skip_suffix s₁).1.trans (clauses_suffix ps hbody))).trans
    (body_suffix s₀)

section
variable {ps : Prefixes} {P : Clause → Prop}

/-- A rule has the property when the lists of clauses in shorter texts do. -/
private lemma rule_yieldsAt {s : List Char}
    (hnested : ∀ name body head, (∀ n ∈ name, IsName n) → (∀ c ∈ body, P c) →
      (∀ c ∈ head, P c) → P (.nested name body head))
    (ih : ∀ t, t.length < s.length → (clauses ps).YieldsAt t fun cs => ∀ c ∈ cs, P c) :
    (rule ps).YieldsAt s fun r => P r.toClause := by
  intro r rest hs
  obtain ⟨s₀, s₁, s₂, s₃, rfl, hname, hbody, h₂, hhead, -⟩ := rule_eq_ok_iff.1 hs
  -- body and head are shorter than the rule
  refine hnested _ _ _ (fun n hn => isName_of_ruleName (hname ▸ hn))
    (ih _ ?_ r.body s₁ hbody) (ih _ ?_ r.head s₃ hhead)
  · exact Nat.lt_succ_of_le (body_suffix s₀).length_le
  · exact Nat.lt_succ_of_le (head_suffix hbody h₂).length_le

/-- What patterns and functors have when they are read, and nested rules when their clauses do,
every rule and every list of clauses has that is read. -/
theorem reading_induction (hpattern : (pattern ps).Yields fun p => P (.pattern p))
    (hfunctor : (functor ps).Yields fun f => P (.functor f))
    (hnested : ∀ name body head, (∀ n ∈ name, IsName n) → (∀ c ∈ body, P c) →
      (∀ c ∈ head, P c) → P (.nested name body head)) :
    ((rule ps).Yields fun r => P r.toClause) ∧ (clauses ps).Yields fun cs => ∀ c ∈ cs, P c := by
  suffices hclauses : ∀ n s, s.length = n → (clauses ps).YieldsAt s fun cs => ∀ c ∈ cs, P c from
    ⟨fun s => rule_yieldsAt hnested fun t _ => hclauses _ t rfl, fun s => hclauses _ s rfl⟩
  -- on the length of the text: a clause is shorter than the list that begins with it
  intro n
  induction n using Nat.strong_induction_on with
  | h n ih =>
    intro s hn cs rest hs
    have hclause : (clause ps).YieldsAt (skip s) P := by
      rw [Shape.YieldsAt, clause_eq]
      apply Shape.yieldsAt_firstOf
      intro shape hm
      simp only [List.mem_cons, List.not_mem_nil, or_false] at hm
      rcases hm with rfl | rfl | rfl
      · exact (hpattern _).map fun _ h => h
      · refine (rule_yieldsAt hnested fun t ht => ih _ ?_ t rfl).map fun _ h => h
        have := length_skip_le s
        omega
      · exact (hfunctor _).map fun _ h => h
    rw [clauses_eq] at hs
    split at hs
    · simp at hs
    · obtain ⟨rfl, -⟩ := Prod.mk.inj (Except.ok.inj hs)
      exact nofun
    · next c r hc =>
      cases hr : clauses ps r with
      | error stop => simp [hr, Except.map] at hs
      | ok result =>
        obtain ⟨cs', rest'⟩ := result
        rw [hr] at hs
        obtain ⟨rfl, -⟩ := Prod.mk.inj (Except.ok.inj hs)
        have hshort : r.length < n := by
          have h₁ := (consumes_clause ps _ _ _ hc).2
          have h₂ := length_skip_le s
          omega
        exact List.forall_mem_cons.2 ⟨hclause c r hc, ih _ hshort r rfl cs' rest' hr⟩

end

section
variable {ps : Prefixes} (hps : ps.Legible)
include hps

/-- Rules that are read are legible. -/
theorem rule_yields : (rule ps).Yields Rule.Legible :=
  (reading_induction (fun s p rest h => .pattern (pattern_yields hps s p rest h))
    (fun s f rest h => .functor (functor_yields hps s f rest h))
    fun _ _ _ => Clause.Legible.nested).1

/-- Clauses that are read are legible. -/
theorem clauses_yields : (clauses ps).Yields fun cs => ∀ c ∈ cs, c.Legible :=
  (reading_induction (fun s p rest h => .pattern (pattern_yields hps s p rest h))
    (fun s f rest h => .functor (functor_yields hps s f rest h))
    fun _ _ _ => Clause.Legible.nested).2

/-- Everything in a list of clauses that was read is legible. -/
theorem legible_of_clauseList {text : String} {cs : List Clause}
    (h : clauseList ps text = .ok cs) : ∀ c ∈ cs, c.Legible := by
  unfold clauseList at h
  split at h
  · simp at h
  · next cs' rest hr =>
    split at h
    · obtain rfl := Except.ok.inj h
      exact clauses_yields hps _ _ _ hr
    · simp at h

end

lemma isIri_of_declaration? {s rest : List Char} {name iri : String}
    (h : declaration? s = some ((name, iri), rest)) : IsIri iri := by
  unfold declaration? at h
  split at h
  · split at h
    · next hiri =>
      obtain ⟨hpair, -⟩ := Prod.mk.inj (Option.some.inj h)
      obtain ⟨-, rfl⟩ := Prod.mk.inj hpair
      exact isIri_of_iri? hiri
    · simp at h
  · simp at h

/-- A document that is read has legible rules, and leaves a legible table of prefixes. -/
private lemma legible_of_documentFrom (full : List Char) {ps ps' : Prefixes} {s : List Char}
    {rules : List Rule} (hps : ps.Legible) (h : documentFrom full ps s = (ps', .ok rules)) :
    ps'.Legible ∧ ∀ r ∈ rules, r.Legible := by
  fun_induction documentFrom full ps s generalizing ps' rules with
  | case1 ps =>
    obtain ⟨rfl, hrules⟩ := Prod.mk.inj h
    obtain rfl := Except.ok.inj hrules
    exact ⟨hps, nofun⟩
  | case2 ps s c t hs _ r hd name iri rest hdeclared _ ih =>
    -- a declaration changes the table for what follows
    exact ih (hps.declare (isIri_of_declaration? hdeclared)) h
  | case3 => simp at h
  | case4 ps s c t hs _ hd r rest hrule _ ps₁ results hrest ih =>
    obtain ⟨rfl, hrules⟩ := Prod.mk.inj h
    cases results with
    | error e => simp [Except.map] at hrules
    | ok rs =>
      obtain rfl := Except.ok.inj hrules
      obtain ⟨hps₁, hrs⟩ := ih hps hrest
      exact ⟨hps₁, List.forall_mem_cons.2 ⟨rule_yields hps _ _ _ hrule, hrs⟩⟩
  | case5 => simp at h

/-- Every rule of a document that was read is legible, and so is the table of prefixes that it
leaves. -/
theorem legible_of_document {ps ps' : Prefixes} {text : String} {rules : List Rule}
    (hps : ps.Legible) (h : document ps text = (ps', .ok rules)) :
    ps'.Legible ∧ ∀ r ∈ rules, r.Legible :=
  legible_of_documentFrom text.toList hps h

end Reader
end RuleFlow
