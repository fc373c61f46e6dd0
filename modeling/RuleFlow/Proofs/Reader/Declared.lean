import RuleFlow.Proofs.Reader.ReadBack

/-!
# Declared prefixes in use

A declaration is accepted for every prefix of letters, numbers and underscores and every
namespace without a space, a line break or a closing bracket (`accepted_iff`). Behind two carets
a prefixed name is then read as the datatype that it stands for. As a term it comes after the
other shapes, and two of them can take what it begins with: `_` and a colon begin a blank node,
and a digit begins a number. `declaredTerm` is what is read when it is not a number
(`declared_prefix_read`).
-/

namespace RuleFlow.Reader

/-! ## Declarations -/

/-- The declaration of a prefix for a namespace. -/
def directive (name namespaceIri : String) : String :=
  "@prefix " ++ name ++ ": <" ++ namespaceIri ++ "> ."

/-- The declaration is read as such, to its end. -/
def Accepted (name namespaceIri : String) : Prop :=
  declaration? (" " ++ name ++ ": <" ++ namespaceIri ++ "> .").toList =
    some ((name, namespaceIri), [])

/-- A prefix with the colon behind it does not begin with space. -/
lemma solid_before_colon {name : List Char} (h : ∀ c ∈ name, isPlainChar c = true) (s : List Char) :
    Solid (name ++ ':' :: s) := by
  cases name with
  | nil => exact ⟨':', s, rfl, by decide⟩
  | cons c name => exact solid_of_isPlainChar (h c List.mem_cons_self) _

theorem accepted_iff {name namespaceIri : String} : Accepted name namespaceIri ↔
    (∀ c ∈ name.toList, isPlainChar c = true) ∧ IsIri namespaceIri := by
  constructor
  · intro h
    refine ⟨?_, isIri_of_declaration? h⟩
    unfold Accepted declaration? at h
    split at h
    · split at h
      · obtain ⟨hname, -⟩ := Prod.mk.inj (Prod.mk.inj (Option.some.inj h)).1
        rw [← hname, String.toList_ofList]
        exact fun c hc => List.mem_takeWhile_imp hc
      · exact nomatch h
    · exact nomatch h
  · rintro ⟨hname, hiri⟩
    have htext : (" " ++ name ++ ": <" ++ namespaceIri ++ "> .").toList =
        ' ' :: (name.toList ++
          ':' :: ' ' :: '<' :: (namespaceIri.toList ++ '>' :: [' ', '.'])) := by
      simp [String.toList_append]
    have hcolon : Stops isPlainChar
        (':' :: ' ' :: '<' :: (namespaceIri.toList ++ '>' :: [' ', '.'])) :=
      stops_cons (isPlainChar_eq_false (by decide)) _
    have hopen : ∀ s, skip (' ' :: '<' :: s) = '<' :: s := fun s =>
      (skip_space _).trans (skip_of_solid ⟨'<', s, rfl, by decide⟩)
    have hdot : dropDot (skip ['.']) = [] := by decide
    rw [Accepted, htext]
    simp only [declaration?, skip_space, skip_of_solid (solid_before_colon hname _),
      dropWhile_append hname hcolon, takeWhile_append hname hcolon, hopen, iri?_append hiri, hdot,
      String.ofList_toList]

/-- An accepted declaration is a document without rules that declares its prefix. -/
lemma document_directive {name namespaceIri : String} (h : Accepted name namespaceIri)
    (ps : Prefixes) :
    document ps (directive name namespaceIri) = (ps.declare name namespaceIri, .ok []) := by
  have htext : (directive name namespaceIri).toList =
      directiveWord ++ (" " ++ name ++ ": <" ++ namespaceIri ++ "> .").toList := by
    have hword : directive name namespaceIri =
        "@prefix" ++ (" " ++ name ++ ": <" ++ namespaceIri ++ "> .") := by
      simp only [directive, show "@prefix " = "@prefix" ++ " " from rfl, String.append_assoc]
    rw [hword, String.toList_append]
    rfl
  have hskip : skip (directive name namespaceIri).toList =
      directiveWord ++ (" " ++ name ++ ": <" ++ namespaceIri ++ "> .").toList := by
    rw [htext]
    exact skip_of_solid ⟨'@', _, rfl, by decide⟩
  have hread : declaration? (" " ++ name ++ ": <" ++ namespaceIri ++ "> .").toList =
      some ((name, namespaceIri), []) := h
  rw [document, documentFrom_of_word hskip, hread]
  exact documentFrom_of_end rfl

/-! ## Prefixed names -/

/-- A prefixed name in a text. -/
def prefixedText (name localName : String) : String := name ++ ":" ++ localName

section
variable {ps : Prefixes} {name localName iri : String} {rest : List Char}

lemma prefixedText_append (name localName : String) (rest : List Char) :
    (prefixedText name localName).toList ++ rest =
      name.toList ++ ':' :: (localName.toList ++ rest) := by
  simp [prefixedText, String.toList_append]

/-- A prefixed name is read as far as the characters of a local name go. -/
lemma resolvedName_append (hname : ∀ c ∈ name.toList, isPlainChar c = true)
    (hlocal : ∀ c ∈ localName.toList, isLocalChar c = true) (hrest : Stops isLocalChar rest)
    (hiri : ps.resolve? name localName = some iri) :
    resolvedName ps ((prefixedText name localName).toList ++ rest) = .ok (iri, rest) := by
  have hcolon : Stops isPlainChar (':' :: (localName.toList ++ rest)) :=
    stops_cons (isPlainChar_eq_false (by decide)) _
  rw [prefixedText_append]
  simp only [resolvedName, prefixedName?, dropWhile_append hname hcolon,
    takeWhile_append hname hcolon, dropWhile_append hlocal hrest, takeWhile_append hlocal hrest,
    String.ofList_toList, hiri]

/-- What a prefixed name is read as, when its prefix is declared for the namespace. -/
def declaredTerm (name namespaceIri localName : String) : Term :=
  if name = "_" ∧ localName ≠ "" then .blank localName else .iri (namespaceIri ++ localName)

lemma run?_eq_none {p : Char → Bool} (h : Stops p rest) : run? p rest = none := by
  have hnil := takeWhile_append (l := []) nofun h
  rw [List.nil_append] at hnil
  simp [run?, hnil]

/-- The name begins no blank node, unless its prefix is an underscore and a label follows. -/
lemma blankLabel?_prefixedText (hname : ∀ c ∈ name.toList, isPlainChar c = true)
    (hplain : ¬(name = "_" ∧ localName ≠ "")) (hrest : Stops isLocalChar rest) :
    blankLabel? ((prefixedText name localName).toList ++ rest) = none := by
  rw [prefixedText_append]
  have hcolon : isPlainChar ':' = false := isPlainChar_eq_false (by decide)
  rcases hlist : name.toList with _ | ⟨c, _ | ⟨d, cs⟩⟩
  · rfl
  · by_cases hc : c = '_'
    · subst hc
      have hunder : name = "_" := String.toList_inj.1 hlist
      obtain rfl : localName = "" := not_not.1 fun hne => hplain ⟨hunder, hne⟩
      exact run?_eq_none hrest
    · simp [blankLabel?, hc]
  · have hd : d ≠ ':' := by
      rintro rfl
      exact absurd (hname ':' (by simp [hlist])) (ne_true_of_eq_false hcolon)
    simp [blankLabel?, hd]

/-- A prefixed name whose prefix is declared is read as a term, when it does not begin with a
digit. -/
lemma term_prefixedText {namespaceIri : String} (hname : ∀ c ∈ name.toList, isPlainChar c = true)
    (hdigit : ∀ c ∈ name.toList.head?, c.isDigit = false)
    (hlocal : ∀ c ∈ localName.toList, isLocalChar c = true)
    (hfind : ps.find? name = some namespaceIri) (hrest : AfterTerm rest) :
    term ps ((prefixedText name localName).toList ++ rest) =
      .ok (declaredTerm name namespaceIri localName, rest) := by
  have hstop : Stops isLocalChar rest :=
    hrest.stops (isLocalChar_eq_false (by decide)) (isLocalChar_eq_false (by decide))
  by_cases hblank : name = "_" ∧ localName ≠ ""
  · obtain ⟨rfl, hne⟩ := hblank
    have hlegible : (Term.blank localName).Legible := ⟨by simpa using hne, hlocal⟩
    have hrender : prefixedText "_" localName = (Term.blank localName).render := rfl
    rw [declaredTerm, if_pos ⟨rfl, hne⟩, hrender]
    exact term_render ps hlegible hrest
  · have hresolve : ps.resolve? name localName = some (namespaceIri ++ localName) := by
      simp [Prefixes.resolve?, hfind]
    have hmisfit :
        Misfit ((termShapes ps).take 5) ((prefixedText name localName).toList ++ rest) := by
      have hnone := blankLabel?_prefixedText hname hblank hstop
      rw [prefixedText_append] at hnone ⊢
      cases hlist : name.toList with
      | nil =>
        rw [hlist] at hnone
        exact misfit_before_prefixed ps (by decide) (by decide) hnone
      | cons c cs =>
        rw [hlist] at hnone
        have hmarks : ∀ d ∈ ['?', '<', '"', '+', '-'],
            d.toNat < 128 ∧ (d.isAlphanum || d = '_') = false := by
          simp only [List.forall_mem_cons, List.not_mem_nil, false_imp_iff, implies_true]
          decide
        have hc : c ∉ ['?', '<', '"', '+', '-'] := fun hmem =>
          absurd (hname c (by simp [hlist]))
            (ne_true_of_eq_false (isPlainChar_eq_false (hmarks c hmem)))
        exact misfit_before_prefixed ps hc (hdigit c (by simp [hlist])) hnone
    rw [declaredTerm, if_neg hblank]
    exact (Shape.firstOf_misfit hmisfit _).trans
      (Shape.firstOf_take (Shape.map_ok (resolvedName_append hname hlocal hstop hresolve) _))

/-- A prefixed name does not begin like an IRI. -/
lemma iri?_prefixedText (hname : ∀ c ∈ name.toList, isPlainChar c = true) :
    iri? ((prefixedText name localName).toList ++ rest) = none := by
  rw [prefixedText_append]
  cases hlist : name.toList with
  | nil => rfl
  | cons c cs =>
    have hc : c ≠ '<' := by
      rintro rfl
      exact absurd (hname '<' (by simp [hlist]))
        (ne_true_of_eq_false (isPlainChar_eq_false (by decide)))
    simp [iri?, hc]

/-- Behind two carets a prefixed name is the datatype of a literal, whatever its prefix. -/
lemma term_datatype {namespaceIri lexical : String} {s : List Char}
    (hname : ∀ c ∈ name.toList, isPlainChar c = true)
    (hlocal : ∀ c ∈ localName.toList, isLocalChar c = true)
    (hfind : ps.find? name = some namespaceIri) (hrest : AfterTerm rest)
    (hquoted : quoted? s =
      some (lexical, '^' :: '^' :: ((prefixedText name localName).toList ++ rest))) :
    term ps s = .ok (.literal ⟨lexical, .typed (namespaceIri ++ localName)⟩, rest) := by
  have hstop : Stops isLocalChar rest :=
    hrest.stops (isLocalChar_eq_false (by decide)) (isLocalChar_eq_false (by decide))
  have hresolve : ps.resolve? name localName = some (namespaceIri ++ localName) := by
    simp [Prefixes.resolve?, hfind]
  have hdatatype : datatype ps ((prefixedText name localName).toList ++ rest) =
      .ok (namespaceIri ++ localName, rest) := by
    rw [datatype, Shape.firstOf_skip (by rw [Shape.lexeme, iri?_prefixedText hname])]
    exact Shape.firstOf_take (resolvedName_append hname hlocal hstop hresolve)
  have hread : literal ps s = .ok (⟨lexical, .typed (namespaceIri ++ localName)⟩, rest) :=
    literal_eq_ok_iff.2 ⟨lexical, _, hquoted, .inr (.inl ⟨_, _, rfl, hdatatype, rfl⟩)⟩
  obtain ⟨u, rfl⟩ : ∃ u, s = '"' :: u := by
    by_contra hquote
    rw [quoted?_mismatch fun u hu => hquote ⟨u, hu⟩] at hquoted
    cases hquoted
  rw [term, termShapes, Shape.firstOf_skip (by rfl), Shape.firstOf_skip (by rfl),
    Shape.firstOf_skip (by rfl)]
  exact Shape.firstOf_take (Shape.map_ok hread _)

/-! ## Patterns -/

/-- The text is read as the term when a space follows. -/
def ReadAs (ps : Prefixes) (text : String) (t : Term) : Prop :=
  ∀ rest, term ps (text.toList ++ ' ' :: rest) = .ok (t, ' ' :: rest)

/-- No term begins with space, a comma or a comment. -/
lemma ReadAs.solid {text : String} {t : Term} (h : ReadAs ps text t) (rest : List Char) :
    Solid (text.toList ++ ' ' :: rest) := by
  have hread := h rest
  obtain ⟨c, s, hs⟩ : ∃ c s, text.toList ++ ' ' :: rest = c :: s := by
    cases text.toList with
    | nil => exact ⟨' ', rest, rfl⟩
    | cons c s => exact ⟨c, s ++ ' ' :: rest, rfl⟩
  rw [hs] at hread ⊢
  have hmarks : ∀ d ∈ [' ', '\t', '\r', '\n', '#', '/', ','],
      d ∉ ['?', '<', '"', '+', '-', '_', ':'] ∧ d.toNat < 128 ∧ d.isAlphanum = false := by
    simp only [List.forall_mem_cons, List.not_mem_nil, false_imp_iff, implies_true]
    decide
  refine solid_of_ne ?_ s
  rintro d hd rfl
  rw [term_mismatch ps (endsTerms_of_ascii (hmarks c hd))] at hread
  exact nomatch hread

/-- A space, and more of them. -/
def spaces (more : ℕ) : String := String.ofList (List.replicate (more + 1) ' ')

/-- A pattern with spaces around its terms, one at least at each of the four places. -/
def patternText (more : Fin 4 → ℕ) (subject predicate object : String) : String :=
  "(" ++ spaces (more 0) ++ subject ++ spaces (more 1) ++ predicate ++ spaces (more 2) ++ object ++
    spaces (more 3) ++ ")"

/-- However many spaces there are, what comes behind them is read. -/
lemma skip_spaces (more : ℕ) (s : List Char) :
    skip (List.replicate (more + 1) ' ' ++ s) = skip s ∧
    skipSeparators (List.replicate (more + 1) ' ' ++ s) = skipSeparators s := by
  induction more with
  | zero => exact ⟨skip_space s, skipSeparators_space s⟩
  | succ more ih =>
    rw [List.replicate_succ, List.cons_append, skip_space, skipSeparators_space]
    exact ih

/-- Terms that are read one by one are read as a pattern. -/
lemma pattern_of_readAs {x y z : String} {t u v : Term} (hx : ReadAs ps x t) (hy : ReadAs ps y u)
    (hz : ReadAs ps z v) (more : Fin 4 → ℕ) (rest : List Char) :
    pattern ps ((patternText more x y z).toList ++ rest) = .ok (⟨t, u, v⟩, rest) := by
  let gap (k : Fin 4) (s : List Char) : List Char := List.replicate (more k + 1) ' ' ++ s
  have hgap : ∀ k s, gap k s = ' ' :: (List.replicate (more k) ' ' ++ s) := fun k s => by
    simp only [gap, List.replicate_succ, List.cons_append]
  have htext : (patternText more x y z).toList ++ rest = '(' :: gap 0 (x.toList ++
      gap 1 (y.toList ++ gap 2 (z.toList ++ gap 3 (')' :: rest)))) := by
    simp [patternText, spaces, gap, String.toList_append]
  have hread : ∀ {text : String} {w : Term}, ReadAs ps text w → ∀ k s,
      Solid (text.toList ++ gap k s) ∧ term ps (text.toList ++ gap k s) = .ok (w, gap k s) := by
    intro text w h k s
    rw [hgap]
    exact ⟨h.solid _, h _⟩
  rw [htext]
  refine pattern_eq_ok_iff.2 ⟨_, gap 1 (y.toList ++ gap 2 (z.toList ++ gap 3 (')' :: rest))),
    gap 2 (z.toList ++ gap 3 (')' :: rest)), gap 3 (')' :: rest), rfl, ?_, ?_, ?_, ?_⟩
  · obtain ⟨hsolid, hterm⟩ := hread hx 1 (y.toList ++ gap 2 (z.toList ++ gap 3 (')' :: rest)))
    rw [(skip_spaces _ _).1, skip_of_solid hsolid]
    exact hterm
  · obtain ⟨hsolid, hterm⟩ := hread hy 2 (z.toList ++ gap 3 (')' :: rest))
    rw [(skip_spaces _ _).2, skipSeparators_of_solid hsolid]
    exact hterm
  · obtain ⟨hsolid, hterm⟩ := hread hz 3 (')' :: rest)
    rw [(skip_spaces _ _).2, skipSeparators_of_solid hsolid]
    exact hterm
  · rw [(skip_spaces _ _).1]
    exact skip_of_solid ⟨')', rest, rfl, by decide⟩

end

/-- A declaration that is accepted declares its prefix, and then the prefix can be used: behind
two carets for datatypes, and, when it does not begin with a digit, for terms before any space
and so at every place of a pattern. With a label behind it, the prefix of an underscore means a
blank node. -/
theorem declared_prefix_read {name namespaceIri localName : String}
    (h : Accepted name namespaceIri)
    (hlocal : ∀ c ∈ localName.toList, isLocalChar c = true) :
    (∀ ps : Prefixes,
      document ps (directive name namespaceIri) = (ps.declare name namespaceIri, .ok []) ∧
      (ps.declare name namespaceIri).find? name = some namespaceIri) ∧
    ∀ ps : Prefixes, ps.find? name = some namespaceIri →
      (∀ s lexical rest, quoted? s =
          some (lexical, '^' :: '^' :: ((prefixedText name localName).toList ++ ' ' :: rest)) →
        term ps s = .ok (.literal ⟨lexical, .typed (namespaceIri ++ localName)⟩, ' ' :: rest)) ∧
      ((∀ c ∈ name.toList.head?, c.isDigit = false) →
        (∀ rest, term ps ((prefixedText name localName).toList ++ ' ' :: rest) =
          .ok (declaredTerm name namespaceIri localName, ' ' :: rest)) ∧
        ∀ x y t u, ReadAs ps x t → ReadAs ps y u → ∀ more rest,
          pattern ps ((patternText more (prefixedText name localName) x y).toList ++ rest) =
            .ok (⟨declaredTerm name namespaceIri localName, t, u⟩, rest) ∧
          pattern ps ((patternText more x (prefixedText name localName) y).toList ++ rest) =
            .ok (⟨t, declaredTerm name namespaceIri localName, u⟩, rest) ∧
          pattern ps ((patternText more x y (prefixedText name localName)).toList ++ rest) =
            .ok (⟨t, u, declaredTerm name namespaceIri localName⟩, rest)) := by
  obtain ⟨hname, -⟩ := accepted_iff.1 h
  refine ⟨fun ps => ⟨document_directive h ps, ?_⟩, fun ps hfind => ⟨?_, ?_⟩⟩
  · simp [Prefixes.declare]
  · intro s lexical rest hquoted
    exact term_datatype hname hlocal hfind (afterTerm_space rest) hquoted
  · intro hdigit
    have hread : ReadAs ps (prefixedText name localName)
        (declaredTerm name namespaceIri localName) := fun rest =>
      term_prefixedText hname hdigit hlocal hfind (afterTerm_space rest)
    refine ⟨hread, fun x y t u hx hy more rest => ?_⟩
    exact ⟨pattern_of_readAs hread hx hy more rest, pattern_of_readAs hx hread hy more rest,
      pattern_of_readAs hx hy hread more rest⟩

/-- A prefix of letters, with a hyphen in the local name: as a term, as a predicate behind two
spaces, and as a datatype. -/
theorem declared_prefix_read_of_hyphen :
    let ps := Prefixes.standard.declare "ex" "http://e/"
    Accepted "ex" "http://e/" ∧ document .standard "@prefix ex: <http://e/> ." = (ps, .ok []) ∧
    term ps "ex:a-1 #".toList = .ok (.iri "http://e/a-1", " #".toList) ∧
    pattern ps "( ?s  ex:a-1 ?o )".toList =
      .ok (⟨.var ⟨"s"⟩, .iri "http://e/a-1", .var ⟨"o"⟩⟩, []) ∧
    term ps "\"v\"^^ex:a-1 ".toList = .ok (.literal ⟨"v", .typed "http://e/a-1"⟩, [' ']) := by
  intro ps
  have haccepted : Accepted "ex" "http://e/" := by
    unfold Accepted
    decide +kernel
  have hlocal : ∀ c ∈ "a-1".toList, isLocalChar c = true :=
    List.all_eq_true.1 (by decide +kernel)
  have hdigit : ∀ c ∈ "ex".toList.head?, c.isDigit = false := by
    rintro c ⟨⟩
    rfl
  have hs : IsRun isPlainChar "s" := ⟨by decide, List.all_eq_true.1 (by decide +kernel)⟩
  have ho : IsRun isPlainChar "o" := ⟨by decide, List.all_eq_true.1 (by decide +kernel)⟩
  have hvariable : ∀ name, IsRun isPlainChar name → ReadAs ps ("?" ++ name) (.var ⟨name⟩) :=
    fun name hname rest =>
      term_render ps (show (Term.var ⟨name⟩).Legible from hname) (afterTerm_space rest)
  obtain ⟨hdocument, hread⟩ := declared_prefix_read haccepted hlocal
  obtain ⟨hdirective, hfind⟩ := hdocument .standard
  obtain ⟨hdatatype, hterm⟩ := hread ps hfind
  obtain ⟨hspace, hpatterns⟩ := hterm hdigit
  obtain ⟨-, hpredicate, -⟩ := hpatterns "?s" "?o" _ _ (hvariable "s" hs) (hvariable "o" ho)
    (fun k => if k = 1 then 1 else 0) []
  exact ⟨haccepted, hdirective, hspace ['#'], hpredicate,
    hdatatype "\"v\"^^ex:a-1 ".toList "v" [] (by decide +kernel)⟩

/-- Two prefixes that are declared and then not read as such: an underscore begins a blank node,
and a digit a number, behind which another prefix is left. -/
theorem declared_prefix_not_read_of_underscore :
    let ps := Prefixes.standard.declare "_" "http://n/"
    let ps' := Prefixes.standard.declare "1a" "http://n/"
    (document .standard "@prefix _: <http://n/> ." = (ps, .ok []) ∧
      clauseList ps "( ?a _:l ?b )" =
        .ok [.pattern ⟨.var ⟨"a"⟩, .blank "l", .var ⟨"b"⟩⟩]) ∧
    document .standard "@prefix 1a: <http://n/> ." = (ps', .ok []) ∧
      clauseList ps' "( ?a 1a:l ?b )" = .error (.undefinedPrefix "a") := by
  decide +kernel

end RuleFlow.Reader
