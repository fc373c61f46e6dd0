import Mathlib.Data.List.Basic
import RuleFlow.Proofs.Reader.Calls

/-!
# Texts that cannot be read

When a document or a list of clauses cannot be read, the error is about a place where reading
stopped, and it is right about this place (`Explains`): its position is that of the unread text,
in bytes, and the unread text is not blank; or the unread text is blank; or it begins with a
prefixed name without a declaration.

And an undeclared name that reading comes to, at any depth, is what the error is about
(`FailuresLocated`).
-/

namespace RuleFlow.Reader

/-! ## Bytes -/

/-- The bytes of some characters are those of the text they make up. -/
lemma byteCount_eq (s : List Char) : byteCount s = (String.ofList s).utf8ByteSize := by
  induction s with
  | nil => rfl
  | cons c s ih =>
    have hcons : String.ofList (c :: s) = String.singleton c ++ String.ofList s := by
      rw [String.singleton_eq_ofList, ← String.ofList_append]
      rfl
    have hcount : byteCount (c :: s) = c.utf8Size + byteCount s := rfl
    rw [hcons, String.utf8ByteSize_append, String.utf8ByteSize_singleton, ← ih, hcount]

lemma byteCount_pos {s : List Char} (h : s ≠ []) : 0 < byteCount s := by
  obtain ⟨c, t, rfl⟩ := List.exists_cons_of_ne_nil h
  exact Nat.lt_of_lt_of_le c.utf8Size_pos (Nat.le_add_right _ (byteCount t))

/-! ## Blank texts -/

/-- Only blanks are in the text. -/
def Blank (s : List Char) : Prop := ∀ c ∈ s, Text.isBlank c = true

/-- A prefixed name does not begin with a blank. -/
lemma trimStart_of_prefixedName? {s rest : List Char} {names : String × String}
    (h : prefixedName? s = some (names, rest)) : Text.trimStart s = s := by
  cases s with
  | nil => rfl
  | cons c s =>
    refine List.dropWhile_cons_of_neg fun hblank => ?_
    -- the blank would have to be the colon
    have hplain := isPlainChar_of_isBlank hblank
    unfold prefixedName? at h
    rw [List.dropWhile_cons_of_neg (by simp [hplain])] at h
    split at h
    · next hcolon =>
      obtain ⟨rfl, -⟩ := List.cons.inj hcolon
      exact absurd hblank (by decide)
    · exact nomatch h

/-! ## Errors -/

section
variable {ps : Prefixes} {text : String} {rest : List Char}

/-- What an error says is so when reading stopped before `rest`. -/
inductive Explains (ps : Prefixes) (text : String) (rest : List Char) (complaint : Complaint) :
    ReadError → Prop
  | unexpectedEnd (h : Blank rest) : Explains ps text rest complaint .unexpectedEnd
  | undefinedPrefix {name} (h : Undeclared ps (Text.trimStart rest) name) :
    Explains ps text rest complaint (.undefinedPrefix name)
  | syntaxAt {before} (htext : text = before ++ String.ofList rest) (hblank : ¬Blank rest)
    (hinside : before.utf8ByteSize < text.utf8ByteSize) :
    Explains ps text rest complaint (.syntaxAt before.utf8ByteSize complaint)

/-- The failure that is reported for a place explains it. -/
theorem errorAt_explains (complaint : Complaint) (h : rest <:+ text.toList) :
    Explains ps text rest complaint (errorAt ps text.toList rest complaint) := by
  unfold errorAt
  split
  · next hblank =>
    exact .unexpectedEnd (Text.trimStart_eq_nil_iff.1 (List.isEmpty_iff.1 hblank))
  · next hblank =>
    have hrest : ¬Blank rest := fun hall =>
      hblank (List.isEmpty_iff.2 (Text.trimStart_eq_nil_iff.2 hall))
    have hwrong : Explains ps text rest complaint
        (.syntaxAt (byteCount text.toList - byteCount rest) complaint) := by
      obtain ⟨before, hbefore⟩ := h
      have htext : text = String.ofList before ++ String.ofList rest := by
        rw [← String.ofList_append, hbefore, String.ofList_toList]
      have hsize :
          byteCount text.toList = (String.ofList before).utf8ByteSize + byteCount rest := by
        rw [byteCount_eq, String.ofList_toList, byteCount_eq, htext, String.utf8ByteSize_append]
      have hpos : 0 < byteCount rest := byteCount_pos fun hnil => hrest (hnil ▸ nofun)
      rw [hsize, Nat.add_sub_cancel]
      refine .syntaxAt htext hrest ?_
      rw [byteCount_eq, String.ofList_toList] at hsize
      omega
    split
    · next name localName r hname =>
      split
      · exact hwrong
      · next hcontains =>
        have hnone : ps.find? name = none := by simpa [Table.contains] using hcontains
        exact .undefinedPrefix ⟨localName, r, hname, hnone⟩
    · exact hwrong

/-- An undeclared name where reading stopped is what the error is about. -/
lemma errorAt_undeclared {name : String} (full : List Char) (complaint : Complaint)
    (h : Undeclared ps rest name) : errorAt ps full rest complaint = .undefinedPrefix name := by
  obtain ⟨localName, r, hname, hnone⟩ := h
  have htrim := trimStart_of_prefixedName? hname
  have hne : rest.isEmpty = false := by
    cases rest with
    | nil => exact nomatch hname
    | cons c s => rfl
  have hcontains : ps.contains name = false := by simp [Table.contains, hnone]
  simp [errorAt, htrim, hne, hname, hcontains]

/-! ## Documents -/

/-- The places at which the reader of a document expects a declaration or a rule, and the table
of prefixes there. -/
inductive Visits (ps₀ : Prefixes) (text : List Char) : Prefixes → List Char → Prop
  | start : Visits ps₀ text ps₀ (skip text)
  | declared {ps r name namespaceIri rest} (h : Visits ps₀ text ps (directiveWord ++ r))
    (hp : declaration? r = some ((name, namespaceIri), rest)) :
    Visits ps₀ text (ps.declare name namespaceIri) (skip rest)
  | read {ps s r rest} (h : Visits ps₀ text ps s) (hr : rule ps s = .ok (r, rest)) :
    Visits ps₀ text ps (skip rest)

/-- Where the reader of a document breaks off, and of what it complains, when neither a
declaration nor a rule can be read at the place. -/
inductive Breaks (ps : Prefixes) (s : List Char) : List Char → Complaint → Prop
  | directive {r} (h : s = directiveWord ++ r) (hp : declaration? r = none) :
    Breaks ps s s .badDirective
  | rule {stop} (hs : s ≠ []) (hd : Text.dropStart? directiveWord s = none)
    (hr : Part.rule.stop? ps s = some stop) : Breaks ps s stop.rest .noRule

/-- Where the reader of a list of clauses breaks off: where the clauses stop, or where they end
before the text does. -/
inductive ClausesBreak (ps : Prefixes) (s : List Char) : List Char → Complaint → Prop
  | clause {stop} (h : Part.clauses.stop? ps s = some stop) :
    ClausesBreak ps s stop.rest .noClause
  | trailing {cs rest} (h : clauses ps s = .ok (cs, rest)) (hrest : skip rest ≠ []) :
    ClausesBreak ps s (skip rest) .trailing

variable {full s : List Char} {ps₀ ps' : Prefixes} {complaint : Complaint}

lemma Visits.suffix (h : Visits ps₀ full ps s) : s <:+ full := by
  induction h with
  | start => exact (skip_suffix full).1
  | declared _ hp ih =>
    have e := (skip_suffix _).1.trans (declaration?_suffix hp)
    exact (e.trans (List.suffix_append directiveWord _)).trans ih
  | read _ hr ih => exact ((skip_suffix _).1.trans (consumes_rule _ _ _ _ hr).1).trans ih

lemma Breaks.suffix (h : Breaks ps s rest complaint) : rest <:+ s := by
  cases h with
  | directive => exact List.suffix_rfl
  | rule _ _ hr => exact stop_suffix _ _ _ hr

/-- A list of clauses breaks at one of its ends. -/
lemma ClausesBreak.suffix (h : ClausesBreak ps s rest complaint) : rest <:+ s := by
  cases h with
  | clause h => exact stop_suffix _ _ _ h
  | trailing h => exact (skip_suffix _).1.trans (clauses_suffix ps h)

lemma Visits.skip_eq (h : Visits ps₀ full ps s) : skip s = s := by
  cases h with
  | start => exact (skip_skip full).1
  | declared => exact (skip_skip _).1
  | read => exact (skip_skip _).1

/-- A document fails as what is left of it does at every place that its reader comes to. -/
lemma Visits.fails (h : Visits ps₀ full ps s) {e : ReadError} :
    documentFrom full ps₀ full = (ps', .error e) ↔ documentFrom full ps s = (ps', .error e) := by
  induction h with
  | start => rw [documentFrom_congr (skip_skip full).1]
  | @declared ps r name namespaceIri rest h hp ih =>
    rw [ih, documentFrom_of_word h.skip_eq, hp, documentFrom_congr (skip_skip rest).1]
  | @read ps s r rest h hr ih =>
    rw [ih, documentFrom_of_rule (h.skip_eq.symm ▸ hr), documentFrom_congr (skip_skip rest).1]
    rcases documentFrom full ps rest with ⟨ps₁, e' | rules⟩ <;> simp [Except.map]

/-- The reader of a document breaks off at a place that it comes to. -/
lemma exists_breaks {e : ReadError} (h : documentFrom full ps s = (ps', .error e))
    (hs : Visits ps₀ full ps (skip s)) : ∃ s' rest complaint, Visits ps₀ full ps' s' ∧
      Breaks ps' s' rest complaint ∧ e = errorAt ps' full rest complaint := by
  fun_induction documentFrom full ps s with
  | case1 => cases (Prod.mk.inj h).2
  | case2 ps s c t hskip _ r hd name namespaceIri rest hp _ ih =>
    have hword : skip s = directiveWord ++ r := hskip.trans (Text.dropStart?_eq_some_iff.1 hd)
    exact ih h (.declared (hword ▸ hs) hp)
  | case3 ps s c t hskip _ r hd hp =>
    obtain ⟨rfl, he⟩ := Prod.mk.inj h
    rw [hskip] at hs
    exact ⟨_, _, _, hs, .directive (Text.dropStart?_eq_some_iff.1 hd) hp,
      (Except.error.inj he).symm⟩
  | case4 ps s c t hskip _ hd r rest hrule _ ps₁ results hrest ih =>
    obtain ⟨rfl, hresults⟩ := Prod.mk.inj h
    cases results with
    | ok rs => cases hresults
    | error e' =>
      obtain rfl := Except.error.inj hresults
      rw [hskip] at hs
      exact ih hrest (.read hs hrule)
  | case5 ps s c t hskip _ hd stop hrule =>
    obtain ⟨rfl, he⟩ := Prod.mk.inj h
    rw [hskip] at hs
    exact ⟨_, _, _, hs, .rule (List.cons_ne_nil c t) hd (stopOf?_eq_some_iff.2 hrule),
      (Except.error.inj he).symm⟩

/-- A list of clauses that is not read breaks somewhere, and that is reported. -/
lemma exists_clausesBreak {e : ReadError} (h : clauseList ps text = .error e) :
    ∃ rest complaint, ClausesBreak ps text.toList rest complaint ∧
      e = errorAt ps text.toList rest complaint := by
  unfold clauseList at h
  split at h
  · next stop hstop =>
    exact ⟨_, _, .clause (stopOf?_eq_some_iff.2 hstop), (Except.error.inj h).symm⟩
  · next cs rest hread =>
    split at h
    · exact nomatch h
    · next hrest =>
      exact ⟨_, _, .trailing hread (by simpa using hrest), (Except.error.inj h).symm⟩

/-- A rule that stops for good ends the reading of the document. -/
lemma Visits.document_of_undeclared {t : List Char} {name : String}
    (hs : Visits ps₀ text.toList ps s) (hstop : Part.rule.stop? ps s = some (.undeclared t))
    (hname : Undeclared ps t name) :
    document ps₀ text = (ps, .error (.undefinedPrefix name)) := by
  have hstop : rule ps s = .error (.undeclared t) := stopOf?_eq_some_iff.1 hstop
  -- what is no rule stops otherwise
  obtain ⟨u, rfl⟩ : ∃ u, s = '[' :: u := by
    by_contra hopen
    rw [rule_mismatch ps fun u hu => hopen ⟨u, hu⟩] at hstop
    cases hstop
  have hskip := hs.skip_eq
  refine hs.fails.2 ?_
  rw [documentFrom_of_broken (by simp [hskip]) (by rw [hskip]; rfl) (hskip.symm ▸ hstop)]
  rw [show (Stop.undeclared t).rest = t from rfl, errorAt_undeclared _ _ hname]

/-- An undeclared prefix in a list of clauses is reported by its name. -/
lemma clauseList_of_undeclared {t : List Char} {name : String}
    (hstop : Part.clauses.stop? ps text.toList = some (.undeclared t))
    (hname : Undeclared ps t name) : clauseList ps text = .error (.undefinedPrefix name) := by
  have hstop : clauses ps text.toList = .error (.undeclared t) := stopOf?_eq_some_iff.1 hstop
  simp only [clauseList, hstop, Stop.rest, errorAt_undeclared _ _ hname]

end

/-! ## What an error is about -/

/-- The undeclared name at `t` stops every reader on the way to it, and none of them makes a
call after the one that leads there. -/
def StopsAll (ps : Prefixes) (p : Part) (s t : List Char) : Prop :=
  ∀ q u, Reaches ps p s q u → Reaches ps q u .resolvedName t →
    q.stop? ps u = some (.undeclared t) ∧
    ∀ i q₁ u₁, Calls ps q u i q₁ u₁ → Reaches ps q₁ u₁ .resolvedName t →
      ∀ j q₂ u₂, Calls ps q u j q₂ u₂ → j ≤ i

/-- An undeclared prefix stops every reader that comes to it. -/
lemma stopsAll_of_undeclared {ps : Prefixes} {t : List Char} {name : String}
    (h : Undeclared ps t name) (p : Part) (s : List Char) : StopsAll ps p s t := by
  intro q u _ hreach
  refine ⟨hreach.stop h.stop, fun i q₁ u₁ hcall hreach₁ j q₂ u₂ hcall₂ => ?_⟩
  exact hcall.le_of_undeclared (hreach₁.stop h.stop) hcall₂

/-- Where the errors of a text come from, and that they say so. -/
structure FailuresLocated (ps : Prefixes) (text : String) : Prop where
  /-- A document fails at a place to which its reader comes, and the error explains it. -/
  document_error : ∀ ps' e, document ps text = (ps', .error e) → ∃ s rest complaint,
    Visits ps text.toList ps' s ∧ Breaks ps' s rest complaint ∧ rest <:+ text.toList ∧
    Explains ps' text rest complaint e
  /-- A list of clauses fails where its reader breaks off, and the error explains it. -/
  clauses_error : ∀ e, clauseList ps text = .error e → ∃ rest complaint,
    ClausesBreak ps text.toList rest complaint ∧ rest <:+ text.toList ∧
    Explains ps text rest complaint e
  /-- Whatever a rule of a document leads to, it stops at an end of the text. -/
  document_stop : ∀ ps' s q t stop, Visits ps text.toList ps' s → Reaches ps' .rule s q t →
    q.stop? ps' t = some stop → stop.rest <:+ text.toList
  /-- Whatever a list of clauses leads to, it stops at an end of the text. -/
  clauses_stop : ∀ q t stop, Reaches ps .clauses text.toList q t → q.stop? ps t = some stop →
    stop.rest <:+ text.toList
  /-- A name without a declaration to which a rule of a document leads stops all the readers on
  the way, and it is what the error is about. -/
  document_undeclared : ∀ ps' s t name, Visits ps text.toList ps' s →
    Reaches ps' .rule s .resolvedName t → Undeclared ps' t name →
    StopsAll ps' .rule s t ∧ document ps text = (ps', .error (.undefinedPrefix name))
  /-- The same of a list of clauses. -/
  clauses_undeclared : ∀ t name, Reaches ps .clauses text.toList .resolvedName t →
    Undeclared ps t name →
    StopsAll ps .clauses text.toList t ∧ clauseList ps text = .error (.undefinedPrefix name)

/-- Every error of a document or a list of clauses is located, and a name without a declaration
is found at any depth. -/
theorem failures_located (ps : Prefixes) (text : String) : FailuresLocated ps text where
  document_error := by
    intro ps' e h
    obtain ⟨s, rest, complaint, hs, hbreaks, rfl⟩ := exists_breaks h .start
    have hrest : rest <:+ text.toList := hbreaks.suffix.trans hs.suffix
    exact ⟨s, rest, complaint, hs, hbreaks, hrest, errorAt_explains complaint hrest⟩
  clauses_error := by
    intro e h
    obtain ⟨rest, complaint, hbreak, rfl⟩ := exists_clausesBreak h
    exact ⟨rest, complaint, hbreak, hbreak.suffix, errorAt_explains complaint hbreak.suffix⟩
  document_stop := by
    intro ps' s q t stop hs hreach hstop
    exact ((stop_suffix q t stop hstop).trans hreach.suffix).trans hs.suffix
  clauses_stop := by
    intro q t stop hreach hstop
    exact (stop_suffix q t stop hstop).trans hreach.suffix
  document_undeclared := by
    intro ps' s t name hs hreach hname
    exact ⟨stopsAll_of_undeclared hname _ _,
      hs.document_of_undeclared (hreach.stop hname.stop) hname⟩
  clauses_undeclared := by
    intro t name hreach hname
    exact ⟨stopsAll_of_undeclared hname _ _,
      clauseList_of_undeclared (hreach.stop hname.stop) hname⟩

/-- The datatype of an argument in the body of a rule in the head of a rule: its prefix is not
declared, and the terms behind it are not read. -/
theorem failures_located_of_nested_rule :
    let text := "@prefix ü: <http://n/> [ -> [ f(\"é\"^^no:t ü:a) -> ] ]"
    let ps := Prefixes.standard.declare "ü" "http://n/"
    let s := "[ -> [ f(\"é\"^^no:t ü:a) -> ] ]".toList
    let t := "no:t ü:a) -> ] ]".toList
    Visits .standard text.toList ps s ∧ Reaches ps .rule s .resolvedName t ∧
    Undeclared ps t "no" ∧ document .standard text = (ps, .error (.undefinedPrefix "no")) := by
  intro text ps s t
  have hdirective : skip text.toList =
      directiveWord ++ " ü: <http://n/> [ -> [ f(\"é\"^^no:t ü:a) -> ] ]".toList := by
    decide +kernel
  have hdeclared : declaration? " ü: <http://n/> [ -> [ f(\"é\"^^no:t ü:a) -> ] ]".toList =
      some (("ü", "http://n/"), s) := by decide +kernel
  have hvisits : Visits .standard text.toList ps s :=
    .declared (hdirective ▸ .start) hdeclared
  have hstop : Part.rule.stop? ps s = some (.undeclared t) := by decide +kernel
  have hname : Undeclared ps t "no" := ⟨"t", " ü:a) -> ] ]".toList, by decide +kernel⟩
  have hreaches := (stop_iff_reaches.1 hstop).1
  exact ⟨hvisits, hreaches, hname,
    ((failures_located .standard text).document_undeclared ps s t "no" hvisits hreaches hname).2⟩

end RuleFlow.Reader
