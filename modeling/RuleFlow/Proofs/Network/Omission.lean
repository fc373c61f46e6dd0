import RuleFlow.Proofs.Network.Correctness

/-!
# Rules that are left out leave no trace

Whether a rule is left out is seen from the rule alone (`isLeftOut`), and it is decided before
anything of the rule reaches the registry. So a list of rules is compiled to the same network
without such a rule: the operators, the axioms, the warnings and the other entries of the report
stay, and the entry of the rule goes (`compile_omit`).

The rules have names of their own here, as a rule without one is named by its place.
-/

namespace RuleFlow.Network

/-! ## Entries for rules that are left out -/

section
variable {α : Type}

/-- The entry for a rule with this result, when the result is an error. -/
def skipOf? (name : String) : Except SkipReason α → Option Skip
  | .ok _ => none
  | .error reason => some ⟨name, reason⟩

/-- The skipped entries are those of the results in turn. -/
lemma skips_eq_filterMap (results : List (String × Except SkipReason α)) :
    skips results = results.filterMap fun x => skipOf? x.1 x.2 := by
  refine congrArg (List.filterMap · results) (funext fun ⟨name, result⟩ => ?_)
  cases result <;> rfl

lemma rule_of_skipOf? {name : String} {result : Except SkipReason α} {s : Skip}
    (h : skipOf? name result = some s) : s.rule = name := by
  cases result with
  | ok a => exact nomatch h
  | error reason => exact (congrArg Skip.rule (Option.some.inj h)).symm

/-- There is a skipped entry exactly when there is no result. -/
lemma exists_skipOf?_iff {name : String} {result : Except SkipReason α} :
    (∃ s, skipOf? name result = some s) ↔ ¬ ∃ a, result = .ok a := by
  cases result <;> simp [skipOf?]

end

/-- The entry for an axiom that is left out. -/
def axiomSkip? (x : String × Rule) : Option Skip :=
  if x.2.isAxiom then skipOf? x.1 (axiomHeads x.2) else none

/-- The entry for another rule that is left out. -/
def planSkip? (options : CompileOptions) (x : String × Rule) : Option Skip :=
  if x.2.isAxiom then none else skipOf? x.1 (planRule options x.1 x.2)

lemma skips_axiomResults (xs : List (String × Rule)) :
    skips (axiomResults xs) = xs.filterMap axiomSkip? := by
  rw [skips_eq_filterMap, axiomResults, List.filterMap_map, List.filterMap_filter]
  rfl

lemma skips_planResults (options : CompileOptions) (xs : List (String × Rule)) :
    skips (planResults options xs) = xs.filterMap (planSkip? options) := by
  rw [skips_eq_filterMap, planResults, List.filterMap_map, List.filterMap_filter]
  refine congrArg (List.filterMap · xs) (funext fun x => ?_)
  cases h : x.2.isAxiom <;> simp [planSkip?, h]

/-! ## Which rules are left out -/

/-- Is the rule left out of every network? An axiom is when its head has a clause that is no
pattern, another rule when it cannot become part of a network. -/
def isLeftOut (r : Rule) : Bool :=
  if r.isAxiom then r.head.any (·.pattern?.isNone) else !isCompiled r

/-- The head of an axiom is taken when all its clauses are patterns. -/
lemma exists_axiomHeads_iff (r : Rule) :
    (∃ ps, axiomHeads r = .ok ps) ↔ r.head.any (·.pattern?.isNone) = false := by
  rw [axiomHeads]
  induction r.head with
  | nil => exact iff_of_true ⟨[], rfl⟩ rfl
  | cons c cs ih =>
    rw [List.mapM_cons, List.any_cons]
    cases c with
    | pattern p =>
      rw [show (Clause.pattern p).pattern?.isNone = false from rfl, Bool.false_or, ← ih]
      constructor
      · rintro ⟨ps, hps⟩
        cases hrest : cs.mapM (m := Except SkipReason) _ with
        | ok qs => exact ⟨qs, rfl⟩
        | error reason =>
          rw [hrest] at hps
          cases hps
      · rintro ⟨qs, hqs⟩
        exact ⟨p :: qs, by rw [hqs]; rfl⟩
    | functor f =>
      refine iff_of_false ?_ (by simp [Clause.pattern?])
      rintro ⟨ps, hps⟩
      cases hps
    | nested name body head =>
      refine iff_of_false ?_ (by simp [Clause.pattern?])
      rintro ⟨ps, hps⟩
      cases hps

section
variable {options : CompileOptions} {x : String × Rule}

/-- There is an entry for exactly the rules that are left out. -/
lemma exists_skip_iff : (∃ s, axiomSkip? x = some s ∨ planSkip? options x = some s) ↔
    isLeftOut x.2 = true := by
  cases h : x.2.isAxiom with
  | true =>
    simp [axiomSkip?, planSkip?, isLeftOut, h, exists_skipOf?_iff, exists_axiomHeads_iff]
  | false =>
    simp [axiomSkip?, planSkip?, isLeftOut, h, exists_skipOf?_iff, exists_planRule_iff]

/-- A skipped entry names the rule that is left out. -/
lemma rule_of_skip {s : Skip} (h : axiomSkip? x = some s ∨ planSkip? options x = some s) :
    s.rule = x.1 := by
  rcases h with h | h
  · unfold axiomSkip? at h
    split at h
    · exact rule_of_skipOf? h
    · exact nomatch h
  · unfold planSkip? at h
    split at h
    · exact nomatch h
    · exact rule_of_skipOf? h

/-- No rule has two entries. -/
lemma axiomSkip?_eq_none_or : axiomSkip? x = none ∨ planSkip? options x = none := by
  unfold axiomSkip? planSkip?
  cases x.2.isAxiom
  · exact .inl rfl
  · exact .inr rfl

end

/-! ## Compilations without a rule -/

/-- The network with other entries for the rules that are left out. -/
def withSkipped (n : Network) (skipped : List Skip) : Network :=
  { n with report := { n.report with skipped := skipped } }

section
variable {options : CompileOptions} {rules rules' : List Rule} {n : Network}

/-- The rules with their names, when each has one. -/
lemma named_of_isSome (h : ∀ r ∈ rules, r.name.isSome) :
    named rules = rules.map fun r => (r.name.getD "", r) := by
  have hname : ∀ x ∈ rules.zipIdx 1, x.1.name.getD ("rule_" ++ toString x.2) = x.1.name.getD "" := by
    intro x hx
    obtain ⟨name, hname⟩ := Option.isSome_iff_exists.1 (h x.1 (List.fst_mem_of_mem_zipIdx hx))
    rw [hname]
    rfl
  rw [named, ← List.zipIdx_map_fst 1 rules, List.map_map, List.zipIdx_map_fst]
  exact List.map_congr_left fun x hx => Prod.ext (hname x hx) rfl

/-- The report has the entries for the axioms and then those for the other rules. -/
lemma skipped_of_compile (h : compile options rules = .ok n) :
    n.report.skipped = (named rules).filterMap axiomSkip? ++
      (named rules).filterMap (planSkip? options) := by
  obtain ⟨-, -, -, -, hreport⟩ := compile_cases h
  rw [hreport, ← skips_axiomResults, ← skips_planResults]

/-- When the same is kept of two lists of rules, their networks differ in the entries for the
rules that are left out alone. -/
lemma compile_of_kept_eq
    (haxioms : kept (axiomResults (named rules')) = kept (axiomResults (named rules)))
    (hplans : kept (planResults options (named rules')) = kept (planResults options (named rules)))
    (h : compile options rules = .ok n) :
    compile options rules' = .ok (n.withSkipped ((named rules').filterMap axiomSkip? ++
      (named rules').filterMap (planSkip? options))) := by
  unfold compile at h ⊢
  split at h
  · exact nomatch h
  · next hclash =>
    simp only [haxioms, hplans] at h ⊢
    split at h
    · exact nomatch h
    · obtain rfl := Except.ok.inj h
      rw [skips_axiomResults, skips_planResults]
      rfl

end

section
variable {options : CompileOptions} {rules front back : List Rule} {n : Network} {r : Rule}

lemma axiomResults_append (xs ys : List (String × Rule)) :
    axiomResults (xs ++ ys) = axiomResults xs ++ axiomResults ys := by
  rw [axiomResults, List.filter_append, List.map_append]
  rfl

lemma planResults_append (options : CompileOptions) (xs ys : List (String × Rule)) :
    planResults options (xs ++ ys) = planResults options xs ++ planResults options ys := by
  rw [planResults, List.filter_append, List.map_append]
  rfl

lemma kept_append {α : Type} (results results' : List (String × Except SkipReason α)) :
    kept (results ++ results') = kept results ++ kept results' :=
  List.filterMap_append

/-- Nothing is kept of an error. -/
lemma kept_singleton_eq_nil {α : Type} {name : String} {result : Except SkipReason α}
    (h : ¬ ∃ a, result = .ok a) : kept [(name, result)] = [] := by
  cases result with
  | ok a => exact absurd ⟨a, rfl⟩ h
  | error reason => rfl

/-- Nothing is kept of a rule that is left out. -/
lemma kept_eq_nil_of_isLeftOut {name : String} (h : isLeftOut r = true) :
    kept (axiomResults [(name, r)]) = [] ∧ kept (planResults options [(name, r)]) = [] := by
  unfold isLeftOut at h
  cases hground : r.isAxiom with
  | true =>
    rw [hground, if_pos rfl] at h
    have hheads : ¬ ∃ ps, axiomHeads r = .ok ps := by
      rw [exists_axiomHeads_iff, h]
      decide
    constructor
    · simpa [axiomResults, hground] using kept_singleton_eq_nil hheads
    · simp [planResults, hground, kept]
  | false =>
    rw [hground, if_neg (by decide)] at h
    have hplan : ¬ ∃ p, planRule options name r = .ok p := by
      rw [exists_planRule_iff]
      simpa using h
    constructor
    · simp [axiomResults, hground, kept]
    · simpa [planResults, hground] using kept_singleton_eq_nil hplan

/-- The rules before and after a place keep their names without it. -/
lemma named_append (hnames : ∀ s ∈ front ++ back, s.name.isSome) :
    named (front ++ back) = named front ++ named back := by
  have hfront : ∀ s ∈ front, s.name.isSome := fun s hs => hnames s (List.mem_append_left back hs)
  have hback : ∀ s ∈ back, s.name.isSome := fun s hs => hnames s (List.mem_append_right front hs)
  rw [named_of_isSome hnames, named_of_isSome hfront, named_of_isSome hback, List.map_append]

/-- A rule with a name of its own does not change the names of the others. -/
lemma named_append_cons (hnames : ∀ s ∈ front ++ r :: back, s.name.isSome) {name : String}
    (hr : r.name = some name) :
    named (front ++ r :: back) = named front ++ (name, r) :: named back := by
  have hrest : ∀ s ∈ r :: back, s.name.isSome :=
    fun s hs => hnames s (List.mem_append_right front hs)
  have hback : ∀ s ∈ back, s.name.isSome := fun s hs => hrest s (List.mem_cons_of_mem r hs)
  rw [named_append hnames, named_of_isSome hrest, named_of_isSome hback, List.map_cons, hr]
  rfl

/-- Without a rule that is left out the network has the entries for the other rules that are left
out, and all else. -/
lemma compile_without (hnames : ∀ s ∈ front ++ r :: back, s.name.isSome)
    (hr : isLeftOut r = true) (h : compile options (front ++ r :: back) = .ok n) :
    compile options (front ++ back) = .ok (n.withSkipped
      ((named front ++ named back).filterMap axiomSkip? ++
        (named front ++ named back).filterMap (planSkip? options))) := by
  obtain ⟨name, hname⟩ := Option.isSome_iff_exists.1 (hnames r (by simp))
  have hwithout : named (front ++ back) = named front ++ named back := by
    refine named_append fun s hs => hnames s ?_
    exact (List.mem_append.1 hs).elim (List.mem_append_left _)
      fun hs => List.mem_append_right _ (List.mem_cons_of_mem r hs)
  have hwith : named (front ++ r :: back) = named front ++ ([(name, r)] ++ named back) :=
    named_append_cons hnames hname
  obtain ⟨hground, hplan⟩ : kept (axiomResults [(name, r)]) = [] ∧
      kept (planResults options [(name, r)]) = [] := kept_eq_nil_of_isLeftOut hr
  rw [← hwithout]
  refine compile_of_kept_eq ?_ ?_ h
  · rw [hwith, hwithout, axiomResults_append, axiomResults_append, axiomResults_append, kept_append,
      kept_append, kept_append, hground, List.nil_append]
  · rw [hwith, hwithout, planResults_append, planResults_append, planResults_append, kept_append,
      kept_append, kept_append, hplan, List.nil_append]

/-- A place in the list of entries belongs to a place in the list of rules. -/
lemma exists_rule_of_filterMap_named {f : String × Rule → Option Skip} {before after : List Skip}
    {s : Skip} (hnames : ∀ r ∈ rules, r.name.isSome)
    (h : (named rules).filterMap f = before ++ s :: after) :
    ∃ front r back name, rules = front ++ r :: back ∧ r.name = some name ∧
      f (name, r) = some s ∧ (named front).filterMap f = before ∧
      (named back).filterMap f = after := by
  obtain ⟨xs, ys, hsplit, hbefore, hrest⟩ := List.filterMap_eq_append_iff.1 h
  obtain ⟨zs, x, us, rfl, hzs, hx, hafter⟩ := List.filterMap_eq_cons_iff.1 hrest
  rw [named_of_isSome hnames, ← List.append_assoc] at hsplit
  obtain ⟨front, rest, rfl, hfront, hrest⟩ := List.map_eq_append_iff.1 hsplit
  obtain ⟨r, back, rfl, rfl, hback⟩ := List.map_eq_cons_iff.1 hrest
  obtain ⟨name, hname⟩ := Option.isSome_iff_exists.1 (hnames r (by simp))
  refine ⟨front, r, back, name, rfl, hname, ?_, ?_, ?_⟩
  · rwa [hname] at hx
  · rw [named_of_isSome fun s hs => hnames s (by simp [hs]), hfront, List.filterMap_append, hbefore,
      List.filterMap_eq_nil_iff.2 hzs, List.append_nil]
  · rw [named_of_isSome fun s hs => hnames s (by simp [hs]), hback, hafter]

end

/-! ## Entries and rules -/

/-- The rule `r`, between `front` and `back`, is left out and has the entry `s`, between `before`
and `after`. Without the rule the network is the same but for the entry. -/
structure Omits (options : CompileOptions) (n : Network) (front : List Rule) (r : Rule)
    (back : List Rule) (before : List Skip) (s : Skip) (after : List Skip) : Prop where
  /-- The rule is left out. -/
  isLeftOut : isLeftOut r = true
  /-- The entry has the name of the rule. -/
  name : r.name = some s.rule
  /-- The report has the entry. -/
  skipped : n.report.skipped = before ++ s :: after
  /-- The other rules are compiled as before. -/
  without : compile options (front ++ back) = .ok (n.withSkipped (before ++ after))

section
variable {options : CompileOptions} {rules front back : List Rule} {n : Network} {r : Rule}
  {name : String} {s : Skip}

/-- A rule that is skipped as an axiom can be left out. -/
lemma omits_of_axiomSkip? (hnames : ∀ r' ∈ front ++ r :: back, r'.name.isSome)
    (h : compile options (front ++ r :: back) = .ok n) (hr : r.name = some name)
    (hs : axiomSkip? (name, r) = some s) :
    Omits options n front r back ((named front).filterMap axiomSkip?) s
      ((named back).filterMap axiomSkip? ++
        (named (front ++ r :: back)).filterMap (planSkip? options)) := by
  have hentry : axiomSkip? (name, r) = some s ∨ planSkip? options (name, r) = some s := .inl hs
  have hnone : planSkip? options (name, r) = none :=
    axiomSkip?_eq_none_or.resolve_left (by rw [hs]; exact Option.some_ne_none s)
  have hout : isLeftOut r = true := exists_skip_iff.1 ⟨s, hentry⟩
  refine ⟨hout, by rw [hr, rule_of_skip hentry], ?_, ?_⟩
  · rw [skipped_of_compile h, named_append_cons hnames hr]
    simp [hs, hnone]
  · rw [compile_without hnames hout h, named_append_cons hnames hr]
    simp [hnone]

/-- A rule that is skipped as it is planned can be left out. -/
lemma omits_of_planSkip? (hnames : ∀ r' ∈ front ++ r :: back, r'.name.isSome)
    (h : compile options (front ++ r :: back) = .ok n) (hr : r.name = some name)
    (hs : planSkip? options (name, r) = some s) :
    Omits options n front r back
      ((named (front ++ r :: back)).filterMap axiomSkip? ++
        (named front).filterMap (planSkip? options)) s
      ((named back).filterMap (planSkip? options)) := by
  have hentry : axiomSkip? (name, r) = some s ∨ planSkip? options (name, r) = some s := .inr hs
  have hnone : axiomSkip? (name, r) = none :=
    axiomSkip?_eq_none_or.resolve_right (by rw [hs]; exact Option.some_ne_none s)
  have hout : isLeftOut r = true := exists_skip_iff.1 ⟨s, hentry⟩
  refine ⟨hout, by rw [hr, rule_of_skip hentry], ?_, ?_⟩
  · rw [skipped_of_compile h, named_append_cons hnames hr]
    simp [hs, hnone]
  · rw [compile_without hnames hout h, named_append_cons hnames hr]
    simp [hnone]

/-- A rule that is left out has an entry that goes with it. -/
lemma exists_omits (hnames : ∀ r' ∈ front ++ r :: back, r'.name.isSome)
    (h : compile options (front ++ r :: back) = .ok n) (hr : isLeftOut r = true) :
    ∃ before s after, Omits options n front r back before s after := by
  obtain ⟨name, hname⟩ := Option.isSome_iff_exists.1 (hnames r (by simp))
  obtain ⟨s, hs | hs⟩ : ∃ s, axiomSkip? (name, r) = some s ∨
      planSkip? options (name, r) = some s := exists_skip_iff.2 hr
  · exact ⟨_, s, _, omits_of_axiomSkip? hnames h hname hs⟩
  · exact ⟨_, s, _, omits_of_planSkip? hnames h hname hs⟩

/-- An entry has a rule that it goes with. -/
lemma exists_omits_of_skipped (hnames : ∀ r ∈ rules, r.name.isSome)
    (h : compile options rules = .ok n) {before after : List Skip}
    (hs : n.report.skipped = before ++ s :: after) :
    ∃ front r back, rules = front ++ r :: back ∧ Omits options n front r back before s after := by
  -- the entries of axioms stand before those of other rules
  have hcases : (∃ mid, (named rules).filterMap axiomSkip? = before ++ s :: mid ∧
        after = mid ++ (named rules).filterMap (planSkip? options)) ∨
      ∃ mid, before = (named rules).filterMap axiomSkip? ++ mid ∧
        (named rules).filterMap (planSkip? options) = mid ++ s :: after := by
    rw [skipped_of_compile h, List.append_eq_append_iff] at hs
    obtain ⟨mid, hbefore, hplans⟩ | ⟨mid, haxioms, hafter⟩ := hs
    · exact .inr ⟨mid, hbefore, hplans⟩
    · cases mid with
      | nil => exact .inr ⟨[], by simpa using haxioms.symm, hafter.symm⟩
      | cons t mid =>
        obtain ⟨rfl, rfl⟩ := List.cons.inj hafter
        exact .inl ⟨mid, haxioms, rfl⟩
  obtain ⟨mid, haxioms, rfl⟩ | ⟨mid, rfl, hplans⟩ := hcases
  · obtain ⟨front, r, back, name, rfl, hname, hr, rfl, rfl⟩ :=
      exists_rule_of_filterMap_named hnames haxioms
    exact ⟨front, r, back, rfl, omits_of_axiomSkip? hnames h hname hr⟩
  · obtain ⟨front, r, back, name, rfl, hname, hr, rfl, rfl⟩ :=
      exists_rule_of_filterMap_named hnames hplans
    exact ⟨front, r, back, rfl, omits_of_planSkip? hnames h hname hr⟩

/-- Rules that are left out leave no trace. For each of them the report has an entry, each entry
is that of such a rule, and without the rule the list is compiled to the same network but for
the entry. -/
theorem compile_omit (hnames : ∀ r ∈ rules, r.name.isSome) (h : compile options rules = .ok n) :
    (∀ front r back, rules = front ++ r :: back → isLeftOut r = true →
      ∃ before s after, Omits options n front r back before s after) ∧
    ∀ before s after, n.report.skipped = before ++ s :: after →
      ∃ front r back, rules = front ++ r :: back ∧ Omits options n front r back before s after := by
  refine ⟨?_, fun before s after hs => exists_omits_of_skipped hnames h hs⟩
  rintro front r back rfl hr
  exact exists_omits hnames h hr

end

/-- An axiom with an action in its head, a rule with a rule in its body and two good rules, all of
one name. -/
theorem compile_omit_of_one_name :
    let edge (s o : String) : Clause := .pattern ⟨.var ⟨s⟩, .iri "p", .var ⟨o⟩⟩
    let drop : Clause := .functor ⟨"drop", []⟩
    let good : Rule := ⟨some "x", [edge "a" "b"], [drop]⟩
    let inner : Rule := ⟨some "x", [.nested none [] [drop], edge "a" "c", drop], [drop]⟩
    let rules : List Rule := [⟨some "x", [], [edge "a" "b", drop]⟩, good, inner, good]
    (∀ r ∈ rules, r.name.isSome) ∧ ∃ n, compile {} rules = .ok n ∧
      n.terminals.map (·.name) = ["x_terminal", "x_terminal_2"] ∧
      ∃ before s after, n.report.skipped = before ++ s :: after ∧
        compile {} [rules[0], good, good] = .ok (n.withSkipped (before ++ after)) := by
  intro edge drop good inner rules
  have hnames : ∀ r ∈ rules, r.name.isSome := by decide
  have hrun : (compile {} rules).map (fun n => n.terminals.map (·.name)) =
      .ok ["x_terminal", "x_terminal_2"] := by decide +kernel
  refine ⟨hnames, ?_⟩
  cases hcompile : compile {} rules with
  | error e => rw [hcompile] at hrun; exact nomatch hrun
  | ok n =>
    rw [hcompile] at hrun
    obtain ⟨before, s, after, homits⟩ :=
      (compile_omit hnames hcompile).1 [rules[0], good] inner [good] rfl (by decide)
    exact ⟨n, rfl, Except.ok.inj hrun, before, s, after, homits.skipped, homits.without⟩

end RuleFlow.Network
