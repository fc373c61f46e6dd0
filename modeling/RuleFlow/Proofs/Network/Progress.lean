import RuleFlow.Proofs.Graph.Flows
import RuleFlow.Proofs.Network.Correctness
import RuleFlow.Proofs.Network.Layers
import RuleFlow.Proofs.Network.Outline

/-!
# Rules that are read never end a compilation

The registry is ready when its operators are well built and tidy, and when no name but those of
filters and joins begins with a parenthesis (`Registry.Ready`). A planned operator then finds
its name free, or taken by an operator of the same outline, and a terminal gets a free name. So
admitting a rule always succeeds and leaves the registry ready (`Ready.install`).

Names of rules that were read begin with a letter. When the names that the options give do not
begin with a parenthesis either, every list of rules is compiled, and the network is wired into
any graph (`compile_total`).
-/

namespace RuleFlow

namespace Registry
open Canonical Network

/-- Only filters and joins have names that begin like keys. -/
structure Ready (bound : ℕ) (r : Registry) : Prop where
  /-- Operators are well built. -/
  sound : r.Sound bound
  /-- Names are given once. -/
  tidy : r.Tidy
  /-- The other operators have other names. -/
  apart : ∀ op ∈ r.toList, op.kind.isShared = false → ¬ IsOpened op.name
  /-- Reserved names are no keys. -/
  reserved : ∀ name ∈ r.reserved, ¬ IsOpened name

/-- The registry has the outlines that it had and those that came. -/
def Gains (r r' : Registry) (os : List Outline) : Prop :=
  ∀ o, o ∈ outlines r'.toList ↔ o ∈ outlines r.toList ∨ o ∈ os

theorem Gains.refl (r : Registry) : Gains r r [] :=
  fun _ => (or_iff_left List.not_mem_nil).symm

/-- What is gained in two steps is gained in the first and then in the second. -/
theorem Gains.trans {r r' r'' : Registry} {os os' : List Outline} (h : Gains r r' os)
    (h' : Gains r' r'' os') : Gains r r'' (os ++ os') := by
  intro o
  rw [h' o, h o, List.mem_append, or_assoc]

section
variable {bound : ℕ} {r r' : Registry} {op : Operator}

/-- Registering an operator gains its outline. -/
lemma gains_register (h : r.register op = .ok r') : Gains r r' (outlines [op]) := by
  obtain ⟨-, -, -, hlist⟩ := register_spec h
  intro o
  rw [hlist, outlines_append, List.mem_append]

/-- A registry stays ready when a well-built operator is registered. -/
lemma Ready.register (hr : r.Ready bound) (h : r.register op = .ok r')
    (hop : WellBuilt bound r.Holds op) (hname : op.kind.isShared = false → ¬ IsOpened op.name) :
    r'.Ready bound := by
  obtain ⟨-, -, -, hlist⟩ := register_spec h
  refine ⟨hr.sound.register hop h, hr.tidy.register h, ?_, ?_⟩
  · rw [hlist]
    exact List.forall_mem_append.2 ⟨hr.apart, List.forall_mem_singleton.2 hname⟩
  · rw [reserved_register h]
    exact hr.reserved

/-- The operator that has the name of a planned one has its outline. -/
theorem Ready.outline_eq (hr : r.Ready bound) (hop : WellBuilt bound r.Holds op)
    (hshared : op.kind.isShared = true) {found : Operator} (hget : r.get? op.name = some found) :
    found ∈ r.toList ∧ found.kind.isShared = true ∧ outline found = outline op := by
  obtain ⟨hmem, hname⟩ := (hr.tidy.get?_iff _ _).1 hget
  obtain ⟨ps, hmade⟩ := hop.exists_madeFor hshared
  have hfound : found.kind.isShared = true := by
    by_contra hother
    exact hr.apart found hmem (Bool.eq_false_iff.2 hother) (hname ▸ hmade.isOpened_name)
  exact ⟨hmem, hfound, (hr.sound.built _ _ hget).outline_eq hop hfound hshared hname⟩

/-- A planned operator is always adopted. -/
theorem Ready.adopt (hr : r.Ready bound) (hop : WellBuilt bound r.Holds op)
    (hshared : op.kind.isShared = true) :
    ∃ r', r.adopt op = .ok r' ∧ r'.Ready bound ∧ Gains r r' (outlines [op]) := by
  cases hget : r.get? op.name with
  | none =>
    obtain ⟨ps, hmade⟩ := hop.exists_madeFor hshared
    have hfree : r.isTaken op.name = false :=
      isTaken_eq_false_iff.2 ⟨hget, fun hmem => hr.reserved _ hmem hmade.isOpened_name⟩
    obtain ⟨r', hr'⟩ := exists_register_iff.2 hfree
    refine ⟨r', (adopt_of_none hget).trans hr', hr.register hr' hop ?_, gains_register hr'⟩
    intro hnot
    rw [hshared] at hnot
    exact nomatch hnot
  | some found =>
    obtain ⟨hmem, hfound, houtline⟩ := hr.outline_eq hop hshared hget
    have harity : found.arity = op.arity :=
      congrArg List.length (congrArg Outline.vars houtline)
    refine ⟨r, adopt_of_some hget (congrArg Outline.kind houtline) harity, hr, fun o => ?_⟩
    -- the outline was there before
    rw [outlines_singleton, if_pos hshared, List.mem_singleton]
    refine (or_iff_left_of_imp ?_).symm
    rintro rfl
    exact mem_outlines.2 ⟨found, hmem, hfound, houtline⟩

/-- Planned operators are always adopted one after another. -/
theorem Ready.adoptAll (hr : r.Ready bound) {ops : List Operator} (hops : Planned bound ops) :
    ∃ r', ops.foldlM Registry.adopt r = .ok r' ∧ r'.Ready bound ∧
      Gains r r' (outlines ops) := by
  induction hops with
  | nil => exact ⟨r, rfl, hr, .refl r⟩
  | @snoc ops op hops hop hshared ih =>
    obtain ⟨mid, hmid, hready, hgains⟩ := ih
    obtain ⟨-, -, hstand, -⟩ := hr.sound.adoptAll hops hmid
    -- what the operator is built on stands in the registry already
    obtain ⟨r', hlast, hr', hgains'⟩ := hready.adopt (hop.transfer hstand) hshared
    refine ⟨r', ?_, hr', outlines_append ops [op] ▸ hgains.trans hgains'⟩
    rw [List.foldlM_append, hmid]
    show [op].foldlM Registry.adopt mid = _
    rw [List.foldlM_cons, hlast]
    rfl

/-- A terminal is not named like a key when its rule is not. -/
lemma not_isOpened_uniqueName {name : String} (h : ¬ IsOpened name) (r : Registry) :
    ¬ IsOpened (r.uniqueName (name ++ "_terminal")) := by
  intro hopen
  obtain ⟨s, hs⟩ := exists_uniqueName_eq r (name ++ "_terminal")
  rw [hs, IsOpened, String.toList_append, String.toList_append, List.head?_append,
    List.head?_append] at hopen
  cases hname : name.toList.head? with
  | none =>
    rw [hname] at hopen
    change some '_' = some '(' at hopen
    exact absurd hopen (by decide)
  | some c =>
    rw [hname] at hopen
    exact h (hname.trans hopen)

/-- A rule is always admitted. -/
theorem Ready.install (hr : r.Ready bound) {p : RulePlan} (hp : p.Sound bound)
    (hname : ¬ IsOpened p.name) : ∃ r', install r p = .ok r' ∧ r'.Ready bound ∧
      Gains r r' (outlines p.plan.operators) := by
  obtain ⟨mid, hmid, hready, hgains⟩ := hr.adoptAll hp.planned
  have hfree : mid.isTaken (Operator.terminal (terminalOf mid p)).name = false :=
    hready.tidy.filed.isTaken_uniqueName (p.name ++ "_terminal")
  obtain ⟨r', hlast⟩ := exists_register_iff.2 hfree
  have hready' : r'.Ready bound :=
    hready.register hlast (.other rfl) fun _ => not_isOpened_uniqueName hname mid
  refine ⟨r', ?_, hready', ?_⟩
  · rw [Network.install, hmid]
    exact hlast
  · have hall := hgains.trans (gains_register hlast)
    have hterminal : outlines [.terminal (terminalOf mid p)] = [] := rfl
    rwa [hterminal, List.append_nil] at hall

/-- Rules are always admitted one after another. -/
theorem Ready.installAll (hr : r.Ready bound) {plans : List RulePlan}
    (hplans : ∀ p ∈ plans, p.Sound bound ∧ ¬ IsOpened p.name) :
    ∃ r', plans.foldlM Network.install r = .ok r' ∧ r'.Ready bound ∧
      Gains r r' (plans.flatMap fun p => outlines p.plan.operators) := by
  induction plans generalizing r with
  | nil => exact ⟨r, rfl, hr, .refl r⟩
  | cons p plans ih =>
    obtain ⟨⟨hp, hname⟩, hrest⟩ := List.forall_mem_cons.1 hplans
    obtain ⟨mid, hmid, hready, hgains⟩ := hr.install hp hname
    obtain ⟨r', hlast, hr', hgains'⟩ := ih hready hrest
    refine ⟨r', ?_, hr', ?_⟩
    · rw [List.foldlM_cons, hmid]
      exact hlast
    · rw [List.flatMap_cons]
      exact hgains.trans hgains'

end

end Registry

open Canonical Registry

/-- The names of the options are different, and none of them begins with a parenthesis. -/
structure CompileOptions.Apart (options : CompileOptions) : Prop where
  /-- No name is given twice. -/
  nodup : [options.source, options.axiomSource, options.conflictSet].Nodup
  /-- The names are no keys. -/
  names : ∀ name ∈ [options.source, options.axiomSource, options.conflictSet], ¬ IsOpened name

namespace Network

section
variable {options : CompileOptions} {rules : List Rule}

lemma nameClash?_eq_none (ho : options.Apart) : nameClash? options = none := by
  have hnodup := ho.nodup
  simp only [List.nodup_cons, List.mem_cons, List.not_mem_nil, or_false, not_or] at hnodup
  obtain ⟨⟨hne, hne'⟩, hne'', -⟩ := hnodup
  rw [nameClash?, if_neg hne, if_neg]
  rintro (heq | heq)
  · exact hne' heq.symm
  · exact hne'' heq.symm

/-- The registry that a compilation begins with is ready. -/
theorem exists_foundation (ho : options.Apart) (bound : ℕ) (axioms : List Pattern) :
    ∃ r, foundation options axioms = .ok r ∧ r.Ready bound ∧ outlines r.toList = [] := by
  obtain ⟨hnodup, hnames⟩ := ho
  simp only [List.nodup_cons, List.mem_cons, List.not_mem_nil, or_false, not_or] at hnodup
  obtain ⟨⟨hne, hne'⟩, hne'', -⟩ := hnodup
  obtain ⟨hsource, hnames⟩ := List.forall_mem_cons.1 hnames
  obtain ⟨haxioms, hnames⟩ := List.forall_mem_cons.1 hnames
  have hconflict := List.forall_mem_singleton.1 hnames
  let empty := Registry.empty.reserve options.source
  have hempty : empty.Ready bound :=
    ⟨sound_reserve_empty bound _, tidy_reserve_empty _, List.forall_mem_nil _,
      List.forall_mem_singleton.2 hsource⟩
  have hfree : empty.isTaken (Operator.conflictSet options.conflictSet).name = false := by
    rw [Bool.eq_false_iff, Ne, hempty.tidy.filed.isTaken_iff]
    exact fun hmem => hne' (List.mem_singleton.1 hmem).symm
  obtain ⟨mid, hfirst⟩ := exists_register_iff.2 hfree
  have hmid : mid.Ready bound := hempty.register hfirst (.other rfl) fun _ => hconflict
  have hfree' : mid.isTaken (Operator.axiomSource options.axiomSource axioms).name = false := by
    obtain ⟨-, -, -, hlist⟩ := register_spec hfirst
    rw [Bool.eq_false_iff, Ne, hmid.tidy.filed.isTaken_iff, hlist, reserved_register hfirst]
    intro hmem
    rcases List.mem_cons.1 hmem with heq | hmem
    · exact hne'' heq
    · exact hne (List.mem_singleton.1 hmem).symm
  obtain ⟨r, hlast⟩ := exists_register_iff.2 hfree'
  have hfoundation : foundation options axioms = .ok r := by
    rw [foundation, hfirst]
    exact hlast
  refine ⟨r, hfoundation, hmid.register hlast (.other rfl) fun _ => haxioms, ?_⟩
  rw [(foundation_spec hfoundation).2.2]
  rfl

/-- Names of rules that were read do not begin with a parenthesis. -/
lemma not_isOpened_of_mem_named (hrules : ∀ r ∈ rules, r.Legible) {name : String} {r : Rule}
    (h : (name, r) ∈ named rules) : r.Legible ∧ ¬ IsOpened name := by
  obtain ⟨hr, i, hi⟩ := of_mem_named h
  have hlegible : r.Legible := hrules r hr
  change name = r.name.getD ("rule_" ++ toString i) at hi
  refine ⟨hlegible, hi ▸ ?_⟩
  cases hname : r.name with
  | none =>
    have hletter : (("rule_" : String) ++ toString i).toList.head? = some 'r' := by
      rw [String.toList_append, List.head?_append]
      rfl
    rw [Option.getD_none, IsOpened, hletter]
    decide
  | some name =>
    obtain ⟨⟨c, hc, hstart⟩, -⟩ := hlegible.isName hname
    intro hopen
    obtain rfl := Option.some.inj (hopen.symm.trans hc)
    exact absurd hstart (ne_true_of_eq_false (Reader.isNameStart_eq_false (by decide)))

/-- Rules that were read are always compiled, and the filters and joins have the outlines of
those that are planned for the rules. -/
theorem exists_compile (ho : options.Apart) (hrules : ∀ r ∈ rules, r.Legible) :
    ∃ n, compile options rules = .ok n ∧
      ∀ o, o ∈ outlines n.operators ↔
        ∃ p ∈ plansOf options rules, o ∈ outlines p.plan.operators := by
  let bound := boundFor options.searchBound
  obtain ⟨base, hbase, hready, hnone⟩ := exists_foundation ho bound (axiomsOf rules)
  have hplans : ∀ p ∈ plansOf options rules, p.Sound bound ∧ ¬ IsOpened p.name := by
    intro p hp
    obtain ⟨name, rule, hrule, hplan⟩ := exists_planRule_of_mem_plansOf hp
    obtain ⟨hlegible, hname⟩ := not_isOpened_of_mem_named hrules hrule
    obtain ⟨heq, -, hsound, -⟩ := planRule_spec hlegible hplan
    exact ⟨hsound, heq ▸ hname⟩
  obtain ⟨registry, hfold, -, hgains⟩ := hready.installAll hplans
  have hbuild : build options (axiomsOf rules) (plansOf options rules) = .ok registry := by
    rw [build, hbase]
    exact hfold
  unfold compile
  rw [nameClash?_eq_none ho]
  change build options ((kept (axiomResults (named rules))).flatMap (·.2))
    ((kept (planResults options (named rules))).map (·.2)) = _ at hbuild
  simp only [hbuild]
  refine ⟨_, rfl, fun o => ?_⟩
  rw [operators, hgains o, hnone, or_iff_right List.not_mem_nil, List.mem_flatMap]

end

/-- Rules that were read are compiled without an error, whatever the rules, the bound and the
other options, when the names of the options are different and none begins with a parenthesis;
and the network is wired without an error into any graph. The canonical form of a pattern is one
pattern, so there is a filter for each pattern of a body. -/
theorem compile_total {text : String} {ps : Prefixes} {rules : List Rule}
    {options : CompileOptions} (hread : Reader.document .standard text = (ps, .ok rules))
    (ho : options.Apart) :
    (∃ n, compile options rules = .ok n ∧ ∀ o g, ∃ g', n.wire o g = .ok g') ∧
    ∀ (d : Draft) (p : Pattern), ∃ f, (d.filter p).2.operators = d.operators ++ [.filter f] ∧
      (form (boundFor options.searchBound) [.pattern p]).clauses = [.pattern f.pattern] := by
  have hrules := (Reader.legible_of_document Prefixes.legible_standard hread).2
  obtain ⟨n, hcompile, -⟩ := exists_compile ho hrules
  obtain ⟨⟨-, hlayered⟩, -, -⟩ := compile_ordered hcompile
  constructor
  · refine ⟨n, hcompile, fun o g => ?_⟩
    obtain ⟨es, hwire, -⟩ := Wiring.wire_drawn o hlayered.linked g
    exact ⟨_, hwire⟩
  · intro d p
    exact ⟨_, rfl, congrArg CanonicalForm.clauses (form_singleton _ p)⟩

/-- Two rules of one name, whose terminals would have the name of the source of facts. -/
theorem compile_total_of_taken_names :
    let text := "[x: (?a <p> ?b) -> (?b <p> ?a)] [x: (?k <p> ?l) -> f(?k)]"
    let edge (s o : String) : Clause := .pattern ⟨.var ⟨s⟩, .iri "p", .var ⟨o⟩⟩
    let rules : List Rule := [⟨some "x", [edge "a" "b"], [edge "b" "a"]⟩,
      ⟨some "x", [edge "k" "l"], [.functor ⟨"f", [.var ⟨"k"⟩]⟩]⟩]
    let options : CompileOptions := { source := "x_terminal" }
    Reader.document .standard text = (.standard, .ok rules) ∧ options.Apart ∧
    ∃ n, compile options rules = .ok n ∧
      n.terminals.map (·.name) = ["x_terminal_2", "x_terminal_3"] ∧
      ∀ o g, ∃ g', n.wire o g = .ok g' := by
  intro text edge rules options
  have hread : Reader.document .standard text = (.standard, .ok rules) := by decide +kernel
  have hapart : options.Apart := ⟨by decide, by decide⟩
  have hrun : (compile options rules).map (fun n => n.terminals.map (·.name)) =
      .ok ["x_terminal_2", "x_terminal_3"] := by decide +kernel
  obtain ⟨⟨n, hcompile, hwire⟩, -⟩ := compile_total hread hapart
  rw [hcompile] at hrun
  exact ⟨hread, hapart, n, hcompile, Except.ok.inj hrun, hwire⟩

end Network
end RuleFlow
