import RuleFlow.Network.Compile
import RuleFlow.Proofs.Network.WellBuilt

/-!
# Plans are well built

`Stage` is what holds between two steps of planning a body: the operators planned so far are
well built one on another, each piece of the work list is matched by one of them, and as long
as there is something left to be joined no operator has the key of the whole body. A step of
`reduce` leads from stage to stage (`Stage.join`), hence the plan of a body ends with an operator
that is made for its distinct patterns and has the bare key of these as its name
(`planBody_spec`). The plan of a rule is the one of its canonical body (`planRule_cases`).
-/

namespace RuleFlow.Network
open Canonical

/-! ## Names of occurrences -/

/-- The name of an occurrence begins with its key and tells it. -/
lemma isNamed_occurrenceName (keys : List String) (key : String) :
    IsNamed (occurrenceName keys key) key := by
  unfold occurrenceName
  split
  · exact ⟨"", String.append_empty.symm, by simp⟩
  · next n _ =>
    refine ⟨"#" ++ toString (n + 2), String.append_assoc, ?_⟩
    rw [String.toList_append, List.mem_append]
    rintro (h | h)
    · exact absurd h (by decide)
    · have hdigit : Char.isDigit ')' = true := by
        refine Nat.isDigit_of_mem_toDigits (b := 10) (n := n + 2) (by omega) (by omega) ?_
        rwa [← Nat.toList_repr]
      exact absurd hdigit (by decide)

/-- The first occurrence of a key is named by it. -/
lemma occurrenceName_of_notMem {keys : List String} {key : String} (h : key ∉ keys) :
    occurrenceName keys key = key := by
  rw [occurrenceName, List.count_eq_zero_of_not_mem h]

/-- A key gets another name each time it occurs. -/
lemma count_eq_of_occurrenceName_eq {keys keys' : List String} {key : String}
    (h : occurrenceName keys key = occurrenceName keys' key) :
    keys.count key = keys'.count key := by
  -- one of the names is bare exactly when the other is
  have hbare : ∀ n : ℕ, key ≠ key ++ "#" ++ toString (n + 2) := by
    intro n he
    have hmark : "#".length = 1 := rfl
    have hlength := congrArg String.length he
    rw [String.length_append, String.length_append, hmark] at hlength
    omega
  unfold occurrenceName at h
  split at h
  · next hzero =>
    split at h
    · next hzero' => rw [hzero, hzero']
    · exact absurd h (hbare _)
  · next n hn =>
    split at h
    · exact absurd h.symm (hbare _)
    · next n' hn' =>
      have hnumber : n + 2 = n' + 2 := toString_injective ((String.append_right_inj _).1 h)
      omega

/-- A new occurrence has none of the names that were given before. -/
theorem occurrenceName_ne {before after : List String} {key key' : String}
    (hkey : IsClosed key) (hkey' : IsClosed key') :
    occurrenceName (before ++ key' :: after) key ≠ occurrenceName before key' := by
  intro h
  obtain rfl : key = key' := by
    have hnamed := isNamed_occurrenceName (before ++ key' :: after) key
    rw [h] at hnamed
    exact hnamed.unique (isNamed_occurrenceName before key') hkey hkey'
  have hcount := count_eq_of_occurrenceName_eq h
  rw [List.count_append, List.count_cons_self] at hcount
  omega

/-! ## Filters -/

section
variable {bound : ℕ} {d : Draft}

lemma formOf_singleton (bound : ℕ) (p : Pattern) :
    formOf bound [p] =
      ⟨(pattern p []).text, [.pattern (pattern p []).value], (pattern p []).seen⟩ :=
  form_singleton bound p

/-- The filter of a pattern as it is planned. -/
def filterOf (d : Draft) (p : Pattern) : Filter :=
  ⟨occurrenceName d.keys (pattern p []).text, (pattern p []).value,
    numberedVariables (pattern p []).seen.length⟩

/-- Planning a filter, in terms of the form of its pattern. -/
lemma filter_eq (bound : ℕ) (d : Draft) (p : Pattern) :
    d.filter p =
      (⟨occurrenceName d.keys (formOf bound [p]).key, (formOf bound [p]).order, [.pattern p]⟩,
        { d with operators := d.operators ++ [.filter (filterOf d p)],
                 keys := d.keys ++ [(formOf bound [p]).key] }) := by
  rw [formOf_singleton]
  rfl

/-- A planned filter is well built and matches its pattern. -/
lemma filter_spec {p : Pattern} (hd : Planned bound d.operators) (hp : p.Legible) :
    Planned bound (d.filter p).2.operators ∧
    Backed bound (· ∈ (d.filter p).2.operators) (d.filter p).1 ∧
    (d.filter p).1.patterns = [p] ∧
    (d.filter p).2.keys = d.keys ++ [(formOf bound [p]).key] ∧
    (∀ op ∈ d.operators, op ∈ (d.filter p).2.operators) := by
  have hform := formOf_singleton bound p
  -- the form of one pattern is the pattern with its variables numbered
  have hmade : MadeFor bound [p] (.filter (filterOf d p)) :=
    { ne_nil := List.cons_ne_nil p []
      legible := fun q hq => List.mem_singleton.1 hq ▸ hp
      shared := rfl
      named := by
        rw [hform]
        exact isNamed_occurrenceName d.keys _
      body := by
        rw [hform]
        rfl
      vars := by
        rw [hform]
        rfl }
  rw [filter_eq bound]
  refine ⟨.snoc hd (.filter hmade) rfl, ⟨rfl, rfl, .filter (filterOf d p), ?_, ?_, hmade⟩, rfl,
    rfl, fun op hop => List.mem_append_left _ hop⟩
  · exact List.mem_append_right _ (List.mem_singleton.2 rfl)
  · rw [hform]
    rfl

/-- Planned filters are well built and match their patterns one by one. -/
lemma filters_spec {ps : List Pattern} (hd : Planned bound d.operators)
    (hps : ∀ p ∈ ps, p.Legible) :
    Planned bound (d.filters ps).2.operators ∧
    (∀ piece ∈ (d.filters ps).1, Backed bound (· ∈ (d.filters ps).2.operators) piece) ∧
    (d.filters ps).1.map Piece.patterns = ps.map ([·]) ∧
    (d.filters ps).2.keys = d.keys ++ ps.map (fun p => (formOf bound [p]).key) ∧
    (∀ op ∈ d.operators, op ∈ (d.filters ps).2.operators) := by
  induction ps generalizing d with
  | nil => exact ⟨hd, List.forall_mem_nil _, rfl, (List.append_nil _).symm, fun _ h => h⟩
  | cons p ps ih =>
    obtain ⟨hp, hps⟩ := List.forall_mem_cons.1 hps
    obtain ⟨hd₁, hback, hpatterns, hkeys, hsub⟩ := filter_spec hd hp
    obtain ⟨hd₂, hbacks, hall, hkeys₂, hsub₂⟩ := ih hd₁ hps
    refine ⟨hd₂, ?_, ?_, ?_, fun op hop => hsub₂ op (hsub op hop)⟩
    · exact List.forall_mem_cons.2 ⟨hback.mono hsub₂, hbacks⟩
    · show (d.filter p).1.patterns :: _ = _
      rw [hpatterns]
      exact congrArg ([p] :: ·) hall
    · show ((d.filter p).2.filters ps).2.keys = _
      rw [hkeys₂, hkeys, List.append_assoc]
      rfl

/-! ## Joins -/

/-- The join of two pieces as it is planned. -/
def joinOf (bound : ℕ) (window : Window) (d : Draft) (left right : Piece) : Join :=
  let form := formOf bound (left.patterns ++ right.patterns)
  { name := occurrenceName d.keys form.key
    left := left.name
    right := right.name
    template := form.clauses
    vars := form.vars
    matchLeft := positions left.vars right.vars
    matchRight := positions right.vars left.vars
    templateLeft := positions form.order left.vars
    templateRight := positions form.order right.vars
    window := window }

/-- Planning the join of two pieces of patterns, in terms of the form of all patterns. -/
lemma join_eq {left right : Piece} (window : Window)
    (hleft : left.clauses = left.patterns.map .pattern)
    (hright : right.clauses = right.patterns.map .pattern) :
    d.join bound window left right =
      (⟨occurrenceName d.keys (formOf bound (left.patterns ++ right.patterns)).key,
          (formOf bound (left.patterns ++ right.patterns)).order,
          (left.patterns ++ right.patterns).map .pattern⟩,
        { operators := d.operators ++ [.join (joinOf bound window d left right)]
          keys := d.keys ++ [(formOf bound (left.patterns ++ right.patterns)).key]
          crossJoins := if left.meets right then d.crossJoins
            else d.crossJoins ++ [(left.name, right.name)] }) := by
  have hclauses : left.clauses ++ right.clauses =
      (left.patterns ++ right.patterns).map .pattern := by
    rw [List.map_append, ← hleft, ← hright]
  simp only [Draft.join, hclauses]
  rfl

/-- A planned join is well built and matches the patterns of both sides. -/
lemma join_spec {left right : Piece} (window : Window) (hd : Planned bound d.operators)
    (hleft : Backed bound (· ∈ d.operators) left)
    (hright : Backed bound (· ∈ d.operators) right) :
    Planned bound (d.join bound window left right).2.operators ∧
    Backed bound (· ∈ (d.join bound window left right).2.operators)
      (d.join bound window left right).1 ∧
    (d.join bound window left right).1.patterns = left.patterns ++ right.patterns ∧
    (d.join bound window left right).1.name =
      occurrenceName d.keys (formOf bound (left.patterns ++ right.patterns)).key ∧
    (d.join bound window left right).2.keys =
      d.keys ++ [(formOf bound (left.patterns ++ right.patterns)).key] ∧
    (∀ op ∈ d.operators, op ∈ (d.join bound window left right).2.operators) := by
  have hmade : MadeFor bound (left.patterns ++ right.patterns)
      (.join (joinOf bound window d left right)) :=
    { ne_nil := List.append_ne_nil_of_left_ne_nil hleft.ne_nil _
      legible := List.forall_mem_append.2 ⟨hleft.legible, hright.legible⟩
      shared := rfl
      named := isNamed_occurrenceName d.keys _
      body := rfl
      vars := rfl }
  have heq := @join_eq bound d left right window hleft.clauses hright.clauses
  have hpatterns : (d.join bound window left right).1.patterns = left.patterns ++ right.patterns := by
    rw [heq]
    exact filterMap_map_pattern _
  have hops : (d.join bound window left right).2.operators =
      d.operators ++ [.join (joinOf bound window d left right)] := by
    rw [heq]
  refine ⟨hops ▸ .snoc hd (.join hmade hleft hright rfl rfl rfl rfl rfl) rfl,
    ⟨?_, ?_, .join (joinOf bound window d left right), ?_, ?_, hpatterns ▸ hmade⟩,
    hpatterns, ?_, ?_, fun op hop => hops ▸ List.mem_append_left _ hop⟩
  · rw [hpatterns, heq]
  · rw [hpatterns, heq]
  · exact hops ▸ List.mem_append_right _ (List.mem_singleton.2 rfl)
  · rw [heq]
    rfl
  · rw [heq]
  · rw [heq]

end

/-! ## The work list -/

lemma perm_of_partner? {left right : Piece} {pieces others : List Piece}
    (h : partner? left pieces = some (right, others)) : (right :: others).Perm pieces := by
  induction pieces generalizing others with
  | nil => exact nomatch h
  | cons p ps ih =>
    unfold partner? at h
    split at h
    · obtain ⟨rfl, rfl⟩ := Prod.mk.inj (Option.some.inj h)
      exact .refl _
    · obtain ⟨⟨q, rest⟩, hq, e⟩ := Option.map_eq_some_iff.1 h
      obtain ⟨rfl, rfl⟩ := Prod.mk.inj e
      exact (List.Perm.swap p q rest).trans ((ih hq).cons p)

/-- Taking the partner out leaves the others. -/
lemma perm_partner (left next : Piece) (rest : List Piece) :
    ((partner left next rest).1 :: (partner left next rest).2).Perm (next :: rest) := by
  unfold partner
  cases h : partner? left (next :: rest) with
  | none => exact .refl _
  | some found => exact perm_of_partner? h

/-- What every join of the first piece with its partner keeps holds of the piece that is left in
the end. -/
theorem reduce_induction {bound : ℕ} {window : Window} {Inv : Draft → List Piece → Prop}
    (step : ∀ d first next rest, Inv d (first :: next :: rest) →
      let found := partner first next rest
      let joined := d.join bound window first found.1
      Inv joined.2 (found.2 ++ [joined.1]))
    {d : Draft} {first : Piece} {pieces : List Piece} (h : Inv d (first :: pieces)) :
    Inv (reduce bound window d first pieces).2 [(reduce bound window d first pieces).1] := by
  fun_induction Network.reduce bound window d first pieces with
  | case1 d first => exact h
  | case2 d first next rest found joined hnone =>
    have hnext : Inv joined.2 (found.2 ++ [joined.1]) := step d first next rest h
    rwa [hnone] at hnext
  | case3 d first next rest found joined p ps hsome ih =>
    have hnext : Inv joined.2 (found.2 ++ [joined.1]) := step d first next rest h
    rw [hsome] at hnext
    exact ih hnext

/-- One key is not the key of more patterns and of fewer. -/
lemma length_eq_of_key_eq {bound : ℕ} {ps qs : List Pattern} (hps : ∀ p ∈ ps, p.Legible)
    (hqs : ∀ q ∈ qs, q.Legible) (h : (formOf bound ps).key = (formOf bound qs).key) :
    ps.length = qs.length := by
  have hclauses : (formOf bound ps).clauses = (formOf bound qs).clauses :=
    clauses_eq_of_key_eq (legible_map_pattern hps) (legible_map_pattern hqs) h
  rw [← length_formOf bound ps, hclauses, length_formOf]

/-- The key is one of fewer than `n` patterns. -/
def IsKeyBelow (bound n : ℕ) (key : String) : Prop :=
  ∃ ps : List Pattern, (∀ p ∈ ps, p.Legible) ∧ key = (formOf bound ps).key ∧ ps.length < n

/-- It is not the key of `n` patterns. -/
lemma IsKeyBelow.ne {bound : ℕ} {ps : List Pattern} {key : String}
    (h : IsKeyBelow bound ps.length key) (hps : ∀ p ∈ ps, p.Legible) :
    (formOf bound ps).key ≠ key := by
  rintro rfl
  obtain ⟨qs, hqs, hkey, hlt⟩ := h
  exact absurd (length_eq_of_key_eq hps hqs hkey) hlt.ne'

/-- What holds of the operators planned so far and the pieces that are left to be joined. -/
structure Stage (bound : ℕ) (d : Draft) (work : List Piece) : Prop where
  /-- The operators are well built one on another. -/
  planned : Planned bound d.operators
  /-- Each piece is matched by an operator. -/
  backed : ∀ piece ∈ work, Backed bound (· ∈ d.operators) piece
  /-- While there is something to be joined, the keys are those of fewer patterns than all. -/
  keys : 2 ≤ work.length →
    ∀ key ∈ d.keys, IsKeyBelow bound (work.flatMap Piece.patterns).length key
  /-- The last piece has a bare key as its name. -/
  bare : ∀ piece, work = [piece] → piece.name = (formOf bound piece.patterns).key

section
variable {bound : ℕ} {d : Draft} {first next : Piece} {rest : List Piece}

/-- Joining the first piece with its partner leads from stage to stage. -/
theorem Stage.join (window : Window) (h : Stage bound d (first :: next :: rest)) :
    let found := partner first next rest
    let joined := d.join bound window first found.1
    Stage bound joined.2 (found.2 ++ [joined.1]) ∧
    ((found.2 ++ [joined.1]).flatMap Piece.patterns).Perm
      ((first :: next :: rest).flatMap Piece.patterns) := by
  intro found joined
  have hperm : (first :: found.1 :: found.2).Perm (first :: next :: rest) :=
    (perm_partner first next rest).cons first
  have hfirst := h.backed first List.mem_cons_self
  have hfound := h.backed found.1 (hperm.subset (by simp))
  have hothers : ∀ piece ∈ found.2, Backed bound (· ∈ d.operators) piece := fun piece hp =>
    h.backed piece (hperm.subset (by simp [hp]))
  obtain ⟨hplanned, hback, hpatterns, hname, hkeys, hsub⟩ :=
    join_spec window h.planned hfirst hfound
  have hall : ((found.2 ++ [joined.1]).flatMap Piece.patterns).Perm
      ((first :: next :: rest).flatMap Piece.patterns) := by
    refine List.Perm.trans ?_ (hperm.flatMap_right Piece.patterns)
    rw [List.flatMap_append, List.flatMap_singleton, hpatterns, List.flatMap_cons,
      List.flatMap_cons, ← List.append_assoc first.patterns]
    exact List.perm_append_comm
  have hlegible : ∀ p ∈ first.patterns ++ found.1.patterns, p.Legible :=
    List.forall_mem_append.2 ⟨hfirst.legible, hfound.legible⟩
  have hearlier := h.keys (by simp)
  rw [← hall.length_eq] at hearlier
  refine ⟨⟨hplanned, ?_, ?_, ?_⟩, hall⟩
  · -- the operators of the other pieces are still there
    refine List.forall_mem_append.2 ⟨fun piece hp => (hothers piece hp).mono hsub, ?_⟩
    exact List.forall_mem_singleton.2 hback
  · intro hmore key hkey
    rw [hkeys, List.mem_append, List.mem_singleton] at hkey
    rcases hkey with hkey | rfl
    · exact hearlier key hkey
    · refine ⟨_, hlegible, rfl, ?_⟩
      -- another piece is left, and it has patterns of its own
      obtain ⟨piece, others, hcons⟩ : ∃ piece others, found.2 = piece :: others := by
        apply List.exists_cons_of_ne_nil
        intro hnil
        rw [hnil] at hmore
        simp at hmore
      have hpos : 0 < piece.patterns.length :=
        List.length_pos_iff.2 (hothers piece (by simp [hcons])).ne_nil
      rw [List.flatMap_append, List.flatMap_singleton, hpatterns, hcons, List.flatMap_cons]
      simp only [List.length_append]
      omega
  · intro piece heq
    obtain ⟨hnil, rfl⟩ : found.2 = [] ∧ joined.1 = piece := by
      cases hf : found.2 with
      | nil =>
        rw [hf] at heq
        exact ⟨rfl, List.singleton_inj.1 heq⟩
      | cons q qs =>
        rw [hf] at heq
        simp at heq
    -- the key of all patterns is new, since earlier keys are of fewer
    rw [hnil, List.nil_append, List.flatMap_singleton, hpatterns] at hearlier
    rw [hpatterns, hname]
    apply occurrenceName_of_notMem
    intro hmem
    exact (hearlier _ hmem).ne hlegible rfl

/-- Reducing the work list ends with one piece that has all the patterns. -/
theorem Stage.reduce (window : Window) {pieces : List Piece}
    (h : Stage bound d (first :: pieces)) :
    Stage bound (reduce bound window d first pieces).2
      [(reduce bound window d first pieces).1] ∧
    (reduce bound window d first pieces).1.patterns.Perm
      ((first :: pieces).flatMap Piece.patterns) := by
  -- the patterns of all pieces stay the same, up to their order
  let Inv := fun (d : Draft) (work : List Piece) => Stage bound d work ∧
    (work.flatMap Piece.patterns).Perm ((first :: pieces).flatMap Piece.patterns)
  have hstep : ∀ d first next rest, Inv d (first :: next :: rest) →
      let found := partner first next rest
      let joined := d.join bound window first found.1
      Inv joined.2 (found.2 ++ [joined.1]) := by
    rintro d first next rest ⟨hstage, hperm⟩
    obtain ⟨hnext, hall⟩ := hstage.join window
    exact ⟨hnext, hall.trans hperm⟩
  have hlast : Inv (Network.reduce bound window d first pieces).2
      [(Network.reduce bound window d first pieces).1] :=
    reduce_induction hstep ⟨h, .refl _⟩
  obtain ⟨hstage, hperm⟩ := hlast
  rw [List.flatMap_singleton] at hperm
  exact ⟨hstage, hperm⟩

end

/-! ## Plans -/

/-- Each pattern has a filter. -/
lemma length_filters (d : Draft) (ps : List Pattern) : (d.filters ps).1.length = ps.length := by
  induction ps generalizing d with
  | nil => rfl
  | cons p ps ih => exact congrArg (· + 1) (ih (d.filter p).2)

/-- The filters of a body are its first stage. -/
lemma stage_filters (bound : ℕ) {ps : List Pattern} (hps : ∀ p ∈ ps, p.Legible) :
    Stage bound (Draft.filters {} ps).2 (Draft.filters {} ps).1 ∧
    (Draft.filters {} ps).1.flatMap Piece.patterns = ps := by
  have hempty : Planned bound ({} : Draft).operators := .nil
  obtain ⟨hplanned, hback, hpatterns, hkeys, -⟩ := filters_spec hempty hps
  have hall : (Draft.filters {} ps).1.flatMap Piece.patterns = ps := by
    rw [List.flatMap_def, hpatterns, ← List.flatMap_def, List.flatMap_singleton']
  have hlength := length_filters {} ps
  refine ⟨⟨hplanned, hback, fun hmore key hkey => ?_, fun piece heq => ?_⟩, hall⟩
  · rw [hkeys] at hkey
    obtain ⟨p, hp, rfl⟩ := List.mem_map.1 ((List.mem_append.1 hkey).resolve_left List.not_mem_nil)
    refine ⟨[p], fun q hq => List.mem_singleton.1 hq ▸ hps p hp, rfl, ?_⟩
    rw [hall, ← hlength]
    exact hmore
  · obtain ⟨p, rfl⟩ : ∃ p, ps = [p] := by
      rw [heq] at hlength
      exact List.length_eq_one_iff.1 hlength.symm
    obtain rfl : (Draft.filter {} p).1 = piece := List.singleton_inj.1 heq
    show occurrenceName [] (pattern p []).text = (formOf bound [p]).key
    rw [formOf_singleton, occurrenceName_of_notMem List.not_mem_nil]

/-- Whatever has patterns has a plan. -/
theorem planBody_eq_none_iff {bound : ℕ} {window : Window} {ps : List Pattern} :
    planBody bound window ps = none ↔ ps = [] := by
  have hlength := length_filters {} ps.eraseDups
  unfold planBody
  split
  · next hd =>
    rw [hd] at hlength
    have hnil : ps.eraseDups = [] := List.length_eq_zero_iff.1 hlength.symm
    apply iff_of_true rfl
    cases ps with
    | nil => rfl
    | cons p ps => rw [List.eraseDups_cons] at hnil; exact nomatch hnil
  · next first rest d hd =>
    rw [hd] at hlength
    apply iff_of_false nofun
    rintro rfl
    exact nomatch hlength

/-- A plan comes from its filters by joining pieces until one is left. -/
lemma planBody_cases {bound : ℕ} {window : Window} {ps : List Pattern} {plan : Plan}
    (h : planBody bound window ps = some plan) :
    ∃ first rest, (Draft.filters {} ps.eraseDups).1 = first :: rest ∧
      plan = ⟨(reduce bound window (Draft.filters {} ps.eraseDups).2 first rest).2.operators,
        (reduce bound window (Draft.filters {} ps.eraseDups).2 first rest).1,
        (reduce bound window (Draft.filters {} ps.eraseDups).2 first rest).2.crossJoins⟩ := by
  unfold planBody at h
  split at h
  · exact nomatch h
  · next first rest d hd =>
    rw [hd]
    exact ⟨first, rest, rfl, (Option.some.inj h).symm⟩

/-- The plan of a body is well built and ends with an operator that is made for the distinct
patterns of the body and has their bare key as its name. -/
theorem planBody_spec {bound : ℕ} {window : Window} {ps : List Pattern} {plan : Plan}
    (hps : ∀ p ∈ ps, p.Legible) (h : planBody bound window ps = some plan) :
    Planned bound plan.operators ∧ Backed bound (· ∈ plan.operators) plan.prior ∧
    plan.prior.patterns.Perm ps.eraseDups ∧
    plan.prior.name = (formOf bound plan.prior.patterns).key := by
  have hdistinct : ∀ p ∈ ps.eraseDups, p.Legible := fun p hp => hps p (List.mem_eraseDups.1 hp)
  obtain ⟨hstage, hall⟩ := stage_filters bound hdistinct
  obtain ⟨first, rest, hwork, rfl⟩ := planBody_cases h
  rw [hwork] at hstage hall
  obtain ⟨hlast, hperm⟩ := hstage.reduce window
  rw [hall] at hperm
  exact ⟨hlast.planned, hlast.backed _ (List.mem_singleton.2 rfl), hperm, hlast.bare _ rfl⟩

/-- The plan of a rule is one for the body of its canonical form. It warns about builtins that are
not supported and about each cross. -/
theorem planRule_cases {options : CompileOptions} {name : String} {r : Rule} {p : RulePlan}
    (h : planRule options name r = .ok p) :
    p.name = name ∧ p.rule = canonicalRule (boundFor options.searchBound) r ∧
    planBody (boundFor options.searchBound) options.window p.rule.bodyPatterns = some p.plan ∧
    ∃ builtins : List String, p.warnings = builtins.map (.unsupportedBuiltin name) ++
      p.plan.crossJoins.map fun c => .crossJoin name c.1 c.2 := by
  unfold planRule at h
  simp only at h
  split at h
  · exact nomatch h
  · split at h
    · exact nomatch h
    · next plan hplan =>
      obtain rfl := Except.ok.inj h
      exact ⟨rfl, rfl, hplan, _, rfl⟩

end RuleFlow.Network
