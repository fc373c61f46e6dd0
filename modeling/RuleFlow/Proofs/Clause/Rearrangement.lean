import Mathlib.Data.List.Perm.Basic
import RuleFlow.Proofs.Clause.Substitution

/-!
# Clauses in another order

Two clauses are similar when they differ in the order of the clauses inside nested rules alone,
at any depth. A list of clauses is a rearrangement of another when its members can be paired
with similar ones.

Both relations are equivalences. Substitution keeps them, and related clauses have the same
mentions. A rearrangement keeps patterns and functors as they are and permutes them.
-/

namespace RuleFlow.Clause

/-- The clauses differ in the order of clauses inside nested rules alone. -/
inductive Similar : Clause → Clause → Prop
  /-- A pattern is similar to itself alone. -/
  | pattern (p : Pattern) : Similar (.pattern p) (.pattern p)
  /-- A functor is similar to itself alone. -/
  | functor (f : Functor) : Similar (.functor f) (.functor f)
  /-- Nested rules are similar when their bodies and their heads can be brought into orders in
  which they are similar clause by clause. -/
  | nested (name : Option String) {body bodyMid body' head headMid head' : List Clause}
      (similarBody : List.Forall₂ Similar body bodyMid) (permBody : bodyMid.Perm body')
      (similarHead : List.Forall₂ Similar head headMid) (permHead : headMid.Perm head') :
      Similar (.nested name body head) (.nested name body' head')

/-- The second list has, in any order, the clauses of the first or similar ones. -/
def Rearranged (cs ds : List Clause) : Prop := ∃ es, List.Forall₂ Similar cs es ∧ es.Perm ds

/-- The clauses similar to a rule are rules of its name with rearranged bodies and heads. -/
theorem similar_nested_iff {name : Option String} {body head : List Clause} {d : Clause} :
    Similar (.nested name body head) d ↔ ∃ body' head', d = .nested name body' head' ∧
      Rearranged body body' ∧ Rearranged head head' := by
  constructor
  · intro h
    cases h with
    | nested _ hb pb hh ph => exact ⟨_, _, rfl, ⟨_, hb, pb⟩, ⟨_, hh, ph⟩⟩
  · rintro ⟨body', head', rfl, ⟨bs, hb, pb⟩, ⟨hs, hh, ph⟩⟩
    exact .nested name hb pb hh ph

@[simp] theorem similar_pattern_iff {p : Pattern} {d : Clause} :
    Similar (.pattern p) d ↔ d = .pattern p :=
  ⟨fun h => by cases h; rfl, fun h => h ▸ .pattern p⟩

@[simp] theorem similar_functor_iff {f : Functor} {d : Clause} :
    Similar (.functor f) d ↔ d = .functor f :=
  ⟨fun h => by cases h; rfl, fun h => h ▸ .functor f⟩

/-- What holds of each clause and its similar ones holds along a list. -/
lemma forall₂_of_similar {P : Clause → Clause → Prop} {cs ds : List Clause}
    (ih : ∀ c ∈ cs, ∀ d, Similar c d → P c d) (h : List.Forall₂ Similar cs ds) :
    List.Forall₂ P cs ds :=
  ((List.forall₂_and_left cs ds).2 ⟨ih, h⟩).imp fun _ d hd => hd.1 d hd.2

theorem Similar.refl (c : Clause) : Similar c c := by
  induction c with
  | pattern p => exact .pattern p
  | functor f => exact .functor f
  | nested name body head ihb ihh =>
    exact .nested name (List.forall₂_same.2 ihb) (.refl _) (List.forall₂_same.2 ihh) (.refl _)

/-- A permutation is a rearrangement. -/
theorem Rearranged.of_perm {cs ds : List Clause} (h : cs.Perm ds) : Rearranged cs ds :=
  ⟨cs, List.forall₂_same.2 fun c _ => Similar.refl c, h⟩

/-- Rearranging a permuted list is rearranging the list. -/
theorem Rearranged.of_perm_of_forall₂ {cs ds es : List Clause} (hp : cs.Perm ds)
    (hs : List.Forall₂ Similar ds es) : Rearranged cs es := by
  obtain ⟨mid, hmid, hperm⟩ := List.perm_comp_forall₂ hp hs
  exact ⟨mid, hmid, hperm⟩

theorem Similar.symm {c d : Clause} (h : Similar c d) : Similar d c := by
  induction c generalizing d with
  | pattern p =>
    rw [similar_pattern_iff.1 h]
    exact Similar.refl _
  | functor f =>
    rw [similar_functor_iff.1 h]
    exact Similar.refl _
  | nested name body head ihb ihh =>
    obtain ⟨body', head', rfl, ⟨bs, hb, pb⟩, ⟨hs, hh, ph⟩⟩ := similar_nested_iff.1 h
    have hb' : List.Forall₂ Similar bs body :=
      (forall₂_of_similar (P := flip Similar) (fun c hc _ hd => ihb c hc hd) hb).flip
    have hh' : List.Forall₂ Similar hs head :=
      (forall₂_of_similar (P := flip Similar) (fun c hc _ hd => ihh c hc hd) hh).flip
    exact similar_nested_iff.2 ⟨body, head, rfl, .of_perm_of_forall₂ pb.symm hb',
      .of_perm_of_forall₂ ph.symm hh'⟩

theorem Rearranged.symm {cs ds : List Clause} (h : Rearranged cs ds) : Rearranged ds cs := by
  obtain ⟨es, hs, hp⟩ := h
  exact .of_perm_of_forall₂ hp.symm
    (List.Forall₂.flip (hs.imp fun _ _ (hcd : Similar _ _) => hcd.symm))

/-- Rearranging twice is rearranging once when this is so of the clauses. -/
private lemma rearranged_trans_of {cs ds es : List Clause}
    (ih : ∀ c ∈ cs, ∀ d e, Similar c d → Similar d e → Similar c e) (h : Rearranged cs ds)
    (h' : Rearranged ds es) : Rearranged cs es := by
  obtain ⟨fs, hs, hp⟩ := h
  obtain ⟨gs, hs', hp'⟩ := h'
  -- the second pairing is carried over to the order of the first
  obtain ⟨mid, hmid, hperm⟩ := List.perm_comp_forall₂ hp hs'
  refine ⟨mid, ?_, hperm.trans hp'⟩
  clear hp hs' hperm
  induction hs generalizing mid with
  | nil => exact hmid
  | cons hcf _ ihs =>
    obtain ⟨ihc, ihcs⟩ := List.forall_mem_cons.1 ih
    obtain ⟨m, ms, hm, hms, rfl⟩ := List.forall₂_cons_left_iff.1 hmid
    exact .cons (ihc _ _ hcf hm) (ihs ihcs _ hms)

/-- Clauses similar to similar ones are similar. -/
theorem Similar.trans {c d e : Clause} (h : Similar c d) (h' : Similar d e) : Similar c e := by
  induction c generalizing d e with
  | pattern p => rwa [similar_pattern_iff.1 h] at h'
  | functor f => rwa [similar_functor_iff.1 h] at h'
  | nested name body head ihb ihh =>
    obtain ⟨body', head', rfl, hb, hh⟩ := similar_nested_iff.1 h
    obtain ⟨body'', head'', rfl, hb', hh'⟩ := similar_nested_iff.1 h'
    exact similar_nested_iff.2 ⟨body'', head'', rfl,
      rearranged_trans_of (fun c hc _ _ => ihb c hc) hb hb',
      rearranged_trans_of (fun c hc _ _ => ihh c hc) hh hh'⟩

theorem Rearranged.trans {cs ds es : List Clause} (h : Rearranged cs ds)
    (h' : Rearranged ds es) : Rearranged cs es :=
  rearranged_trans_of (fun _ _ _ _ => .trans) h h'

/-- What each clause of a list passes on to its partner holds of all clauses, wherever they
stand. -/
lemma forall_mem_of_forall₂ {P : Clause → Prop} {cs ds es : List Clause}
    (h : List.Forall₂ (fun c d => P c → P d) cs es) (hp : es.Perm ds) (hcs : ∀ c ∈ cs, P c) :
    ∀ d ∈ ds, P d := by
  suffices hes : ∀ e ∈ es, P e from fun d hd => hes d (hp.mem_iff.2 hd)
  clear hp
  induction h with
  | nil => exact nofun
  | cons hcd _ ih =>
    obtain ⟨hc, hcs⟩ := List.forall_mem_cons.1 hcs
    exact List.forall_mem_cons.2 ⟨hcd hc, ih hcs⟩

/-! ## Substitution -/

/-- Similar clauses stay so when terms are put in the places of variables. -/
theorem Similar.subst (θ : Assignment) {c d : Clause} (h : Similar c d) :
    Similar (c.subst θ) (d.subst θ) := by
  induction c generalizing d with
  | pattern p =>
    rw [similar_pattern_iff.1 h]
    exact Similar.refl _
  | functor f =>
    rw [similar_functor_iff.1 h]
    exact Similar.refl _
  | nested name body head ihb ihh =>
    obtain ⟨body', head', rfl, ⟨bs, hb, pb⟩, ⟨hs, hh, ph⟩⟩ := similar_nested_iff.1 h
    have hb' : List.Forall₂ Similar (body.map (Clause.subst θ)) (bs.map (Clause.subst θ)) :=
      List.forall₂_map_left_iff.2 (List.forall₂_map_right_iff.2
        (forall₂_of_similar (fun c hc _ hd => ihb c hc hd) hb))
    have hh' : List.Forall₂ Similar (head.map (Clause.subst θ)) (hs.map (Clause.subst θ)) :=
      List.forall₂_map_left_iff.2 (List.forall₂_map_right_iff.2
        (forall₂_of_similar (fun c hc _ hd => ihh c hc hd) hh))
    rw [subst_nested, subst_nested]
    exact .nested name hb' (pb.map _) hh' (ph.map _)

/-- Substitution keeps rearrangements. -/
theorem Rearranged.map_subst (θ : Assignment) {cs ds : List Clause} (h : Rearranged cs ds) :
    Rearranged (cs.map (Clause.subst θ)) (ds.map (Clause.subst θ)) := by
  obtain ⟨es, hs, hp⟩ := h
  refine ⟨es.map (Clause.subst θ), ?_, hp.map _⟩
  exact List.forall₂_map_left_iff.2 (List.forall₂_map_right_iff.2 (hs.imp fun _ _ => .subst θ))

/-! ## Mentions -/

private lemma mem_mentions_congr {cs ds es : List Clause} {v : Variable}
    (h : List.Forall₂ (fun c d => v ∈ c.mentions ↔ v ∈ d.mentions) cs es) (hp : es.Perm ds) :
    v ∈ cs.flatMap mentions ↔ v ∈ ds.flatMap mentions := by
  have hperm : v ∈ es.flatMap mentions ↔ v ∈ ds.flatMap mentions :=
    (hp.flatMap_right mentions).mem_iff
  rw [← hperm]
  clear hperm hp
  induction h with
  | nil => simp
  | cons hcd _ ih => simp only [List.flatMap_cons, List.mem_append, hcd, ih]

/-- Similar clauses mention the same variables. -/
theorem Similar.mem_mentions {c d : Clause} (h : Similar c d) (v : Variable) :
    v ∈ c.mentions ↔ v ∈ d.mentions := by
  induction c generalizing d with
  | pattern p => rw [similar_pattern_iff.1 h]
  | functor f => rw [similar_functor_iff.1 h]
  | nested name body head ihb ihh =>
    obtain ⟨body', head', rfl, ⟨bs, hb, pb⟩, ⟨hs, hh, ph⟩⟩ := similar_nested_iff.1 h
    have hbody := mem_mentions_congr (forall₂_of_similar (fun c hc _ hd => ihb c hc hd) hb) pb
    have hhead := mem_mentions_congr (forall₂_of_similar (fun c hc _ hd => ihh c hc hd) hh) ph
    rw [mentions_nested, mentions_nested, List.flatMap_append, List.flatMap_append,
      List.mem_append, List.mem_append, hbody, hhead]

/-- A rearranged list mentions the same variables. -/
theorem Rearranged.mem_mentions {cs ds : List Clause} (h : Rearranged cs ds) (v : Variable) :
    v ∈ cs.flatMap mentions ↔ v ∈ ds.flatMap mentions := by
  obtain ⟨es, hs, hp⟩ := h
  exact mem_mentions_congr (hs.imp fun _ _ hcd => hcd.mem_mentions v) hp

/-! ## Patterns and functors -/

/-- Similar clauses have the same parts when these do not depend on the order inside rules. -/
private lemma filterMap_eq_of_similar {α : Type} {part? : Clause → Option α} {cs ds : List Clause}
    (hpart : ∀ c d, Similar c d → part? c = part? d) (h : List.Forall₂ Similar cs ds) :
    cs.filterMap part? = ds.filterMap part? := by
  induction h with
  | nil => rfl
  | cons hcd _ ih => rw [List.filterMap_cons, List.filterMap_cons, hpart _ _ hcd, ih]

/-- Rearranging permutes the patterns. -/
theorem Rearranged.patterns {cs ds : List Clause} (h : Rearranged cs ds) :
    (cs.filterMap pattern?).Perm (ds.filterMap pattern?) := by
  obtain ⟨es, hs, hp⟩ := h
  have heq : cs.filterMap pattern? = es.filterMap pattern? :=
    filterMap_eq_of_similar (fun c d hcd => by cases hcd <;> rfl) hs
  rw [heq]
  exact hp.filterMap pattern?

/-- Rearranging permutes the functors. -/
theorem Rearranged.functors {cs ds : List Clause} (h : Rearranged cs ds) :
    (cs.filterMap functor?).Perm (ds.filterMap functor?) := by
  obtain ⟨es, hs, hp⟩ := h
  have heq : cs.filterMap functor? = es.filterMap functor? :=
    filterMap_eq_of_similar (fun c d hcd => by cases hcd <;> rfl) hs
  rw [heq]
  exact hp.filterMap functor?

/-- Rearranging brings no nested rule in and takes none away. -/
theorem Rearranged.any_isNested {cs ds : List Clause} (h : Rearranged cs ds) :
    cs.any isNested = ds.any isNested := by
  obtain ⟨es, hs, hp⟩ := h
  rw [← hp.any_eq]
  clear hp
  induction hs with
  | nil => rfl
  | cons hcd _ ih =>
    rw [List.any_cons, List.any_cons, ih]
    cases hcd <;> rfl

/-- Rearranging patterns is permuting them. -/
theorem Rearranged.perm_of_patterns {ps : List Pattern} {ds : List Clause}
    (h : Rearranged (ps.map .pattern) ds) : (ps.map .pattern).Perm ds := by
  obtain ⟨es, hs, hp⟩ := h
  have heq : es = ps.map .pattern := by
    clear hp
    induction ps generalizing es with
    | nil => exact List.forall₂_nil_left_iff.1 hs
    | cons p ps ih =>
      obtain ⟨e, rest, hpe, hrest, rfl⟩ := List.forall₂_cons_left_iff.1 hs
      rw [similar_pattern_iff.1 hpe, ih _ hrest, List.map_cons]
  exact heq ▸ hp

end RuleFlow.Clause
