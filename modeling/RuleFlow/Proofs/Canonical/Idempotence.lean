import Mathlib.Data.List.Permutation
import RuleFlow.Proofs.Canonical.Distinct
import RuleFlow.Proofs.Canonical.Renaming

/-!
# Canonical forms of canonical forms

The canonical form of a canonical form is the form itself, as long as every list inside an entry of
a searched list is decisive (`canonical_twice`). A list is searched when more than one order of it
is tried, and decisive when all of its best orders give the same numbers, so that it does not matter
which of them is met first. When an inner list is not decisive, the first pass may leave it in an
order from which the second pass finds a smaller text for another order of the outer list
(`canonical_twice_of_inner_search`).

What is shown of a clause is that it has a similar one that it is numbered as, and that is
numbered as it stands itself (`Again`). For clauses whose lists are all decisive this one is also
numbered as the clause is when other variables have numbers already (`Same`,
`exists_again_of_definite`). That is what a search over such clauses needs, as each order of theirs
comes with other numbers.

A list that is not searched is decisive (`decisive_of_not_searched`), and so is a list of clauses
without symmetry, whose orders stay apart however variables are named
(`decisive_of_asymmetric`).
-/

namespace RuleFlow

/-! ## Searches inside searches -/

namespace Clause

/-- More than one order of the list is tried. -/
def Searched (bound : ℕ) (cs : List Clause) : Prop :=
  1 < Canonical.tieCount (cs.map blindKey) ∧ Canonical.tieCount (cs.map blindKey) ≤ bound

instance (bound : ℕ) (cs : List Clause) : Decidable (Searched bound cs) :=
  inferInstanceAs (Decidable (_ ∧ _))

/-- What the clauses of a list are numbered as in an order. -/
def numbered (bound : ℕ) (o : List Clause) : Canonical.Numberer (List Clause) :=
  Canonical.together (o.map (Canonical.clause bound))

/-- No order that is tried gives a smaller text, when these variables have numbers. -/
structure IsBest (bound : ℕ) (seen : List Variable) (cs o : List Clause) : Prop where
  /-- The order is one of those that are tried. -/
  mem : o ∈ Canonical.orders blindKey bound cs
  /-- The others give no smaller text. -/
  le : ∀ e ∈ Canonical.orders blindKey bound cs,
    (numbered bound o seen).text ≤ (numbered bound e seen).text

/-- Whatever variables have numbers, all best orders of the list are numbered alike. -/
def Decisive (bound : ℕ) (cs : List Clause) : Prop :=
  ∀ seen o e, IsBest bound seen cs o → IsBest bound seen cs e →
    numbered bound o seen = numbered bound e seen

/-- Every list inside the clause is decisive. -/
inductive Definite (bound : ℕ) : Clause → Prop
  | pattern (p : Pattern) : Definite bound (.pattern p)
  | functor (f : Functor) : Definite bound (.functor f)
  | nested {name : Option String} {body head : List Clause} (decisiveBody : Decisive bound body)
      (decisiveHead : Decisive bound head) (inBody : ∀ c ∈ body, Definite bound c)
      (inHead : ∀ c ∈ head, Definite bound c) : Definite bound (.nested name body head)

/-- The entries of every searched list inside the clause are definite. -/
inductive Steady (bound : ℕ) : Clause → Prop
  | pattern (p : Pattern) : Steady bound (.pattern p)
  | functor (f : Functor) : Steady bound (.functor f)
  | nested {name : Option String} {body head : List Clause}
      (searchBody : Searched bound body → ∀ c ∈ body, c.Definite bound)
      (searchHead : Searched bound head → ∀ c ∈ head, c.Definite bound)
      (inBody : ∀ c ∈ body, Steady bound c) (inHead : ∀ c ∈ head, Steady bound c) :
      Steady bound (.nested name body head)

/-- A definite clause is steady. -/
lemma Definite.steady {bound : ℕ} {c : Clause} (h : c.Definite bound) : c.Steady bound := by
  induction c with
  | pattern p => exact .pattern p
  | functor f => exact .functor f
  | nested name body head ihb ihh =>
    cases h with | nested _ _ hb hh =>
    exact .nested (fun _ => hb) (fun _ => hh) (fun c hc => ihb c hc (hb c hc))
      fun c hc => ihh c hc (hh c hc)

end Clause

namespace Canonical

/-! ## Blind keys of similar clauses -/

/-- Texts in ascending order do not depend on the order that they are given in. -/
lemma sortedText_perm {ts us : List String} (h : ts.Perm us) : sortedText ts = sortedText us := by
  have hperm : (sortByKey id ts).Perm (sortByKey id us) :=
    (sortByKey_perm id ts).trans (h.trans (sortByKey_perm id us).symm)
  have hsame : sortByKey id ts = sortByKey id us :=
    hperm.eq_of_pairwise (fun _ _ _ _ hab hba => String.le_antisymm hab hba)
      (pairwise_sortByKey id ts) (pairwise_sortByKey id us)
  rw [sortedText, sortedText, hsame]

/-- Lists of clauses with the same blind keys one by one have the same blind keys. -/
lemma map_blindKey_eq {cs ds : List Clause}
    (h : List.Forall₂ (fun c d => c.blindKey = d.blindKey) cs ds) :
    cs.map Clause.blindKey = ds.map Clause.blindKey := by
  induction h with
  | nil => rfl
  | cons hcd _ ih => rw [List.map_cons, List.map_cons, hcd, ih]

/-- Blind keys do not see the order inside nested rules. -/
theorem blindKey_eq_of_similar {c d : Clause} (h : c.Similar d) : c.blindKey = d.blindKey := by
  induction c generalizing d with
  | pattern p => rw [Clause.similar_pattern_iff.1 h]
  | functor f => rw [Clause.similar_functor_iff.1 h]
  | nested name body head ihb ihh =>
    obtain ⟨body', head', rfl, ⟨bs, hb, pb⟩, ⟨hs, hh, ph⟩⟩ := Clause.similar_nested_iff.1 h
    have hbody := map_blindKey_eq (Clause.forall₂_of_similar (fun c hc _ hd => ihb c hc hd) hb)
    have hhead := map_blindKey_eq (Clause.forall₂_of_similar (fun c hc _ hd => ihh c hc hd) hh)
    simp only [Clause.blindKey, Clause.blindKeys_eq_map, hbody, hhead,
      sortedText_perm (pb.map Clause.blindKey), sortedText_perm (ph.map Clause.blindKey)]

/-! ## Clauses that are numbered as they stand -/

/-- The clause is numbered as the other one stands, and this one as it stands itself. -/
structure Again (bound : ℕ) (seen : List Variable) (c d : Clause) : Prop where
  /-- The order inside nested rules is all that differs. -/
  similar : c.Similar d
  /-- The first clause is numbered as the second stands. -/
  first : clause bound c seen = inOrder d seen
  /-- The second clause is numbered as it stands. -/
  again : clause bound d seen = inOrder d seen

/-- The list is numbered as the other one stands, and this one as it stands itself. -/
structure AgainAll (bound : ℕ) (seen : List Variable) (cs ds : List Clause) : Prop where
  /-- The order is all that differs. -/
  rearranged : Clause.Rearranged cs ds
  /-- The first list is numbered as the second stands. -/
  first : clauses bound cs seen = inOrder ds seen
  /-- The second list is numbered as it stands. -/
  again : clauses bound ds seen = inOrder ds seen

section
variable {bound : ℕ} {seen : List Variable} {cs : List Clause}

/-- A rule whose body and head are numbered as other lists stand is numbered as the rule of these
lists. -/
lemma AgainAll.nested {name : Option String} {body head bs hs : List Clause}
    (hb : AgainAll bound seen body bs)
    (hh : AgainAll bound (note seen (Lettered.mentions bs)) head hs) :
    Again bound seen (.nested name body head) (.nested name bs hs) where
  similar := Clause.similar_nested_iff.2 ⟨bs, hs, rfl, hb.rearranged, hh.rearranged⟩
  first := nested_eq_inOrder hb.first hh.first
  again := nested_eq_inOrder hb.again hh.again

/-- Every order has ascending keys. -/
lemma pairwise_of_mem_orders {o : List Clause} (ho : o ∈ orders Clause.blindKey bound cs) :
    (o.map Clause.blindKey).Pairwise (· ≤ ·) := by
  by_cases hb : tieSpace (ties Clause.blindKey (sortByKey Clause.blindKey cs)) ≤ bound
  · exact ((mem_orders_iff hb).1 ho).2
  · rw [orders_eq_singleton fun h => absurd h hb] at ho
    rw [List.mem_singleton.1 ho]
    exact List.pairwise_map.2 (pairwise_sortByKey _ cs)

/-- Of a list that is not searched the sorted order alone is tried. -/
lemma orders_of_not_searched (h : ¬ Clause.Searched bound cs) :
    orders Clause.blindKey bound cs = [sortByKey Clause.blindKey cs] := by
  refine orders_eq_singleton fun hb => ?_
  rw [tieSpace_ties] at hb ⊢
  exact not_lt.1 fun hlt => h ⟨hlt, hb⟩

/-- The orders of a list are those of each of them. -/
lemma mem_orders_of_mem {o e : List Clause} (ho : o ∈ orders Clause.blindKey bound cs) :
    e ∈ orders Clause.blindKey bound o ↔ e ∈ orders Clause.blindKey bound cs := by
  have hperm := perm_of_mem_orders ho
  by_cases hb : tieCount (cs.map Clause.blindKey) ≤ bound
  · exact (mem_orders_perm hperm.symm hb).symm
  · have hcount := tieCount_perm (hperm.map Clause.blindKey)
    have hnot : ∀ l : List Clause,
        tieCount (l.map Clause.blindKey) = tieCount (cs.map Clause.blindKey) →
        ¬ Clause.Searched bound l := fun l hl hs => hb (hl ▸ hs.2)
    have hone := orders_of_not_searched (hnot cs rfl)
    obtain rfl : o = sortByKey Clause.blindKey cs := List.mem_singleton.1 (hone ▸ ho)
    rw [orders_of_not_searched (hnot _ hcount), hone,
      sortByKey_of_pairwise (pairwise_sortByKey Clause.blindKey cs)]

/-- The order that is chosen is one of the best. -/
lemma exists_isBest (bound : ℕ) (cs : List Clause) (seen : List Variable) :
    ∃ o, Clause.IsBest bound seen cs o ∧ clauses bound cs seen = Clause.numbered bound o seen := by
  obtain ⟨o, ho, heq⟩ := clauses_eq_together bound cs seen
  refine ⟨o, ⟨ho, fun e he => ?_⟩, heq⟩
  rw [Clause.numbered, ← heq]
  exact text_clauses_le seen he

/-- The best order is left as it is when its clauses are and no order of them is better. -/
lemma againAll_of_order {o ds : List Clause} (ho : o ∈ orders Clause.blindKey bound cs)
    (hbest : clauses bound cs seen = Clause.numbered bound o seen)
    (hsimilar : List.Forall₂ Clause.Similar o ds)
    (hfirst : Clause.numbered bound o seen = inOrder ds seen)
    (hagain : Clause.numbered bound ds seen = inOrder ds seen)
    (hmin : ∀ e ∈ orders Clause.blindKey bound ds,
      (Clause.numbered bound ds seen).text ≤ (Clause.numbered bound e seen).text) :
    AgainAll bound seen cs ds := by
  have hsorted : (ds.map Clause.blindKey).Pairwise (· ≤ ·) := by
    rw [← map_blindKey_eq (hsimilar.imp fun _ _ => blindKey_eq_of_similar)]
    exact pairwise_of_mem_orders ho
  exact ⟨.of_perm_of_forall₂ (perm_of_mem_orders ho).symm hsimilar, hbest.trans hfirst,
    (clauses_eq_together_self hsorted hmin).trans hagain⟩

/-- A list that is not searched is left as it is when its clauses are. -/
lemma againAll_of_not_searched {ds : List Clause} (h : ¬ Clause.Searched bound cs)
    (hsimilar : List.Forall₂ Clause.Similar (sortByKey Clause.blindKey cs) ds)
    (hfirst : Clause.numbered bound (sortByKey Clause.blindKey cs) seen = inOrder ds seen)
    (hagain : Clause.numbered bound ds seen = inOrder ds seen) :
    AgainAll bound seen cs ds := by
  have hone := orders_of_not_searched h
  obtain ⟨o, ⟨ho, -⟩, hbest⟩ := exists_isBest bound cs seen
  obtain rfl : o = sortByKey Clause.blindKey cs := List.mem_singleton.1 (hone ▸ ho)
  have hkeys := map_blindKey_eq (hsimilar.imp fun _ _ => blindKey_eq_of_similar)
  -- the second list has the same keys, so it is not searched either, and it is sorted
  have hnot : ¬ Clause.Searched bound ds := by
    rwa [Clause.Searched, ← hkeys, tieCount_perm ((sortByKey_perm _ cs).map _)]
  have hsorted : ds.Pairwise fun a b => a.blindKey ≤ b.blindKey := by
    rw [← List.pairwise_map, ← hkeys]
    exact pairwise_of_mem_orders ho
  refine againAll_of_order ho hbest hsimilar hfirst hagain fun e he => ?_
  rw [orders_of_not_searched hnot, sortByKey_of_pairwise hsorted] at he
  rw [List.mem_singleton.1 he]

/-- Clauses that come into an order one by one do so one after another. -/
lemma exists_numbered_again {R : Clause → Clause → Prop}
    (h : ∀ c ∈ cs, ∀ seen, ∃ d, R c d ∧ Again bound seen c d) (seen : List Variable) :
    ∃ ds, List.Forall₂ R cs ds ∧ Clause.numbered bound cs seen = inOrder ds seen ∧
      Clause.numbered bound ds seen = inOrder ds seen := by
  suffices hturn : ∃ ds, List.Forall₂ R cs ds ∧
      inTurn (cs.map (clause bound)) seen = inTurn (ds.map inOrder) seen ∧
      inTurn (ds.map (clause bound)) seen = inTurn (ds.map inOrder) seen by
    obtain ⟨ds, hds, hfirst, hagain⟩ := hturn
    refine ⟨ds, hds, ?_, ?_⟩
    · rw [← together_map_inOrder, Clause.numbered, together, together, hfirst]
    · rw [← together_map_inOrder, Clause.numbered, together, together, hagain]
  induction cs generalizing seen with
  | nil => exact ⟨[], .nil, rfl, rfl⟩
  | cons c cs ih =>
    obtain ⟨hc, hcs⟩ := List.forall_mem_cons.1 h
    obtain ⟨d, hR, hd⟩ := hc seen
    -- the others come into their order behind the first
    obtain ⟨ds, hds, hfirst, hagain⟩ := ih hcs (inOrder d seen).seen
    refine ⟨d :: ds, .cons hR hds, ?_, ?_⟩
    · simp only [List.map_cons, inTurn, hd.first, hfirst]
    · simp only [List.map_cons, inTurn, hd.again, hagain]

/-! ## Clauses that are numbered alike -/

/-- Whatever variables have numbers, the clauses are numbered alike. -/
structure Same (bound : ℕ) (c d : Clause) : Prop where
  /-- The order inside nested rules is all that differs. -/
  similar : c.Similar d
  /-- The numbers and the texts are the same. -/
  numbers : clause bound c = clause bound d

lemma Same.refl (bound : ℕ) (c : Clause) : Same bound c c := ⟨.refl c, rfl⟩

lemma Same.symm {c d : Clause} (h : Same bound c d) : Same bound d c :=
  ⟨h.similar.symm, h.numbers.symm⟩

/-- Lists whose clauses are numbered alike one by one are numbered alike. -/
lemma numbered_eq_of_same {ds : List Clause} (h : List.Forall₂ (Same bound) cs ds) :
    Clause.numbered bound cs = Clause.numbered bound ds := by
  have hmap : cs.map (clause bound) = ds.map (clause bound) := by
    induction h with
    | nil => rfl
    | cons hcd _ ih => rw [List.map_cons, List.map_cons, hcd.numbers, ih]
  rw [Clause.numbered, Clause.numbered, hmap]

/-- Each order of a list is numbered as some order of another one, when both are sorted and their
clauses are numbered alike one by one. -/
lemma exists_order_of_same {os ds e : List Clause} (h : List.Forall₂ (Same bound) os ds)
    (hsorted : (os.map Clause.blindKey).Pairwise (· ≤ ·))
    (he : e ∈ orders Clause.blindKey bound ds) :
    ∃ o ∈ orders Clause.blindKey bound os, Clause.numbered bound o = Clause.numbered bound e := by
  have hkeys : os.map Clause.blindKey = ds.map Clause.blindKey :=
    map_blindKey_eq (h.imp fun _ _ hcd => blindKey_eq_of_similar hcd.similar)
  by_cases hs : Clause.Searched bound os
  · -- the clauses of the one order are put in the place of those of the other
    have hties : tieSpace (ties Clause.blindKey (sortByKey Clause.blindKey os)) ≤ bound := by
      rw [tieSpace_ties]
      exact hs.2
    have hflip : List.Forall₂ (fun d c => Same bound c d) ds os := h.flip
    obtain ⟨o, heo, hperm⟩ := List.perm_comp_forall₂ (perm_of_mem_orders he) hflip
    have hpairs : List.Forall₂ (Same bound) o e := heo.flip
    have hkeys' := map_blindKey_eq (hpairs.imp fun _ _ hcd => blindKey_eq_of_similar hcd.similar)
    exact ⟨o, (mem_orders_iff hties).2 ⟨hperm, hkeys' ▸ pairwise_of_mem_orders he⟩,
      numbered_eq_of_same hpairs⟩
  · have hs' : ¬ Clause.Searched bound ds := by
      rwa [Clause.Searched, ← hkeys]
    have hself : ∀ l : List Clause, ¬ Clause.Searched bound l →
        (l.map Clause.blindKey).Pairwise (· ≤ ·) → orders Clause.blindKey bound l = [l] := by
      intro l hl hl'
      rw [orders_of_not_searched hl, sortByKey_of_pairwise (List.pairwise_map.1 hl')]
    rw [hself ds hs' (hkeys ▸ hsorted), List.mem_singleton] at he
    rw [hself os hs hsorted, he]
    exact ⟨os, List.mem_singleton.2 rfl, numbered_eq_of_same h⟩

section
variable {o ds : List Clause}

/-- A searched list is left as it is by a second pass when its clauses are numbered alike. -/
lemma againAll_of_same (ho : Clause.IsBest bound seen cs o)
    (hbest : clauses bound cs seen = Clause.numbered bound o seen)
    (h : List.Forall₂ (Same bound) o ds)
    (hfirst : Clause.numbered bound o seen = inOrder ds seen) : AgainAll bound seen cs ds := by
  refine againAll_of_order ho.mem hbest (h.imp fun _ _ hcd => hcd.similar) hfirst
    (numbered_eq_of_same h ▸ hfirst) fun e he => ?_
  obtain ⟨o', ho', heq⟩ := exists_order_of_same h (pairwise_of_mem_orders ho.mem) he
  rw [← numbered_eq_of_same h, ← heq]
  exact ho.le o' ((mem_orders_of_mem ho.mem).1 ho')

/-- A decisive list is numbered as the list that takes the place of one of its orders. -/
lemma clauses_eq_of_same (hdecisive : Clause.Decisive bound cs)
    (ho : o ∈ orders Clause.blindKey bound cs) (h : List.Forall₂ (Same bound) o ds) :
    clauses bound cs = clauses bound ds := by
  funext seen
  have hsorted := pairwise_of_mem_orders ho
  have hkeys := map_blindKey_eq (h.imp fun _ _ hcd => blindKey_eq_of_similar hcd.similar)
  have hback : List.Forall₂ (Same bound) ds o := h.flip.imp fun _ _ hcd => hcd.symm
  obtain ⟨b, hb, hfirst⟩ := exists_isBest bound cs seen
  obtain ⟨e, he, hsecond⟩ := exists_isBest bound ds seen
  obtain ⟨o', ho', heq⟩ := exists_order_of_same h hsorted he.mem
  -- the order that is chosen for the second list is a best one of the first
  have hbest : Clause.IsBest bound seen cs o' := by
    refine ⟨(mem_orders_of_mem ho).1 ho', fun f hf => ?_⟩
    obtain ⟨e', he', heq'⟩ := exists_order_of_same hback (hkeys ▸ hsorted)
      ((mem_orders_of_mem ho).2 hf)
    rw [heq, ← heq']
    exact he.le e' he'
  rw [hfirst, hsecond, ← heq]
  exact hdecisive seen b o' hb hbest

end

/-- A list comes into an order when its clauses do and are numbered alike in it. If it is decisive,
it is numbered as the list in this order then. -/
lemma exists_againAll_of_same (h : ∀ c ∈ cs, ∀ seen, ∃ d, Same bound c d ∧ Again bound seen c d)
    (seen : List Variable) : ∃ ds, AgainAll bound seen cs ds ∧
      (Clause.Decisive bound cs → clauses bound cs = clauses bound ds) := by
  obtain ⟨o, ho, hbest⟩ := exists_isBest bound cs seen
  obtain ⟨ds, hds, hfirst, -⟩ :=
    exists_numbered_again (fun c hc => h c ((perm_of_mem_orders ho.mem).subset hc)) seen
  exact ⟨ds, againAll_of_same ho hbest hds hfirst,
    fun hdecisive => clauses_eq_of_same hdecisive ho.mem hds⟩

/-- Rules whose bodies and heads are numbered alike are numbered alike. -/
lemma clause_nested_congr {name : Option String} {body head bs hs : List Clause}
    (hb : clauses bound body = clauses bound bs) (hh : clauses bound head = clauses bound hs) :
    clause bound (.nested name body head) = clause bound (.nested name bs hs) := by
  have hb' : inBestOrder bound (keyed bound body) = inBestOrder bound (keyed bound bs) := hb
  have hh' : inBestOrder bound (keyed bound head) = inBestOrder bound (keyed bound hs) := hh
  simp only [clause, ruleOf, hb', hh']

/-- A clause whose lists are all decisive comes into an order in which it is numbered as before,
whatever variables have numbers. -/
theorem exists_again_of_definite {c : Clause} (h : c.Definite bound) (seen : List Variable) :
    ∃ d, Same bound c d ∧ Again bound seen c d := by
  induction c generalizing seen with
  | pattern p =>
    have hclause := congrFun (clause_pattern bound p) seen
    exact ⟨_, .refl bound _, .pattern p, hclause, hclause⟩
  | functor f =>
    have hclause := congrFun (clause_functor bound f) seen
    exact ⟨_, .refl bound _, .functor f, hclause, hclause⟩
  | nested name body head ihb ihh =>
    cases h with | nested hdb hdh hb hh =>
    obtain ⟨bs, hbs, hsameb⟩ := exists_againAll_of_same (fun c hc => ihb c hc (hb c hc)) seen
    obtain ⟨hs, hhs, hsameh⟩ := exists_againAll_of_same (fun c hc => ihh c hc (hh c hc))
      (note seen (Lettered.mentions bs))
    have hagain : Again bound seen (.nested name body head) (.nested name bs hs) := hbs.nested hhs
    exact ⟨_, ⟨hagain.similar, clause_nested_congr (hsameb hdb) (hsameh hdh)⟩, hagain⟩

/-! ## Clauses that are left as they are -/

/-- A list is left as it is when its clauses are and, if it is searched, are definite. -/
private lemma exists_againAll_of (hs : Clause.Searched bound cs → ∀ c ∈ cs, c.Definite bound)
    (h : ∀ c ∈ cs, ∀ seen, ∃ d, Again bound seen c d) (seen : List Variable) :
    ∃ ds, AgainAll bound seen cs ds := by
  by_cases hsearch : Clause.Searched bound cs
  · obtain ⟨ds, hds, -⟩ := exists_againAll_of_same
      (fun c hc => exists_again_of_definite (hs hsearch c hc)) seen
    exact ⟨ds, hds⟩
  · have hsorted : ∀ c ∈ sortByKey Clause.blindKey cs, ∀ seen,
        ∃ d, c.Similar d ∧ Again bound seen c d := by
      intro c hc seen
      obtain ⟨d, hd⟩ := h c ((sortByKey_perm _ cs).subset hc) seen
      exact ⟨d, hd.similar, hd⟩
    obtain ⟨ds, hds, hfirst, hagain⟩ := exists_numbered_again hsorted seen
    exact ⟨ds, againAll_of_not_searched hsearch hds hfirst hagain⟩

/-- A clause is left as it is by a second pass when the entries of its searched lists are
definite. -/
theorem exists_again {c : Clause} (h : c.Steady bound) (seen : List Variable) :
    ∃ d, Again bound seen c d := by
  induction c generalizing seen with
  | pattern p => exact (exists_again_of_definite (.pattern p) seen).imp fun _ hd => hd.2
  | functor f => exact (exists_again_of_definite (.functor f) seen).imp fun _ hd => hd.2
  | nested name body head ihb ihh =>
    cases h with | nested hsb hsh hb hh =>
    obtain ⟨bs, hbs⟩ := exists_againAll_of hsb (fun c hc => ihb c hc (hb c hc)) seen
    obtain ⟨hs, hhs⟩ := exists_againAll_of hsh (fun c hc => ihh c hc (hh c hc))
      (note seen (Lettered.mentions bs))
    exact ⟨.nested name bs hs, hbs.nested hhs⟩

/-! ## Decisive lists -/

/-- A list that is not searched is decisive. -/
lemma decisive_of_not_searched (h : ¬ Clause.Searched bound cs) : Clause.Decisive bound cs := by
  intro seen o e ho he
  have hone := orders_of_not_searched h
  have hsame : ∀ o ∈ orders Clause.blindKey bound cs, o = sortByKey Clause.blindKey cs :=
    fun o ho => List.mem_singleton.1 (hone ▸ ho)
  rw [hsame o ho.mem, hsame e he.mem]

/-- A clause alone is not searched. -/
lemma not_searched_singleton (c : Clause) : ¬ Clause.Searched bound [c] := by
  simp [Clause.Searched, tieCount]

/-- A list is decisive when it has no rules inside and its orders cannot be made equal by naming
variables. -/
theorem decisive_of_asymmetric (hflat : ∀ c ∈ cs, clause bound c = inOrder c)
    (hdelimited : ∀ c ∈ cs, c.Delimited Set.univ)
    (h : ∀ o ∈ orders Clause.blindKey bound cs, ∀ e ∈ orders Clause.blindKey bound cs,
      ∀ σ τ : Variable → Variable, Set.InjOn σ {v | v ∈ cs.flatMap Clause.mentions} →
        Set.InjOn τ {v | v ∈ cs.flatMap Clause.mentions} →
        o.map (Clause.rename σ) = e.map (Clause.rename τ) → o = e) :
    Clause.Decisive bound cs := by
  intro seen o e ho he
  have hstands : ∀ o ∈ orders Clause.blindKey bound cs,
      Clause.numbered bound o seen = inOrder o seen := by
    intro o ho
    have hmap : o.map (clause bound) = o.map inOrder :=
      List.map_congr_left fun c hc => hflat c ((perm_of_mem_orders ho).subset hc)
    rw [Clause.numbered, hmap, together_map_inOrder]
  let σ (o : List Clause) : Variable → Variable := numbering (note seen (Lettered.mentions o))
  have hinj : ∀ o ∈ orders Clause.blindKey bound cs,
      Set.InjOn (σ o) {v | v ∈ cs.flatMap Clause.mentions} := by
    intro o ho
    refine (numbering_injOn _).mono fun v hv => mem_note.2 (.inr ?_)
    exact ((perm_of_mem_orders ho).flatMap_right Clause.mentions).mem_iff.2 hv
  have hwordy : ∀ o ∈ orders Clause.blindKey bound cs,
      ∀ c ∈ o.map (Clause.rename (σ o)), c.Delimited wordy := by
    intro o ho c hc
    obtain ⟨d, hd, rfl⟩ := List.mem_map.1 hc
    exact (hdelimited d ((perm_of_mem_orders ho).subset hd)).rename
      fun v _ => numberedVariable_mem_wordy _
  -- both texts are smallest, so they are one text, which has one reading
  have htext : (Clause.numbered bound o seen).text = (Clause.numbered bound e seen).text :=
    String.le_antisymm (ho.le e he.mem) (he.le o ho.mem)
  rw [hstands o ho.mem, hstands e he.mem] at htext ⊢
  have hvalue : o.map (Clause.rename (σ o)) = e.map (Clause.rename (σ e)) :=
    Clause.joinWith_render_inj (hwordy o ho.mem) (hwordy e he.mem) htext
  rw [h o ho.mem e he.mem (σ o) (σ e) (hinj o ho.mem) (hinj e he.mem) hvalue]

/-- Two clauses without rules inside are decisive when no naming of variables swaps them. -/
lemma decisive_pair {c d : Clause} (hflat : clause bound c = inOrder c ∧ clause bound d = inOrder d)
    (hdelimited : c.Delimited Set.univ ∧ d.Delimited Set.univ)
    (h : ∀ σ τ : Variable → Variable, Set.InjOn σ {v | v ∈ [c, d].flatMap Clause.mentions} →
      Set.InjOn τ {v | v ∈ [c, d].flatMap Clause.mentions} →
      [c, d].map (Clause.rename σ) ≠ [d, c].map (Clause.rename τ)) :
    Clause.Decisive bound [c, d] := by
  refine decisive_of_asymmetric ?_ ?_ fun o ho e he σ τ hσ hτ heq => ?_
  · exact List.forall_mem_cons.2 ⟨hflat.1, List.forall_mem_singleton.2 hflat.2⟩
  · exact List.forall_mem_cons.2 ⟨hdelimited.1, List.forall_mem_singleton.2 hdelimited.2⟩
  · rcases List.perm_pair.1 (perm_of_mem_orders ho) with rfl | rfl
    · rcases List.perm_pair.1 (perm_of_mem_orders he) with rfl | rfl
      · rfl
      · exact absurd heq (h σ τ hσ hτ)
    · rcases List.perm_pair.1 (perm_of_mem_orders he) with rfl | rfl
      · exact absurd heq.symm (h τ σ hτ hσ)
      · rfl

/-- Two steps of a path are decisive when its ends are not one variable. -/
lemma decisive_steps {iri : String} (hiri : IsEnclosed iri) {u v w : Variable} (hne : u ≠ w) :
    Clause.Decisive bound
      [.pattern ⟨.var v, .iri iri, .var w⟩, .pattern ⟨.var u, .iri iri, .var v⟩] := by
  have hdelimited : ∀ x y : Variable,
      Clause.Delimited Set.univ (.pattern ⟨.var x, .iri iri, .var y⟩) :=
    fun x y => .pattern (Pattern.delimited_iff.2 ⟨trivial, hiri, trivial⟩)
  refine decisive_pair ⟨clause_pattern _ _, clause_pattern _ _⟩ ⟨hdelimited _ _, hdelimited _ _⟩
    fun σ τ hσ _ heq => ?_
  have hstep : ∀ (ρ : Variable → Variable) x y,
      Clause.rename ρ (.pattern ⟨.var x, .iri iri, .var y⟩) =
        .pattern ⟨.var (ρ x), .iri iri, .var (ρ y)⟩ := fun ρ _ _ => Clause.rename_pattern ρ _
  simp only [List.map_cons, List.map_nil, hstep, List.cons.injEq, Clause.pattern.injEq,
    Pattern.mk.injEq, Term.var.injEq] at heq
  obtain ⟨⟨-, -, hw⟩, ⟨hu, -, -⟩, -⟩ := heq
  -- a naming that swaps the steps gives both ends of the path the name of its middle
  have hmember : u ∈ [v, w, u, v] ∧ w ∈ [v, w, u, v] := by simp
  exact hne (hσ hmember.1 hmember.2 (hu.trans hw.symm))

/-! ## Forms of forms -/

/-- The canonical form of the clauses of a canonical form is this form, with numbered variables
that have their own numbers. -/
theorem form_form (hs : Clause.Searched bound cs → ∀ c ∈ cs, c.Definite bound)
    (h : ∀ c ∈ cs, c.Steady bound) :
    form bound (form bound cs).clauses = { form bound cs with order := (form bound cs).vars } := by
  obtain ⟨ds, hds⟩ := exists_againAll_of hs (fun c hc => exists_again (h c hc)) []
  have hsame : form bound cs = form bound ds := by
    show CanonicalForm.mk _ _ _ = CanonicalForm.mk _ _ _
    rw [hds.first, hds.again]
  have hclauses : (form bound ds).clauses =
      ds.map (Clause.rename (numbering (form bound ds).order)) := by
    show (clauses bound ds []).value = ds.map (Clause.rename (numbering (clauses bound ds []).seen))
    rw [hds.again]
    rfl
  have hinj : Set.InjOn (numbering (form bound ds).order) {v | v ∈ ds.flatMap Clause.mentions} :=
    (numbering_injOn _).mono fun v hv => mem_order_iff.2 hv
  rw [hsame, hclauses, form_map_rename hinj, map_numbering (nodup_order bound ds)]
  rfl

/-- The canonical form of a canonical rule is this rule. -/
theorem canonicalRule_canonicalRule {r : Rule} (h : r.toClause.Steady bound) :
    canonicalRule bound (canonicalRule bound r) = canonicalRule bound r := by
  obtain ⟨d, hd⟩ := exists_again h []
  obtain ⟨body, head, rfl, -, -⟩ := Clause.similar_nested_iff.1 hd.similar
  let s : Rule := ⟨r.name, body, head⟩
  have hsame : canonicalRule bound r = canonicalRule bound s :=
    toClause_injective (congrArg Numbered.value (hd.first.trans hd.again.symm))
  have hvalue : canonicalRule bound s = s.rename (numbering (note [] s.toClause.mentions)) := by
    apply toClause_injective
    calc (canonicalRule bound s).toClause
        = s.toClause.rename (numbering (note [] s.toClause.mentions)) :=
          congrArg Numbered.value hd.again
      _ = _ := Clause.rename_nested _ _ _ _
  have hinj : Set.InjOn (numbering (note [] s.toClause.mentions)) {v | v ∈ s.variables} :=
    (numbering_injOn _).mono fun v hv => mem_note.2 (.inr (mem_variables_iff.1 hv))
  calc canonicalRule bound (canonicalRule bound r)
      = canonicalRule bound (s.rename (numbering (note [] s.toClause.mentions))) := by
        rw [hsame, hvalue]
    _ = canonicalRule bound s := (canonicalRule_rename bound hinj).1
    _ = canonicalRule bound r := hsame.symm

end

end Canonical
end RuleFlow
