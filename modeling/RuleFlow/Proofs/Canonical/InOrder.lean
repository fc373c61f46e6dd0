import Mathlib.Data.Set.Function
import RuleFlow.Canonical.Form
import RuleFlow.Proofs.Canonical.Ties
import RuleFlow.Proofs.Clause.Rearrangement

/-!
# Numbering clauses as they stand

`inOrder` numbers the variables of something in the order of their mentions and changes nothing
else: the text is the rendering of the renamed thing. The main statements say that the
canonical form of a clause or of a list of clauses is what `inOrder` makes of a similar clause
(`clause_eq_inOrder`) or of a rearrangement of the list (`clauses_eq_inOrder`).

Hence text and value of a canonical form always agree, the variables with numbers are the
mentioned ones, and nothing but the order of clauses is lost.
-/

namespace RuleFlow.Canonical

/-! ## Variables in the order of their first mention -/

/-- The variables with numbers after some more are mentioned. -/
def note (seen vs : List Variable) : List Variable := vs.foldl Variable.noteIn seen

lemma note_append (seen vs ws : List Variable) :
    note seen (vs ++ ws) = note (note seen vs) ws :=
  List.foldl_append

lemma prefix_noteIn (seen : List Variable) (v : Variable) : seen <+: v.noteIn seen := by
  unfold Variable.noteIn
  split
  · exact List.prefix_rfl
  · exact List.prefix_append _ _

/-- The variables noted before stay at the front. -/
theorem prefix_note (seen vs : List Variable) : seen <+: note seen vs := by
  induction vs generalizing seen with
  | nil => exact List.prefix_rfl
  | cons v vs ih => exact (prefix_noteIn seen v).trans (ih _)

/-- The variables noted are those noted before and those mentioned. -/
theorem mem_note {seen vs : List Variable} {w : Variable} :
    w ∈ note seen vs ↔ w ∈ seen ∨ w ∈ vs := by
  induction vs generalizing seen with
  | nil => simp [note]
  | cons v vs ih =>
    show w ∈ note (v.noteIn seen) vs ↔ _
    rw [ih, Variable.mem_noteIn, List.mem_cons, or_assoc]

/-- No variable is noted twice. -/
theorem nodup_note {seen vs : List Variable} (h : seen.Nodup) : (note seen vs).Nodup := by
  induction vs generalizing seen with
  | nil => exact h
  | cons v vs ih => exact ih (Variable.nodup_noteIn h)

/-- The variable that a numbered variable is renamed to. -/
def numbering (seen : List Variable) (v : Variable) : Variable :=
  numberedVariable (seen.idxOf v)

/-- The number of a variable does not change when more are noted. -/
lemma numbering_of_prefix {s t : List Variable} (h : s <+: t) {v : Variable} (hv : v ∈ s) :
    numbering s v = numbering t v := by
  obtain ⟨rest, rfl⟩ := h
  rw [numbering, numbering, List.idxOf_append_of_mem hv]

/-- Different numbers are written differently. -/
lemma toString_injective : Function.Injective (toString : ℕ → String) := by
  intro m n h
  have hname : m.repr = n.repr := h
  have hdigits : Nat.toDigits 10 m = Nat.toDigits 10 n := by
    rw [← Nat.toList_repr, ← Nat.toList_repr, hname]
  rw [← Nat.ofDigitChars_ten_toDigits (n := m), hdigits, Nat.ofDigitChars_ten_toDigits]

/-- Numbered variables with different numbers differ. -/
lemma numberedVariable_injective : Function.Injective numberedVariable :=
  fun _ _ h => toString_injective (congrArg Variable.name h)

/-- Different variables with numbers have different ones. -/
theorem numbering_injOn (seen : List Variable) : Set.InjOn (numbering seen) {v | v ∈ seen} := by
  intro v hv w _ h
  exact (List.idxOf_inj hv).1 (numberedVariable_injective h)

lemma length_numberedVariables (count : ℕ) : (numberedVariables count).length = count := by
  rw [numberedVariables, List.length_map, List.length_range]

/-- The numbers of all variables with numbers, in order. -/
lemma map_numbering {seen : List Variable} (h : seen.Nodup) :
    seen.map (numbering seen) = numberedVariables seen.length := by
  apply List.ext_getElem (by rw [List.length_map, length_numberedVariables])
  intro i hi hi'
  rw [List.length_map] at hi
  simp only [List.getElem_map, numberedVariables, List.getElem_range, numbering]
  rw [h.idxOf_getElem i hi]

/-! ## Numbering without reordering -/

/-- Things that mention variables, can be renamed and can be written. -/
class Lettered (α : Type) where
  /-- The variables in reading order, with repetitions. -/
  mentions : α → List Variable
  /-- The thing with its variables renamed. -/
  rename : (Variable → Variable) → α → α
  /-- The thing as text. -/
  render : α → String
  /-- A renaming acts on mentioned variables alone. -/
  rename_congr : ∀ {σ τ : Variable → Variable} {a : α},
    (∀ v ∈ mentions a, σ v = τ v) → rename σ a = rename τ a

instance : Lettered Term where
  mentions := Term.mentions
  rename := Term.rename
  render := Term.render
  rename_congr h := Term.subst_congr fun v hv => congrArg Term.var (h v hv)

instance : Lettered Pattern where
  mentions := Pattern.mentions
  rename := Pattern.rename
  render := Pattern.render
  rename_congr h := Pattern.subst_congr fun v hv => congrArg Term.var (h v hv)

instance : Lettered Functor where
  mentions f := Term.mentionsIn f.args
  rename := Functor.rename
  render := Functor.render
  rename_congr h := Functor.subst_congr fun v hv => congrArg Term.var (h v hv)

instance : Lettered Clause where
  mentions := Clause.mentions
  rename := Clause.rename
  render := Clause.render
  rename_congr := Clause.rename_congr

instance {α : Type} [Lettered α] : Lettered (List α) where
  mentions as := as.flatMap Lettered.mentions
  rename σ as := as.map (Lettered.rename σ)
  render as := Text.joinWith " " (as.map Lettered.render)
  rename_congr h := List.map_congr_left fun a ha =>
    Lettered.rename_congr fun v hv => h v (List.mem_flatMap.2 ⟨a, ha, hv⟩)

open Lettered

section
variable {α β : Type} [Lettered α]

/-- A thing with its variables numbered in the order of their mentions. -/
def inOrder (a : α) : Numberer α := fun seen =>
  let seen' := note seen (mentions a)
  let value := rename (numbering seen') a
  ⟨render value, value, seen'⟩

/-- Variables that get numbers later do not change how a thing is renamed. -/
lemma rename_numbering_of_prefix {a : α} {seen t : List Variable}
    (h : note seen (mentions a) <+: t) :
    rename (numbering (note seen (mentions a))) a = rename (numbering t) a :=
  rename_congr fun _ hv => numbering_of_prefix h (mem_note.2 (.inr hv))

/-- What is numbered one after another as it stands is numbered as a list as it stands. -/
theorem together_eq_inOrder {f : β → Numberer α} {R : β → α → Prop} {bs : List β}
    (h : ∀ b ∈ bs, ∀ seen, ∃ a, R b a ∧ f b seen = inOrder a seen) (seen : List Variable) :
    ∃ as, List.Forall₂ R bs as ∧ together (bs.map f) seen = inOrder as seen := by
  -- the texts are taken from the results before they are joined
  suffices hturn : ∃ as, List.Forall₂ R bs as ∧
      (inTurn (bs.map f) seen).1.map (·.text) =
        (as.map (rename (numbering (note seen (mentions as))))).map render ∧
      (inTurn (bs.map f) seen).1.map (·.value) =
        as.map (rename (numbering (note seen (mentions as)))) ∧
      (inTurn (bs.map f) seen).2 = note seen (mentions as) by
    obtain ⟨as, hR, htext, hvalue, hseen⟩ := hturn
    refine ⟨as, hR, ?_⟩
    show Numbered.mk _ _ _ = Numbered.mk _ _ _
    rw [htext, hvalue, hseen]
    rfl
  induction bs generalizing seen with
  | nil => exact ⟨[], .nil, rfl, rfl, rfl⟩
  | cons b bs ih =>
    obtain ⟨a, hRa, hfa⟩ := h b List.mem_cons_self seen
    obtain ⟨as, hR, htext, hvalue, hseen⟩ :=
      ih (fun b' hb' => h b' (List.mem_cons_of_mem _ hb')) (note seen (mentions a))
    have hnote : note (note seen (mentions a)) (mentions as) = note seen (mentions (a :: as)) :=
      (note_append seen (mentions a) (mentions as)).symm
    -- the variables of `a` have their numbers before the others get theirs
    have hfirst : rename (numbering (note seen (mentions a))) a =
        rename (numbering (note seen (mentions (a :: as)))) a :=
      rename_numbering_of_prefix (hnote ▸ prefix_note _ _)
    rw [hnote] at htext hvalue hseen
    refine ⟨a :: as, .cons hRa hR, ?_, ?_, ?_⟩
    · show (f b seen).text :: (inTurn (bs.map f) (f b seen).seen).1.map (·.text) = _
      rw [hfa]
      show render (rename (numbering (note seen (mentions a))) a) ::
        (inTurn (bs.map f) (note seen (mentions a))).1.map (·.text) = _
      rw [htext, hfirst]
      rfl
    · show (f b seen).value :: (inTurn (bs.map f) (f b seen).seen).1.map (·.value) = _
      rw [hfa]
      show rename (numbering (note seen (mentions a))) a ::
        (inTurn (bs.map f) (note seen (mentions a))).1.map (·.value) = _
      rw [hvalue, hfirst]
      rfl
    · show (inTurn (bs.map f) (f b seen).seen).2 = _
      rw [hfa]
      exact hseen

/-- Things numbered as they stand one after another are numbered as a list as it stands. -/
lemma together_map_inOrder (as : List α) : together (as.map inOrder) = inOrder as := by
  funext seen
  have hself : ∀ a ∈ as, ∀ seen, ∃ a', a = a' ∧ inOrder a seen = inOrder a' seen :=
    fun a _ _ => ⟨a, rfl, rfl⟩
  obtain ⟨as', has, htogether⟩ := together_eq_inOrder hself seen
  obtain rfl : as = as' := List.forall₂_eq_eq_eq ▸ has
  exact htogether

end

/-! ## Terms, patterns and functors -/

/-- A term is numbered as it stands. -/
theorem term_eq_inOrder (t : Term) : term t = inOrder t := by
  funext seen
  cases t <;> rfl

theorem pattern_eq_inOrder (p : Pattern) : pattern p = inOrder p := by
  funext seen
  obtain ⟨s, q, o⟩ := p
  have hnote : note (note (note seen s.mentions) q.mentions) o.mentions =
      note seen (Pattern.mentions ⟨s, q, o⟩) := by
    simp only [Pattern.mentions, Term.mentionsIn_eq_flatMap, Pattern.terms, List.flatMap_cons,
      List.flatMap_nil, List.append_nil, note_append]
  have hs : s.rename (numbering (note seen s.mentions)) =
      s.rename (numbering (note seen (Pattern.mentions ⟨s, q, o⟩))) :=
    rename_numbering_of_prefix (hnote ▸ (prefix_note _ _).trans (prefix_note _ _))
  have hq : q.rename (numbering (note (note seen s.mentions) q.mentions)) =
      q.rename (numbering (note seen (Pattern.mentions ⟨s, q, o⟩))) :=
    rename_numbering_of_prefix (hnote ▸ prefix_note _ _)
  simp only [pattern, term_eq_inOrder, inOrder, mentions, rename, render]
  rw [hs, hq, hnote]
  rfl

theorem functor_eq_inOrder (f : Functor) : functor f = inOrder f := by
  funext seen
  have hterm : ∀ t ∈ f.args, ∀ seen, ∃ t', t = t' ∧ term t seen = inOrder t' seen :=
    fun t _ seen => ⟨t, rfl, congrFun (term_eq_inOrder t) seen⟩
  obtain ⟨as, has, htogether⟩ := together_eq_inOrder hterm seen
  obtain rfl : f.args = as := List.forall₂_eq_eq_eq ▸ has
  have hmentions : mentions f = mentions f.args := Term.mentionsIn_eq_flatMap f.args
  simp only [functor, htogether, inOrder, hmentions]
  rfl

/-! ## The best order -/

lemma smallest_mem {α : Type} (best : Numbered α) (rs : List (Numbered α)) :
    smallest best rs ∈ best :: rs := by
  induction rs generalizing best with
  | nil => exact List.mem_singleton.2 rfl
  | cons r rs ih =>
    have hmem := ih (if r.text < best.text then r else best)
    rw [smallest]
    rcases List.mem_cons.1 hmem with heq | hrest
    · rw [heq]
      split <;> simp
    · exact List.mem_cons_of_mem _ (List.mem_cons_of_mem _ hrest)

/-- No result has a smaller text than the smallest. -/
lemma text_smallest_le {α : Type} {best r : Numbered α} {rs : List (Numbered α)}
    (h : r ∈ best :: rs) : (smallest best rs).text ≤ r.text := by
  induction rs generalizing best r with
  | nil => rw [List.mem_singleton.1 h, smallest]
  | cons s rs ih =>
    rw [smallest]
    -- the better one of the first two goes on against the others
    set next := if s.text < best.text then s else best with hnext
    have hbest : next.text ≤ best.text := by
      rw [hnext]
      split
      · next hlt => exact le_of_lt hlt
      · exact le_rfl
    have hs : next.text ≤ s.text := by
      rw [hnext]
      split
      · exact le_rfl
      · next hlt => exact String.not_lt.1 hlt
    have hsmall : (smallest next rs).text ≤ next.text := ih List.mem_cons_self
    rcases List.mem_cons.1 h with rfl | h
    · exact hsmall.trans hbest
    · rcases List.mem_cons.1 h with rfl | h
      · exact hsmall.trans hs
      · exact ih (List.mem_cons_of_mem _ h)

/-- The first result stays when no other text is smaller. -/
lemma smallest_eq_self {α : Type} {best : Numbered α} {rs : List (Numbered α)}
    (h : ∀ r ∈ rs, best.text ≤ r.text) : smallest best rs = best := by
  induction rs with
  | nil => rfl
  | cons r rs ih =>
    obtain ⟨hr, hrs⟩ := List.forall_mem_cons.1 h
    rw [smallest, if_neg (String.not_lt.2 hr), ih hrs]

/-- The canonical form of a list is the smallest of what its orders give. -/
theorem clauses_eq_smallest (bound : ℕ) (cs : List Clause) (seen : List Variable) :
    ∃ r rs, (orders Clause.blindKey bound cs).map
        (fun o => together (o.map (clause bound)) seen) = r :: rs ∧
      clauses bound cs seen = smallest r rs := by
  have hresults : (orders (·.1) bound (keyed bound cs)).map (fun o => together (o.map (·.2)) seen) =
      (orders Clause.blindKey bound cs).map fun o => together (o.map (clause bound)) seen := by
    rw [keyed_eq_map, orders_map, List.map_map]
    apply List.map_congr_left
    intro o _
    show together ((o.map _).map _) seen = _
    rw [List.map_map]
    rfl
  obtain ⟨rest, hrest⟩ := exists_orders_eq_cons Clause.blindKey bound cs
  rw [hrest, List.map_cons] at hresults ⊢
  exact ⟨_, _, rfl, by rw [clauses, inBestOrder, hresults]⟩

/-- The best order of clauses is one of their orders. -/
theorem clauses_eq_together (bound : ℕ) (cs : List Clause) (seen : List Variable) :
    ∃ o ∈ orders Clause.blindKey bound cs,
      clauses bound cs seen = together (o.map (clause bound)) seen := by
  obtain ⟨r, rs, hrs, hclauses⟩ := clauses_eq_smallest bound cs seen
  obtain ⟨o, ho, heq⟩ := List.mem_map.1 (hrs ▸ smallest_mem r rs)
  exact ⟨o, ho, hclauses.trans heq.symm⟩

/-- No order of clauses gives a smaller text than the best one. -/
theorem text_clauses_le {bound : ℕ} {cs o : List Clause} (seen : List Variable)
    (ho : o ∈ orders Clause.blindKey bound cs) :
    (clauses bound cs seen).text ≤ (together (o.map (clause bound)) seen).text := by
  obtain ⟨r, rs, hrs, hclauses⟩ := clauses_eq_smallest bound cs seen
  rw [hclauses]
  exact text_smallest_le (hrs ▸ List.mem_map.2 ⟨o, ho, rfl⟩)

/-- A sorted list stays in its order when no other order gives a smaller text. -/
theorem clauses_eq_together_self {bound : ℕ} {cs : List Clause} {seen : List Variable}
    (hsorted : (cs.map Clause.blindKey).Pairwise (· ≤ ·))
    (h : ∀ o ∈ orders Clause.blindKey bound cs, (together (cs.map (clause bound)) seen).text ≤
      (together (o.map (clause bound)) seen).text) :
    clauses bound cs seen = together (cs.map (clause bound)) seen := by
  obtain ⟨r, rs, hrs, heq⟩ := clauses_eq_smallest bound cs seen
  obtain ⟨rest, hrest⟩ := exists_orders_eq_cons Clause.blindKey bound cs
  rw [sortByKey_of_pairwise (List.pairwise_map.1 hsorted)] at hrest
  rw [hrest, List.map_cons] at hrs
  obtain ⟨rfl, rfl⟩ := List.cons.inj hrs
  rw [heq]
  refine smallest_eq_self fun r hr => ?_
  obtain ⟨o, ho, rfl⟩ := List.mem_map.1 hr
  exact h o (hrest ▸ List.mem_cons_of_mem _ ho)

/-! ## Clauses and rules -/

/-- No clause is written as an empty text. -/
lemma clause_render_ne_empty (c : Clause) : c.render ≠ "" := by
  intro h
  have hlen := congrArg String.length h
  cases c <;>
    simp [Clause.render, Pattern.render, Functor.render, Rule.frame, String.length_append] at hlen

/-- Texts with a space behind each are the texts with spaces between them and one more. -/
private lemma concat_trailing {ts : List String} (h : ts ≠ []) :
    Text.concat (ts.map (· ++ " ")) = Text.joinWith " " ts ++ " " := by
  induction ts with
  | nil => exact absurd rfl h
  | cons t ts ih =>
    cases ts with
    | nil => simp
    | cons u ts =>
      rw [List.map_cons, Text.concat_cons, ih (List.cons_ne_nil u ts), Text.joinWith_cons_cons,
        String.append_assoc, String.append_assoc, String.append_assoc]

private lemma concat_leading {ts : List String} (h : ts ≠ []) :
    Text.concat (ts.map (" " ++ ·)) = " " ++ Text.joinWith " " ts := by
  induction ts with
  | nil => exact absurd rfl h
  | cons t ts ih =>
    cases ts with
    | nil => simp
    | cons u ts =>
      rw [List.map_cons, Text.concat_cons, ih (List.cons_ne_nil u ts), Text.joinWith_cons_cons,
        String.append_assoc, String.append_assoc]

private lemma joinWith_ne_empty {t : String} {ts : List String} (h : t ≠ "") :
    (Text.joinWith " " (t :: ts)).isEmpty = false := by
  rw [Bool.eq_false_iff, Ne, String.isEmpty_iff]
  cases ts with
  | nil => exact h
  | cons u ts =>
    rw [Text.joinWith_cons_cons]
    intro he
    simp at he

/-- Both ways to write a rule agree, since no clause is written as nothing. -/
theorem ruleText_eq_frame (name : Option String) (body head : List Clause) :
    ruleText name (render body) (render head) =
      Rule.frame name (body.map Clause.render) (head.map Clause.render) := by
  have hbody : (if (render body).isEmpty then "" else render body ++ " ") =
      Text.concat ((body.map Clause.render).map (· ++ " ")) := by
    cases body with
    | nil => rfl
    | cons c cs =>
      have hne : (render (c :: cs)).isEmpty = false := joinWith_ne_empty (clause_render_ne_empty c)
      rw [hne, concat_trailing (by simp)]
      rfl
  have hhead : (if (render head).isEmpty then "" else " " ++ render head) =
      Text.concat ((head.map Clause.render).map (" " ++ ·)) := by
    cases head with
    | nil => rfl
    | cons c cs =>
      have hne : (render (c :: cs)).isEmpty = false := joinWith_ne_empty (clause_render_ne_empty c)
      rw [hne, concat_leading (by simp)]
      rfl
  cases name <;> simp only [ruleText, Rule.frame, hbody, hhead]

/-- A list is numbered as a rearranged one stands when its clauses are. -/
private lemma clauses_eq_inOrder_of {bound : ℕ} {cs : List Clause}
    (ih : ∀ c ∈ cs, ∀ seen, ∃ d, c.Similar d ∧ clause bound c seen = inOrder d seen)
    (seen : List Variable) :
    ∃ ds, Clause.Rearranged cs ds ∧ clauses bound cs seen = inOrder ds seen := by
  -- the clauses are rearranged twice: each within itself, and all by the best order
  obtain ⟨o, ho, heq⟩ := clauses_eq_together bound cs seen
  have hperm := perm_of_mem_orders ho
  obtain ⟨ds, hds, htogether⟩ :=
    together_eq_inOrder (fun c hc => ih c (hperm.subset hc)) seen
  exact ⟨ds, .of_perm_of_forall₂ hperm.symm hds, heq.trans htogether⟩

/-- As a clause a pattern is numbered as it stands. -/
lemma clause_pattern (bound : ℕ) (p : Pattern) :
    clause bound (.pattern p) = inOrder (Clause.pattern p) := by
  funext seen
  rw [clause, pattern_eq_inOrder]
  simp only [inOrder, Numbered.map, mentions, rename, render, Clause.rename_pattern,
    Clause.render, Clause.mentions, Pattern.mentions]

lemma clause_functor (bound : ℕ) (f : Functor) :
    clause bound (.functor f) = inOrder (Clause.functor f) := by
  funext seen
  rw [clause, functor_eq_inOrder]
  simp only [inOrder, Numbered.map, mentions, rename, render, Clause.rename_functor,
    Clause.render, Clause.mentions]

/-- A nested rule is numbered as the rule stands that its body and its head are numbered as. -/
lemma nested_eq_inOrder {bound : ℕ} {name : Option String} {body head bs hs : List Clause}
    {seen : List Variable} (hb : clauses bound body seen = inOrder bs seen)
    (hh : clauses bound head (note seen (mentions bs)) = inOrder hs (note seen (mentions bs))) :
    clause bound (.nested name body head) seen = inOrder (Clause.nested name bs hs) seen := by
  have hnote : note (note seen (mentions bs)) (mentions hs) =
      note seen (Clause.mentions (.nested name bs hs)) := by
    rw [Clause.mentions_nested, List.flatMap_append, note_append]
    rfl
  -- the head is numbered behind the body, whose variables keep their numbers
  have hbody : rename (numbering (note seen (mentions bs))) bs =
      rename (numbering (note seen (Clause.mentions (.nested name bs hs)))) bs :=
    rename_numbering_of_prefix (hnote ▸ prefix_note _ _)
  rw [clauses] at hb hh
  simp only [clause, ruleOf, hb, hh, inOrder, hnote, hbody, ruleText_eq_frame, Numbered.map,
    Rule.toClause]
  show Numbered.mk _ _ _ = Numbered.mk (Clause.render (Clause.rename _ _)) (Clause.rename _ _) _
  rw [Clause.rename_nested, Clause.render, Clause.renderAll_eq_map, Clause.renderAll_eq_map]
  rfl

/-- A canonical form of a clause is a similar clause, numbered as it stands. -/
theorem clause_eq_inOrder (bound : ℕ) (c : Clause) (seen : List Variable) :
    ∃ d, c.Similar d ∧ clause bound c seen = inOrder d seen := by
  induction c generalizing seen with
  | pattern p => exact ⟨_, .pattern p, congrFun (clause_pattern bound p) seen⟩
  | functor f => exact ⟨_, .functor f, congrFun (clause_functor bound f) seen⟩
  | nested name body head ihb ihh =>
    obtain ⟨bs, hbs, hb⟩ := clauses_eq_inOrder_of ihb seen
    obtain ⟨hs, hhs, hh⟩ := clauses_eq_inOrder_of ihh (note seen (mentions bs))
    exact ⟨.nested name bs hs, Clause.similar_nested_iff.2 ⟨bs, hs, rfl, hbs, hhs⟩,
      nested_eq_inOrder hb hh⟩

/-- A canonical form of a list of clauses is a rearrangement of it, numbered as it stands. -/
theorem clauses_eq_inOrder (bound : ℕ) (cs : List Clause) (seen : List Variable) :
    ∃ ds, Clause.Rearranged cs ds ∧ clauses bound cs seen = inOrder ds seen :=
  clauses_eq_inOrder_of (fun c _ => clause_eq_inOrder bound c) seen

/-! ## Forms -/

/-- A canonical form is made of a rearrangement of the list by numbering its variables. -/
theorem form_eq_inOrder (bound : ℕ) (cs : List Clause) :
    ∃ ds, Clause.Rearranged cs ds ∧ (form bound cs).order = note [] (ds.flatMap Clause.mentions) ∧
      (form bound cs).clauses = ds.map (Clause.rename (numbering (form bound cs).order)) ∧
      (form bound cs).key = Text.joinWith " " ((form bound cs).clauses.map Clause.render) := by
  obtain ⟨ds, hds, heq⟩ := clauses_eq_inOrder bound cs []
  have horder : (form bound cs).order = note [] (ds.flatMap Clause.mentions) :=
    congrArg Numbered.seen heq
  have hclauses : (form bound cs).clauses =
      ds.map (Clause.rename (numbering (form bound cs).order)) := by
    rw [horder]
    exact congrArg Numbered.value heq
  refine ⟨ds, hds, horder, hclauses, ?_⟩
  rw [hclauses, horder]
  exact congrArg Numbered.text heq

/-- The variables with numbers are the mentioned ones. -/
theorem mem_order_iff {bound : ℕ} {cs : List Clause} {v : Variable} :
    v ∈ (form bound cs).order ↔ v ∈ cs.flatMap Clause.mentions := by
  obtain ⟨ds, hds, horder, -⟩ := form_eq_inOrder bound cs
  rw [horder, mem_note, hds.mem_mentions]
  exact or_iff_right List.not_mem_nil

/-- No variable has two numbers. -/
theorem nodup_order (bound : ℕ) (cs : List Clause) : (form bound cs).order.Nodup := by
  obtain ⟨ds, -, horder, -⟩ := form_eq_inOrder bound cs
  rw [horder]
  exact nodup_note List.nodup_nil

/-- A canonical rule is a similar rule, numbered as it stands, and its key is its text. -/
theorem rule_eq_inOrder (bound : ℕ) (r : Rule) :
    ∃ d, r.toClause.Similar d ∧
      (canonicalRule bound r).toClause = d.rename (numbering (note [] d.mentions)) ∧
      ruleKey bound r = (canonicalRule bound r).render := by
  obtain ⟨d, hd, heq⟩ := clause_eq_inOrder bound r.toClause []
  have hvalue : (canonicalRule bound r).toClause = d.rename (numbering (note [] d.mentions)) :=
    congrArg Numbered.value heq
  refine ⟨d, hd, hvalue, ?_⟩
  rw [← Rule.render_toClause, hvalue]
  exact congrArg Numbered.text heq

lemma toClause_injective : Function.Injective Rule.toClause := by
  rintro ⟨name, body, head⟩ ⟨name', body', head'⟩ h
  obtain ⟨rfl, rfl, rfl⟩ := Clause.nested.inj h
  rfl

/-- The variables of a rule are those that it mentions. -/
lemma mem_variables_iff {r : Rule} {v : Variable} :
    v ∈ r.variables ↔ v ∈ r.toClause.mentions := by
  have hnote : r.variables = note [] ((r.body ++ r.head).flatMap Clause.mentions) :=
    congrArg (note []) (Clause.mentionsOfAll_eq_flatMap _)
  rw [hnote, mem_note, Rule.toClause, Clause.mentions_nested]
  exact or_iff_right List.not_mem_nil

/-- The body and the head of a canonical rule are those of the rule, rearranged and with their
variables renamed in one way that keeps them apart. -/
theorem exists_renaming_canonicalRule (bound : ℕ) (r : Rule) :
    ∃ σ : Variable → Variable, Set.InjOn σ {v | v ∈ r.variables} ∧
      Clause.Rearranged (r.body.map (Clause.rename σ)) (canonicalRule bound r).body ∧
      Clause.Rearranged (r.head.map (Clause.rename σ)) (canonicalRule bound r).head := by
  obtain ⟨d, hd, hvalue, -⟩ := rule_eq_inOrder bound r
  obtain ⟨body, head, rfl, hbody, hhead⟩ := Clause.similar_nested_iff.1 hd
  let seen := note [] (Clause.mentions (.nested r.name body head))
  have hparts : (canonicalRule bound r).body = body.map (Clause.rename (numbering seen)) ∧
      (canonicalRule bound r).head = head.map (Clause.rename (numbering seen)) := by
    rw [Clause.rename_nested] at hvalue
    exact (Clause.nested.inj hvalue).2
  refine ⟨numbering seen, (numbering_injOn seen).mono fun v hv => ?_, ?_, ?_⟩
  · exact mem_note.2 (.inr ((hd.mem_mentions v).1 (mem_variables_iff.1 hv)))
  · rw [hparts.1]
    exact hbody.map_subst _
  · rw [hparts.2]
    exact hhead.map_subst _

end RuleFlow.Canonical
