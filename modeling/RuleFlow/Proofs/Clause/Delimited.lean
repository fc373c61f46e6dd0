import RuleFlow.Proofs.Clause.Rearrangement
import RuleFlow.Proofs.Reader.ReadBack

/-!
# Clauses that their texts tell apart

The texts of terms, names and clauses stand one behind the other in the text of a clause, and
only quoted texts are escaped. `Delimited` says that none of them holds a character that ends
it: no IRI the closing angle bracket, no label or language tag a space or a parenthesis, no name
a bracket, no name of a functor a space. Nothing is asked of the quoted texts.

The text of delimited clauses determines the clauses, whatever follows it (`render_append_inj`).
-/

namespace RuleFlow

open Reader

/-! ## Texts without the characters that end them -/

/-- The text can stand before a space or a closing parenthesis. -/
def IsWord (text : String) : Prop := ∀ c ∈ text.toList, c ≠ ' ' ∧ c ≠ ')'

/-- The text can stand between angle brackets. -/
def IsEnclosed (text : String) : Prop := ∀ c ∈ text.toList, c ≠ '>'

/-- The character opens a pattern, a rule or the arguments of a functor, or closes a rule. -/
def isBracket (c : Char) : Bool := c = '(' || c = '[' || c = ']'

/-- The text can stand before a bracket. -/
def IsTitle (text : String) : Prop := ∀ c ∈ text.toList, isBracket c = false

instance : DecidablePred IsWord := fun text => List.decidableBAll _ text.toList

instance : DecidablePred IsEnclosed := fun text => List.decidableBAll _ text.toList

instance : DecidablePred IsTitle := fun text => List.decidableBAll _ text.toList

/-- The tag or the datatype does not hold what ends it. -/
def Literal.Delimited (l : Literal) : Prop :=
  match l.kind with
  | .plain => True
  | .tagged language => IsWord language
  | .typed datatype => IsEnclosed datatype

/-- The variable is one of these, or the constant does not hold what ends it. -/
def Term.Delimited (vars : Set Variable) : Term → Prop
  | .var v => v ∈ vars
  | .iri name => IsEnclosed name
  | .literal l => l.Delimited
  | .blank label => IsWord label

/-- The terms of the pattern are delimited. -/
def Pattern.Delimited (vars : Set Variable) (p : Pattern) : Prop := ∀ t ∈ p.terms, t.Delimited vars

lemma Pattern.delimited_iff {vars : Set Variable} {s p o : Term} :
    Pattern.Delimited vars ⟨s, p, o⟩ ↔ s.Delimited vars ∧ p.Delimited vars ∧ o.Delimited vars := by
  simp [Pattern.Delimited, Pattern.terms]

/-- The functor has a name without brackets and spaces, and its arguments are delimited. -/
structure Functor.Delimited (vars : Set Variable) (f : Functor) : Prop where
  /-- The name is not empty. -/
  ne_nil : f.name.toList ≠ []
  /-- The name has no space. -/
  space : ' ' ∉ f.name.toList
  /-- The name has no bracket. -/
  title : IsTitle f.name
  /-- The arguments are delimited. -/
  args : ∀ t ∈ f.args, t.Delimited vars

/-- The parts of the clause are delimited, down to the terms. -/
inductive Clause.Delimited (vars : Set Variable) : Clause → Prop
  | pattern {p : Pattern} (h : p.Delimited vars) : Clause.Delimited vars (.pattern p)
  | functor {f : Functor} (h : f.Delimited vars) : Clause.Delimited vars (.functor f)
  | nested {name : Option String} {body head : List Clause} (hn : ∀ n ∈ name, IsTitle n)
      (hb : ∀ c ∈ body, Clause.Delimited vars c) (hh : ∀ c ∈ head, Clause.Delimited vars c) :
      Clause.Delimited vars (.nested name body head)

/-- The name of the rule has no bracket and its clauses are delimited. -/
def Rule.Delimited (vars : Set Variable) (r : Rule) : Prop := r.toClause.Delimited vars

/-- The variables whose names are words. -/
def wordy : Set Variable := {v | IsWord v.name}

/-! ## Terms -/

/-- A text of characters of one class, behind which another character stands, is determined by
the whole. -/
lemma append_inj_of_stops {p : Char → Bool} {x y s t : List Char} (hx : ∀ c ∈ x, p c = true)
    (hy : ∀ c ∈ y, p c = true) (hs : Stops p s) (ht : Stops p t) (h : x ++ s = y ++ t) :
    x = y ∧ s = t := by
  have hfirst : x = y := by
    rw [← takeWhile_append hx hs, h, takeWhile_append hy ht]
  subst hfirst
  exact ⟨rfl, List.append_cancel_left h⟩

/-- A word ends where the space or the parenthesis behind it stands. -/
lemma word_append_inj {x y : String} (hx : IsWord x) (hy : IsWord y) {s t : List Char}
    (hs : AfterTerm s) (ht : AfterTerm t) (h : x.toList ++ s = y.toList ++ t) : x = y ∧ s = t := by
  let p : Char → Bool := fun c => c ≠ ' ' && c ≠ ')'
  have hclass : ∀ {z : String}, IsWord z → ∀ c ∈ z.toList, p c = true := fun hz c hc => by
    simp [p, hz c hc]
  obtain ⟨hlist, hrest⟩ := append_inj_of_stops (hclass hx) (hclass hy)
    (hs.stops (by decide) (by decide)) (ht.stops (by decide) (by decide)) h
  exact ⟨String.toList_inj.1 hlist, hrest⟩

lemma enclosed_append_inj {x y : String} (hx : IsEnclosed x) (hy : IsEnclosed y) {s t : List Char}
    (h : x.toList ++ '>' :: s = y.toList ++ '>' :: t) : x = y ∧ s = t := by
  let p : Char → Bool := fun c => c ≠ '>'
  obtain ⟨hlist, hrest⟩ := append_inj_of_stops (p := p) (fun c hc => by simp [p, hx c hc])
    (fun c hc => by simp [p, hy c hc]) (stops_cons (by decide) s) (stops_cons (by decide) t) h
  exact ⟨String.toList_inj.1 hlist, (List.cons.inj hrest).2⟩

/-- A quoted text ends at the quote that is not escaped. -/
lemma quote_append_inj {x y : String} {s t : List Char}
    (h : (Literal.quote x).toList ++ s = (Literal.quote y).toList ++ t) : x = y ∧ s = t := by
  have hread := quoted?_quote x s
  rw [h, quoted?_quote] at hread
  obtain ⟨hxy, hst⟩ := Prod.mk.inj (Option.some.inj hread)
  exact ⟨hxy.symm, hst.symm⟩

/-- The characters of a literal behind its quoted text. -/
private def suffix (l : Literal) : List Char :=
  match l.kind with
  | .plain => []
  | .tagged language => '@' :: language.toList
  | .typed datatype => '^' :: '^' :: '<' :: (datatype.toList ++ ['>'])

private lemma literal_text (l : Literal) (s : List Char) :
    l.render.toList ++ s = (Literal.quote l.lexical).toList ++ (suffix l ++ s) := by
  cases hk : l.kind <;> simp [Literal.render, suffix, hk, String.toList_append]

/-- What stands behind the quotes of a literal tells its kind and where it ends. -/
private lemma suffix_append_inj {l m : Literal} (hl : l.Delimited) (hm : m.Delimited)
    {s t : List Char} (hs : AfterTerm s) (ht : AfterTerm t) (h : suffix l ++ s = suffix m ++ t) :
    l.kind = m.kind ∧ s = t := by
  -- what follows a literal begins neither with an at sign nor with a caret
  have hat : ∀ {u : List Char}, AfterTerm u → ∀ v, u ≠ '@' :: v ∧ u ≠ '^' :: v := by
    rintro u ⟨c, r, rfl, rfl | rfl⟩ v <;> simp
  simp only [Literal.Delimited] at hl hm
  cases hk : l.kind <;> cases hk' : m.kind <;>
    simp only [suffix, hk, hk', List.nil_append, List.cons_append, List.append_assoc,
      List.cons.injEq, Char.reduceEq, false_and, true_and] at h hl hm
  case plain.plain => exact ⟨rfl, h⟩
  case plain.tagged => exact absurd h (hat hs _).1
  case plain.typed => exact absurd h (hat hs _).2
  case tagged.plain => exact absurd h.symm (hat ht _).1
  case tagged.tagged =>
    obtain ⟨rfl, hrest⟩ := word_append_inj hl hm hs ht h
    exact ⟨rfl, hrest⟩
  case typed.plain => exact absurd h.symm (hat ht _).2
  case typed.typed =>
    obtain ⟨rfl, hrest⟩ := enclosed_append_inj hl hm h
    exact ⟨rfl, hrest⟩

/-- A written literal tells where it ends, and which literal it is. -/
lemma Literal.render_append_inj {l m : Literal} (hl : l.Delimited) (hm : m.Delimited)
    {s t : List Char} (hs : AfterTerm s) (ht : AfterTerm t)
    (h : l.render.toList ++ s = m.render.toList ++ t) : l = m ∧ s = t := by
  rw [literal_text, literal_text] at h
  obtain ⟨hlexical, hrest⟩ := quote_append_inj h
  obtain ⟨hkind, hst⟩ := suffix_append_inj hl hm hs ht hrest
  cases l
  cases m
  exact ⟨congrArg₂ Literal.mk hlexical hkind, hst⟩

private lemma literal_head (l : Literal) : ∃ s, l.render.toList = '"' :: s := by
  cases hk : l.kind <;>
    exact ⟨_, by simp [Literal.render, hk, Literal.quote, String.toList_append]; rfl⟩

/-- A term and what follows it are determined by the text of both. -/
theorem Term.render_append_inj {t u : Term} (ht : t.Delimited wordy) (hu : u.Delimited wordy)
    {s r : List Char} (hs : AfterTerm s) (hr : AfterTerm r)
    (h : t.render.toList ++ s = u.render.toList ++ r) : t = u ∧ s = r := by
  -- the first character tells the kinds of terms apart
  cases t <;> cases u <;>
    simp only [Term.render, Variable.render, String.toList_append, List.append_assoc] at h
  case var.var v w =>
    obtain ⟨hname, hrest⟩ := word_append_inj ht hu hs hr (List.append_cancel_left h)
    cases v
    cases w
    exact ⟨congrArg (Term.var ∘ Variable.mk) hname, hrest⟩
  case iri.iri =>
    obtain ⟨rfl, hrest⟩ := enclosed_append_inj ht hu (List.append_cancel_left h)
    exact ⟨rfl, hrest⟩
  case literal.literal =>
    obtain ⟨rfl, hrest⟩ := Literal.render_append_inj ht hu hs hr h
    exact ⟨rfl, hrest⟩
  case blank.blank =>
    obtain ⟨rfl, hrest⟩ := word_append_inj ht hu hs hr (List.append_cancel_left h)
    exact ⟨rfl, hrest⟩
  case literal.var l _ | literal.iri l _ | literal.blank l _ =>
    obtain ⟨q, hq⟩ := literal_head l
    simp [hq] at h
  case var.literal _ l | iri.literal _ l | blank.literal _ l =>
    obtain ⟨q, hq⟩ := literal_head l
    simp [hq] at h
  all_goals simp at h

/-! ## Patterns and functors -/

/-- A written pattern tells where it ends, and which pattern it is. -/
lemma Pattern.render_append_inj {p q : Pattern} (hp : p.Delimited wordy) (hq : q.Delimited wordy)
    {s t : List Char} (h : p.render.toList ++ s = q.render.toList ++ t) : p = q ∧ s = t := by
  obtain ⟨sp, pp, op⟩ := p
  obtain ⟨sq, pq, oq⟩ := q
  obtain ⟨hsp, hpp, hop⟩ := Pattern.delimited_iff.1 hp
  obtain ⟨hsq, hpq, hoq⟩ := Pattern.delimited_iff.1 hq
  have htext : ∀ a b c : Term, ∀ r, (Pattern.render ⟨a, b, c⟩).toList ++ r =
      '(' :: (a.render.toList ++ ' ' :: (b.render.toList ++ ' ' ::
        (c.render.toList ++ ')' :: r))) := by
    intro a b c r
    simp [Pattern.render, String.toList_append]
  rw [htext, htext] at h
  obtain ⟨rfl, h₁⟩ := Term.render_append_inj hsp hsq (afterTerm_space _) (afterTerm_space _)
    (List.cons.inj h).2
  obtain ⟨rfl, h₂⟩ := Term.render_append_inj hpp hpq (afterTerm_space _) (afterTerm_space _)
    (List.cons.inj h₁).2
  obtain ⟨rfl, h₃⟩ := Term.render_append_inj hop hoq (afterTerm_close _)
    (afterTerm_close _) (List.cons.inj h₂).2
  exact ⟨rfl, (List.cons.inj h₃).2⟩

/-- What stands behind an argument when these follow. -/
private def others : List Term → List Char → List Char
  | [], s => ')' :: s
  | ts, s => ' ' :: ((Text.joinWith " " (ts.map Term.render)).toList ++ ')' :: s)

private lemma afterTerm_others (ts : List Term) (s : List Char) : AfterTerm (others ts s) := by
  cases ts
  · exact afterTerm_close _
  · exact afterTerm_space _

private lemma arguments_cons (t : Term) (ts : List Term) (s : List Char) :
    (Text.joinWith " " ((t :: ts).map Term.render)).toList ++ ')' :: s =
      t.render.toList ++ others ts s := by
  cases ts <;> simp [others, Text.joinWith_cons_cons, String.toList_append]

private lemma term_render_ne_close (t : Term) (s r : List Char) :
    t.render.toList ++ s ≠ ')' :: r := by
  cases t with
  | literal l =>
    obtain ⟨q, hq⟩ := literal_head l
    simp [Term.render, hq]
  | _ => simp [Term.render, Variable.render, String.toList_append]

/-- Written arguments tell where they end, and which terms they are. -/
lemma arguments_append_inj {ts us : List Term} (hts : ∀ t ∈ ts, t.Delimited wordy)
    (hus : ∀ u ∈ us, u.Delimited wordy) {s r : List Char}
    (h : (Text.joinWith " " (ts.map Term.render)).toList ++ ')' :: s =
      (Text.joinWith " " (us.map Term.render)).toList ++ ')' :: r) : ts = us ∧ s = r := by
  induction ts generalizing us with
  | nil =>
    cases us with
    | nil => exact ⟨rfl, (List.cons.inj h).2⟩
    | cons u us =>
      rw [arguments_cons] at h
      exact absurd h.symm (term_render_ne_close u _ _)
  | cons t ts ih =>
    obtain ⟨ht, hts⟩ := List.forall_mem_cons.1 hts
    cases us with
    | nil =>
      rw [arguments_cons] at h
      exact absurd h (term_render_ne_close t _ _)
    | cons u us =>
      obtain ⟨hu, hus'⟩ := List.forall_mem_cons.1 hus
      rw [arguments_cons, arguments_cons] at h
      obtain ⟨rfl, hrest⟩ :=
        Term.render_append_inj ht hu (afterTerm_others ts s) (afterTerm_others us r) h
      -- both lists go on or both end, as the next character says
      cases ts <;> cases us <;>
        simp only [others, List.cons.injEq, Char.reduceEq, false_and, true_and] at hrest
      · exact ⟨rfl, hrest⟩
      · obtain ⟨hsame, hsr⟩ := ih hts hus' hrest
        exact ⟨congrArg _ hsame, hsr⟩

/-- A written functor tells where it ends, and which functor it is. -/
lemma Functor.render_append_inj {f g : Functor} (hf : f.Delimited wordy) (hg : g.Delimited wordy)
    {s t : List Char} (h : f.render.toList ++ s = g.render.toList ++ t) : f = g ∧ s = t := by
  let p : Char → Bool := fun c => !isBracket c
  have hclass : ∀ {k : Functor}, k.Delimited wordy → ∀ c ∈ k.name.toList, p c = true :=
    fun hk c hc => by simp [p, hk.title c hc]
  rw [functor_text, functor_text] at h
  obtain ⟨hname, hrest⟩ := append_inj_of_stops (hclass hf) (hclass hg)
    (stops_cons (by decide) _) (stops_cons (by decide) _) h
  obtain ⟨hargs, hst⟩ := arguments_append_inj hf.args hg.args (List.cons.inj hrest).2
  cases f
  cases g
  exact ⟨congrArg₂ Functor.mk (String.toList_inj.1 hname) hargs, hst⟩

/-! ## Lists of clauses -/

/-- The texts of the clauses with a space behind each, and then `stop`. -/
private def spaced (cs : List Clause) (stop : List Char) : List Char :=
  cs.foldr (fun c s => c.render.toList ++ ' ' :: s) stop

/-- No delimited clause stands at the front of the text. -/
private def EndsClauses (stop : List Char) : Prop :=
  ∀ d : Clause, d.Delimited wordy → ∀ s, stop ≠ d.render.toList ++ s

/-- Clauses with a space behind each, as characters. -/
private lemma concat_trailing_text (cs : List Clause) (s : List Char) :
    (Text.concat ((cs.map Clause.render).map (· ++ " "))).toList ++ s = spaced cs s := by
  induction cs with
  | nil => rfl
  | cons c cs ih =>
    rw [List.map_cons, List.map_cons, Text.concat_cons, String.toList_append, List.append_assoc, ih]
    simp [spaced, String.toList_append]

private lemma concat_leading_text (cs : List Clause) (s : List Char) :
    (Text.concat ((cs.map Clause.render).map (" " ++ ·))).toList ++ ' ' :: s =
      ' ' :: spaced cs s := by
  induction cs with
  | nil => rfl
  | cons c cs ih =>
    rw [List.map_cons, List.map_cons, Text.concat_cons, String.toList_append, List.append_assoc, ih]
    simp [spaced, String.toList_append]

private lemma joinWith_text {cs : List Clause} (h : cs ≠ []) :
    (Text.joinWith " " (cs.map Clause.render)).toList ++ [' '] = spaced cs [] := by
  induction cs with
  | nil => exact absurd rfl h
  | cons c cs ih =>
    cases cs with
    | nil => rfl
    | cons d cs =>
      have hrest := ih (List.cons_ne_nil d cs)
      rw [List.map_cons, List.map_cons, Text.joinWith_cons_cons, String.toList_append,
        List.append_assoc, ← List.map_cons, hrest]
      simp [spaced, String.toList_append]

/-- A delimited clause begins with a text without spaces and brackets, perhaps an empty one, and
an opening bracket. -/
private lemma clause_front {d : Clause} (hd : d.Delimited wordy) (s : List Char) :
    ∃ x b r, d.render.toList ++ s = x ++ b :: r ∧ (∀ c ∈ x, c ≠ ' ' ∧ isBracket c = false) ∧
      isBracket b = true ∧ b ≠ ']' := by
  cases hd with
  | @pattern p _ =>
    obtain ⟨r, hr⟩ := pattern_head p
    exact ⟨[], '(', r ++ s, by rw [Clause.render, hr]; rfl, by simp, by decide, by decide⟩
  | @functor f hf =>
    refine ⟨f.name.toList, '(', _, functor_text f s, fun c hc => ?_, by decide, by decide⟩
    exact ⟨fun e => hf.space (e ▸ hc), hf.title c hc⟩
  | nested =>
    obtain ⟨r, hr⟩ := frame_head _ _ _
    exact ⟨[], '[', r ++ s, by rw [Clause.render, hr]; rfl, by simp, by decide, by decide⟩

private lemma endsClauses_nil : EndsClauses [] := by
  intro d hd s h
  obtain ⟨x, b, r, hr, -⟩ := clause_front hd s
  rw [hr] at h
  simp at h

private lemma endsClauses_cons {c : Char} (hc : c = ' ' ∨ c = ']') (s : List Char) :
    EndsClauses (c :: s) := by
  intro d hd t h
  obtain ⟨x, b, r, hr, hx, hb, hclose⟩ := clause_front hd t
  rw [hr] at h
  cases x with
  | nil =>
    obtain ⟨rfl, -⟩ := List.cons.inj h
    exact hc.elim (fun e => absurd hb (e ▸ by decide)) hclose
  | cons a x =>
    obtain ⟨rfl, -⟩ := List.cons.inj h
    obtain ⟨hspace, hbracket⟩ := hx c List.mem_cons_self
    exact hc.elim hspace fun e => absurd hbracket (e ▸ by decide)

private lemma endsClauses_arrow (s : List Char) : EndsClauses ('-' :: '>' :: ' ' :: s) := by
  intro d hd t h
  obtain ⟨x, b, r, hr, hx, hb, -⟩ := clause_front hd t
  rw [hr] at h
  -- the bracket is none of the three characters, so the space is in the text before it
  match x with
  | [] =>
    obtain ⟨rfl, -⟩ := List.cons.inj h
    exact absurd hb (by decide)
  | [_] =>
    obtain ⟨rfl, -⟩ := List.cons.inj (List.cons.inj h).2
    exact absurd hb (by decide)
  | [_, _] =>
    obtain ⟨rfl, -⟩ := List.cons.inj (List.cons.inj (List.cons.inj h).2).2
    exact absurd hb (by decide)
  | _ :: _ :: c :: x =>
    obtain ⟨rfl, -⟩ := List.cons.inj (List.cons.inj (List.cons.inj h).2).2
    exact (hx ' ' (by simp)).1 rfl

/-- Written clauses tell where they end, and which clauses they are, when each of them does. -/
private lemma spaced_inj {cs ds : List Clause}
    (ih : ∀ c ∈ cs, ∀ d : Clause, d.Delimited wordy → ∀ s t,
      c.render.toList ++ s = d.render.toList ++ t → c = d ∧ s = t)
    (hcs : ∀ c ∈ cs, c.Delimited wordy) (hds : ∀ d ∈ ds, d.Delimited wordy)
    {stop stop' : List Char} (hstop : EndsClauses stop) (hstop' : EndsClauses stop')
    (h : spaced cs stop = spaced ds stop') : cs = ds ∧ stop = stop' := by
  induction cs generalizing ds with
  | nil =>
    cases ds with
    | nil => exact ⟨rfl, h⟩
    | cons d ds => exact absurd h (hstop d (hds d List.mem_cons_self) _)
  | cons c cs ihs =>
    obtain ⟨hc, hcs⟩ := List.forall_mem_cons.1 hcs
    obtain ⟨ihc, ihcs⟩ := List.forall_mem_cons.1 ih
    cases ds with
    | nil => exact absurd h.symm (hstop' c hc _)
    | cons d ds =>
      obtain ⟨hd, hds'⟩ := List.forall_mem_cons.1 hds
      obtain ⟨rfl, hrest⟩ := ihc d hd _ _ h
      obtain ⟨rfl, hst⟩ := ihs ihcs hcs hds' (List.cons.inj hrest).2
      exact ⟨rfl, hst⟩

/-! ## Names of rules -/

/-- The name of a rule as it stands before its body. -/
private def title (name : Option String) : List Char :=
  match name with
  | some n => n.toList ++ [' ', ':', ' ']
  | none => []

/-- A written rule with a text behind it, as characters. -/
private lemma nested_text (name : Option String) (body head : List Clause) (s : List Char) :
    (Clause.nested name body head).render.toList ++ s = '[' :: ' ' :: (title name ++
      spaced body ('-' :: '>' :: ' ' :: spaced head (']' :: s))) := by
  rw [← concat_leading_text, Clause.render, Clause.renderAll_eq_map, Clause.renderAll_eq_map,
    ← concat_trailing_text]
  cases name <;> simp [Rule.frame, title, String.toList_append]

/-- The text between the name of a rule and the first bracket behind it: a text without spaces,
perhaps with the arrow before it. -/
private def Opening (w : List Char) : Prop :=
  ∃ x, ' ' ∉ x ∧ (w = x ∨ w = '-' :: '>' :: ' ' :: x)

/-- Behind the name of a rule there is a bracket, and the text up to it is an opening. -/
private lemma exists_opening {body head : List Clause} (hb : ∀ c ∈ body, c.Delimited wordy)
    (hh : ∀ c ∈ head, c.Delimited wordy) (s : List Char) :
    ∃ w b r, spaced body ('-' :: '>' :: ' ' :: spaced head (']' :: s)) = w ++ b :: r ∧
      (∀ c ∈ w, isBracket c = false) ∧ isBracket b = true ∧ Opening w := by
  have hfront : ∀ (cs : List Clause), (∀ c ∈ cs, c.Delimited wordy) → ∀ stop, cs ≠ [] →
      ∃ x b r, spaced cs stop = x ++ b :: r ∧ (∀ c ∈ x, c ≠ ' ' ∧ isBracket c = false) ∧
        isBracket b = true := by
    intro cs hcs stop hne
    obtain ⟨c, cs, rfl⟩ := List.exists_cons_of_ne_nil hne
    obtain ⟨x, b, r, hr, hx, hb, -⟩ := clause_front (hcs c List.mem_cons_self) _
    exact ⟨x, b, r, hr, hx, hb⟩
  by_cases hbody : body = []
  · subst hbody
    -- the arrow stands in front, and the head or the end of the rule behind it
    by_cases hhead : head = []
    · subst hhead
      exact ⟨['-', '>', ' '], ']', s, rfl, by simp [isBracket], rfl, [], by simp, .inr rfl⟩
    · obtain ⟨x, b, r, hr, hx, hb⟩ := hfront head hh (']' :: s) hhead
      refine ⟨'-' :: '>' :: ' ' :: x, b, r, ?_, ?_, hb, x, fun h => (hx _ h).1 rfl, .inr rfl⟩
      · show '-' :: '>' :: ' ' :: spaced head (']' :: s) = _
        rw [hr]
        rfl
      · simpa [isBracket] using fun c hc => (hx c hc).2
  · obtain ⟨x, b, r, hr, hx, hb⟩ := hfront body hb _ hbody
    exact ⟨x, b, r, hr, fun c hc => (hx c hc).2, hb, x, fun h => (hx _ h).1 rfl, .inl rfl⟩

/-- The characters before a text without spaces, from the last to the first: the arrow, if it
stands there, and the name. -/
private def backwards (arrow : Bool) (name : Option String) : List Char :=
  (if arrow then [' ', '>', '-'] else []) ++ (title name).reverse

private lemma backwards_inj {arrow arrow' : Bool} {name name' : Option String}
    (h : backwards arrow name = backwards arrow' name') : name = name' := by
  cases arrow <;> cases arrow' <;> cases name <;> cases name' <;>
    simp [backwards, title] at h ⊢
  all_goals exact String.toList_inj.1 h

/-- The title of a rule tells its name. -/
private lemma name_eq_of_title {name name' : Option String} {w w' : List Char} (hw : Opening w)
    (hw' : Opening w') (h : title name ++ w = title name' ++ w') : name = name' := by
  -- read from its end, the text has its first space before the arrow or the name
  have hread : ∀ {n : Option String} {v : List Char}, Opening v →
      ∃ (x : List Char) (arrow : Bool), ' ' ∉ x ∧
      (title n ++ v).reverse = x.reverse ++ backwards arrow n := by
    rintro n v ⟨x, hx, rfl | rfl⟩
    · exact ⟨v, false, hx, by simp [backwards]⟩
    · exact ⟨x, true, hx, by simp [backwards]⟩
  have hstops : ∀ arrow n, Stops (fun c => decide (c ≠ ' ')) (backwards arrow n) := by
    intro arrow n
    cases arrow <;> cases n <;> simp [backwards, title, Stops]
  have hclass : ∀ {x : List Char}, ' ' ∉ x → ∀ c ∈ x.reverse, decide (c ≠ ' ') = true :=
    fun hx c hc => decide_eq_true fun e => hx (e ▸ List.mem_reverse.1 hc)
  obtain ⟨x, arrow, hx, heq⟩ := hread (n := name) hw
  obtain ⟨x', arrow', hx', heq'⟩ := hread (n := name') hw'
  rw [h, heq'] at heq
  obtain ⟨-, hback⟩ := append_inj_of_stops (hclass hx') (hclass hx) (hstops _ _) (hstops _ _) heq
  exact (backwards_inj hback).symm

/-- There is no bracket in the title of a rule. -/
private lemma isBracket_title {name : Option String} {w : List Char} (hn : ∀ n ∈ name, IsTitle n)
    (hw : ∀ c ∈ w, isBracket c = false) : ∀ c ∈ title name ++ w, (!isBracket c) = true := by
  have hcolon : ∀ c ∈ [' ', ':', ' '], isBracket c = false := by simp [isBracket]
  intro c hc
  rw [Bool.not_eq_true']
  rcases List.mem_append.1 hc with hc | hc
  · cases name with
    | none => exact absurd hc List.not_mem_nil
    | some n => exact (List.mem_append.1 hc).elim (hn n rfl c) (hcolon c)
  · exact hw c hc

/-- The name of a rule is determined by its text: it ends before the first bracket, where the
clauses begin. -/
private lemma name_eq {name name' : Option String} {body head body' head' : List Clause}
    (hc : (Clause.nested name body head).Delimited wordy)
    (hd : (Clause.nested name' body' head').Delimited wordy) {s t : List Char}
    (h : title name ++ spaced body ('-' :: '>' :: ' ' :: spaced head (']' :: s)) =
      title name' ++ spaced body' ('-' :: '>' :: ' ' :: spaced head' (']' :: t))) :
    name = name' := by
  cases hc with | nested hn hb hh =>
  cases hd with | nested hn' hb' hh' =>
  obtain ⟨w, b, r, heq, hw, hbr, hopen⟩ := exists_opening hb hh s
  obtain ⟨w', b', r', heq', hw', hbr', hopen'⟩ := exists_opening hb' hh' t
  rw [heq, heq', ← List.append_assoc, ← List.append_assoc] at h
  obtain ⟨hboth, -⟩ := append_inj_of_stops (isBracket_title hn hw) (isBracket_title hn' hw')
    (stops_cons (by simp [hbr]) r) (stops_cons (by simp [hbr']) r') h
  exact name_eq_of_title hopen hopen' hboth

/-! ## Clauses -/

/-- A written functor does not begin as a pattern or a rule does. -/
private lemma functor_head {f : Functor} (hf : f.Delimited wordy) (s : List Char) :
    ∃ c r, f.render.toList ++ s = c :: r ∧ c ≠ '(' ∧ c ≠ '[' := by
  obtain ⟨c, x, hx⟩ := List.exists_cons_of_ne_nil hf.ne_nil
  have hc := hf.title c (by simp [hx])
  refine ⟨c, _, by rw [functor_text, hx]; rfl, ?_, ?_⟩
  · rintro rfl
    exact absurd hc (by decide)
  · rintro rfl
    exact absurd hc (by decide)

/-- A delimited clause and what follows it are determined by the text of both. -/
theorem Clause.render_append_inj {c d : Clause} (hc : c.Delimited wordy) (hd : d.Delimited wordy)
    {s t : List Char} (h : c.render.toList ++ s = d.render.toList ++ t) : c = d ∧ s = t := by
  induction c generalizing d s t with
  | pattern p =>
    obtain ⟨r, hr⟩ := pattern_head p
    cases hc with | pattern hp =>
    cases hd with
    | pattern hq =>
      obtain ⟨rfl, hst⟩ := Pattern.render_append_inj hp hq h
      exact ⟨rfl, hst⟩
    | functor hg =>
      obtain ⟨c, r', hr', hne, -⟩ := functor_head hg t
      rw [render, render, hr, hr'] at h
      exact absurd (List.cons.inj h).1.symm hne
    | nested =>
      rw [render, hr, nested_text] at h
      simp at h
  | functor f =>
    cases hc with | functor hf =>
    obtain ⟨c, r, hr, hparen, hbracket⟩ := functor_head hf s
    cases hd with
    | @pattern q _ =>
      obtain ⟨r', hr'⟩ := pattern_head q
      rw [render, render, hr, hr'] at h
      exact absurd (List.cons.inj h).1 hparen
    | functor hg =>
      obtain ⟨rfl, hst⟩ := Functor.render_append_inj hf hg h
      exact ⟨rfl, hst⟩
    | nested =>
      rw [render, hr, nested_text] at h
      exact absurd (List.cons.inj h).1 hbracket
  | nested name body head ihb ihh =>
    cases hd with
    | @pattern q _ =>
      obtain ⟨r, hr⟩ := pattern_head q
      rw [nested_text, render, hr] at h
      simp at h
    | functor hg =>
      obtain ⟨c, r, hr, -, hne⟩ := functor_head hg t
      rw [nested_text, render, hr] at h
      exact absurd (List.cons.inj h).1.symm hne
    | @nested name' body' head' hn' hb' hh' =>
      rw [nested_text, nested_text] at h
      have hinner := (List.cons.inj (List.cons.inj h).2).2
      obtain rfl := name_eq hc (.nested hn' hb' hh') hinner
      cases hc with | nested _ hb hh =>
      obtain ⟨rfl, hstop⟩ := spaced_inj (fun c hc d hd s t h => ihb c hc (hb c hc) hd h) hb hb'
        (endsClauses_arrow _) (endsClauses_arrow _) (List.append_cancel_left hinner)
      -- behind the arrow stands the head
      have hheads := (List.cons.inj (List.cons.inj (List.cons.inj hstop).2).2).2
      obtain ⟨rfl, hend⟩ := spaced_inj (fun c hc d hd s t h => ihh c hc (hh c hc) hd h) hh hh'
        (endsClauses_cons (.inr rfl) s) (endsClauses_cons (.inr rfl) t) hheads
      exact ⟨rfl, (List.cons.inj hend).2⟩

/-- Delimited clauses are determined by their texts, put together with spaces. -/
theorem Clause.joinWith_render_inj {cs ds : List Clause} (hcs : ∀ c ∈ cs, c.Delimited wordy)
    (hds : ∀ d ∈ ds, d.Delimited wordy)
    (h : Text.joinWith " " (cs.map render) = Text.joinWith " " (ds.map render)) : cs = ds := by
  -- a list with no clause is written as nothing, and no clause is
  have hnil : ∀ es : List Clause, (∀ e ∈ es, e.Delimited wordy) →
      Text.joinWith " " (es.map render) = "" → es = [] := by
    intro es hes he
    by_contra hne
    have htext := joinWith_text hne
    rw [he] at htext
    obtain ⟨e, es, rfl⟩ := List.exists_cons_of_ne_nil hne
    exact endsClauses_cons (.inl rfl) [] e (hes e List.mem_cons_self) _ htext
  by_cases hc : cs = []
  · subst hc
    exact (hnil ds hds h.symm).symm
  by_cases hd : ds = []
  · subst hd
    exact hnil cs hcs h
  have htext : spaced cs [] = spaced ds [] := by
    rw [← joinWith_text hc, ← joinWith_text hd, h]
  exact (spaced_inj (fun c hc d hd _ _ h => render_append_inj (hcs c hc) hd h) hcs hds
    endsClauses_nil endsClauses_nil htext).1

/-! ## Renamed and rearranged clauses -/

section
variable {vars vars' : Set Variable} {σ : Variable → Variable} (hσ : ∀ v ∈ vars, σ v ∈ vars')
include hσ

/-- A delimited term stays so when its variables are renamed to other such variables. -/
theorem Term.Delimited.rename {t : Term} (h : t.Delimited vars) : (t.rename σ).Delimited vars' := by
  cases t with
  | var v => exact hσ v h
  | _ => exact h

/-- A delimited clause stays so when its variables are renamed to other such variables. -/
theorem Clause.Delimited.rename {c : Clause} (h : c.Delimited vars) :
    (c.rename σ).Delimited vars' := by
  induction c with
  | pattern p =>
    cases h with | pattern hp =>
    rw [rename_pattern]
    refine .pattern fun t ht => ?_
    obtain ⟨u, hu, rfl⟩ : ∃ u ∈ p.terms, u.rename σ = t := List.mem_map.1 ht
    exact (hp u hu).rename hσ
  | functor f =>
    cases h with | functor hf =>
    rw [rename_functor]
    refine .functor { hf with args := fun t ht => ?_ }
    obtain ⟨u, hu, rfl⟩ : ∃ u ∈ f.args, u.rename σ = t := List.mem_map.1 ht
    exact (hf.args u hu).rename hσ
  | nested name body head ihb ihh =>
    cases h with | nested hn hb hh =>
    rw [rename_nested]
    refine .nested hn (fun c hc => ?_) fun c hc => ?_
    · obtain ⟨d, hd, rfl⟩ := List.mem_map.1 hc
      exact ihb d hd (hb d hd)
    · obtain ⟨d, hd, rfl⟩ := List.mem_map.1 hc
      exact ihh d hd (hh d hd)

end

namespace Clause
variable {vars : Set Variable}

/-- Clauses similar to delimited ones are delimited. -/
theorem Similar.delimited {c d : Clause} (h : Similar c d) (hc : c.Delimited vars) :
    d.Delimited vars := by
  induction c generalizing d with
  | pattern p => rwa [similar_pattern_iff.1 h]
  | functor f => rwa [similar_functor_iff.1 h]
  | nested name body head ihb ihh =>
    obtain ⟨body', head', rfl, ⟨bs, hbs, pb⟩, ⟨hs, hhs, ph⟩⟩ := similar_nested_iff.1 h
    cases hc with | nested hn hb hh =>
    refine .nested hn ?_ ?_
    · exact forall_mem_of_forall₂ (forall₂_of_similar (fun c hc _ hd => ihb c hc hd) hbs) pb hb
    · exact forall_mem_of_forall₂ (forall₂_of_similar (fun c hc _ hd => ihh c hc hd) hhs) ph hh

/-- A rearranged list is delimited. -/
theorem Rearranged.delimited {cs ds : List Clause} (h : Rearranged cs ds)
    (hcs : ∀ c ∈ cs, c.Delimited vars) : ∀ d ∈ ds, d.Delimited vars := by
  obtain ⟨es, hs, hp⟩ := h
  exact forall_mem_of_forall₂ (hs.imp fun _ _ hcd => hcd.delimited) hp hcs

end Clause

end RuleFlow
