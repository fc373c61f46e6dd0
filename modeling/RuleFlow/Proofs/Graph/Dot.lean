import RuleFlow.Graph.Render
import RuleFlow.Proofs.Canonical.InOrder
import RuleFlow.Proofs.Clause.Delimited
import RuleFlow.Proofs.Graph.Building

/-!
# What the text of a drawing tells

In the DOT text of a graph a name stands between quotes, and each quote or backslash of its own
has a backslash before it. So no text of a name goes on with a quote, nor with a backslash and
the letter that starts a new line (`Dot.EndsName`): the text of a name and of what follows it
determines both (`Dot.escape_append_inj`). Numbers end before the first character that is no
digit (`number_append_inj`).

With these two facts the statements of the text are read off one behind the other. A statement
for a node goes on with a bracket where one for an edge goes on with an arrow, so the nodes end
where the edges begin. Graphs that are built from nothing and have one text have the same name,
nodes and edges (`eq_of_dot_eq`).
-/

namespace RuleFlow

open Reader

/-! ## Numbers and kinds -/

/-- A number and what follows it are determined by the text of both. -/
lemma number_append_inj {m n : ℕ} {s t : List Char} (hs : Stops Char.isDigit s)
    (ht : Stops Char.isDigit t) (h : (toString m).toList ++ s = (toString n).toList ++ t) :
    m = n ∧ s = t := by
  have hdigits : ∀ k : ℕ, ∀ c ∈ (toString k).toList, c.isDigit = true := by
    intro k c hc
    have htext : (toString k).toList = Nat.toDigits 10 k := Nat.toList_repr
    exact Nat.isDigit_of_mem_toDigits (by decide) (by decide) (htext ▸ hc)
  obtain ⟨hsame, hrest⟩ := append_inj_of_stops (hdigits m) (hdigits n) hs ht h
  exact ⟨Canonical.toString_injective (String.toList_inj.1 hsame), hrest⟩

/-- A kind and what follows it behind a space are determined by the text of both. -/
lemma Kind.name_append_inj {k l : Kind} {s t : List Char}
    (h : k.name.toList ++ ' ' :: s = l.name.toList ++ ' ' :: t) : k = l ∧ s = t := by
  let p : Char → Bool := fun c => c ≠ ' '
  have hclass : ∀ k : Kind, ∀ c ∈ k.name.toList, p c = true := by
    intro k c hc
    have hspace : ' ' ∉ k.name.toList := by cases k <;> decide
    exact decide_eq_true fun heq => hspace (heq ▸ hc)
  obtain ⟨hname, hrest⟩ := append_inj_of_stops (hclass k) (hclass l)
    (stops_cons (by decide) s) (stops_cons (by decide) t) h
  have hkind : some k = some l := by
    rw [← Kind.ofName?_name k, ← Kind.ofName?_name l, String.toList_inj.1 hname]
  exact ⟨Option.some.inj hkind, (List.cons.inj hrest).2⟩

/-! ## Names -/

namespace Dot

/-- The text goes on as no escaped name does: with a quote, or with a new line. -/
def EndsName (s : List Char) : Prop := (∃ r, s = '"' :: r) ∨ ∃ r, s = '\\' :: 'n' :: r

/-- Backslashes and quotes are escaped, and nothing else is. -/
lemma escapeChar_cases (c : Char) :
    (c = '\\' ∧ escapeChar c = ['\\', '\\']) ∨ (c = '"' ∧ escapeChar c = ['\\', '"']) ∨
    ((c ≠ '\\' ∧ c ≠ '"') ∧ escapeChar c = [c]) := by
  by_cases hback : c = '\\'
  · exact .inl ⟨hback, by simp [escapeChar, hback]⟩
  · by_cases hquote : c = '"'
    · exact .inr (.inl ⟨hquote, by simp [escapeChar, hquote]⟩)
    · exact .inr (.inr ⟨⟨hback, hquote⟩, by simp [escapeChar, hback, hquote]⟩)

/-- An escaped character tells where it ends, and which character it is. -/
lemma escapeChar_append_inj {c d : Char} {s t : List Char}
    (h : escapeChar c ++ s = escapeChar d ++ t) : c = d ∧ s = t := by
  rcases escapeChar_cases c with ⟨hsame, hc⟩ | ⟨hsame, hc⟩ | ⟨⟨hback, -⟩, hc⟩ <;>
    rcases escapeChar_cases d with ⟨hsame', hd⟩ | ⟨hsame', hd⟩ | ⟨⟨hback', -⟩, hd⟩
  all_goals
    rw [hc, hd] at h
    grind

/-- What ends a name does not begin as a character of one. -/
lemma EndsName.ne_escapeChar_append {s : List Char} (hs : EndsName s) (c : Char) (r : List Char) :
    s ≠ escapeChar c ++ r := by
  rintro rfl
  rcases escapeChar_cases c with ⟨-, hc⟩ | ⟨-, hc⟩ | ⟨⟨hback, hquote⟩, hc⟩ <;>
    rcases hs with ⟨q, hq⟩ | ⟨q, hq⟩
  all_goals
    rw [hc] at hq
    simp_all

/-- A name and what follows it are determined by the text of both. -/
theorem escape_append_inj {x y : String} {s t : List Char} (hs : EndsName s) (ht : EndsName t)
    (h : (escape x).toList ++ s = (escape y).toList ++ t) : x = y ∧ s = t := by
  suffices hlists : ∀ xs ys : List Char,
      xs.flatMap escapeChar ++ s = ys.flatMap escapeChar ++ t → xs = ys ∧ s = t by
    rw [escape, escape, String.toList_ofList, String.toList_ofList] at h
    obtain ⟨hsame, hrest⟩ := hlists _ _ h
    exact ⟨String.toList_inj.1 hsame, hrest⟩
  intro xs
  induction xs with
  | nil =>
    intro ys h
    cases ys with
    | nil => exact ⟨rfl, h⟩
    | cons d ys =>
      rw [List.flatMap_cons, List.append_assoc] at h
      exact absurd h (hs.ne_escapeChar_append d _)
  | cons c xs ih =>
    intro ys h
    cases ys with
    | nil =>
      rw [List.flatMap_cons, List.append_assoc] at h
      exact absurd h.symm (ht.ne_escapeChar_append c _)
    | cons d ys =>
      rw [List.flatMap_cons, List.flatMap_cons, List.append_assoc, List.append_assoc] at h
      obtain ⟨rfl, hrest⟩ := escapeChar_append_inj h
      obtain ⟨rfl, hst⟩ := ih ys hrest
      exact ⟨rfl, hst⟩

end Dot

/-! ## Nodes -/

namespace Node

/-- What stands behind the name in the label of a node. -/
private def tag (n : Node) : List Char :=
  match n.kind, n.parallelism with
  | none, _ => []
  | some kind, some p => '\\' :: 'n' :: (kind.name.toList ++ ' ' :: 'x' :: (toString p).toList)
  | some kind, none => '\\' :: 'n' :: kind.name.toList

private lemma label_text (n : Node) (s : List Char) :
    n.label.toList ++ s = (Dot.escape n.name).toList ++ (tag n ++ s) := by
  obtain ⟨_, kind, p⟩ := n
  cases kind <;> cases p <;> simp [label, tag, String.toList_append]

private lemma endsName_tag (n : Node) (s : List Char) : Dot.EndsName (tag n ++ '"' :: s) := by
  unfold tag
  split
  · exact .inl ⟨s, rfl⟩
  · exact .inr ⟨_, rfl⟩
  · exact .inr ⟨_, rfl⟩

/-- A tag tells the kind and the number of instances, and where it ends. -/
private lemma tag_append_inj {n m : Node} (hn : n.kind.isSome = n.parallelism.isSome)
    (hm : m.kind.isSome = m.parallelism.isSome) {s t : List Char}
    (h : tag n ++ '"' :: s = tag m ++ '"' :: t) :
    n.kind = m.kind ∧ n.parallelism = m.parallelism ∧ s = t := by
  obtain ⟨_, kind, p⟩ := n
  obtain ⟨_, kind', p'⟩ := m
  cases kind <;> cases p <;> simp only [Option.isSome, Bool.true_eq_false, Bool.false_eq_true] at hn
  all_goals
    cases kind' <;> cases p' <;>
      simp only [Option.isSome, Bool.true_eq_false, Bool.false_eq_true] at hm
  · exact ⟨rfl, rfl, (List.cons.inj h).2⟩
  · simp [tag] at h
  · simp [tag] at h
  · simp only [tag, List.cons_append, List.append_assoc, List.cons.injEq, true_and] at h
    obtain ⟨rfl, hcount⟩ := Kind.name_append_inj h
    obtain ⟨rfl, hrest⟩ := number_append_inj (stops_cons (by decide) _)
      (stops_cons (by decide) _) (List.cons.inj hcount).2
    exact ⟨rfl, rfl, (List.cons.inj hrest).2⟩

/-- A node and what follows its label are determined by the text of both. -/
theorem label_append_inj {n m : Node} (hn : n.kind.isSome = n.parallelism.isSome)
    (hm : m.kind.isSome = m.parallelism.isSome) {s t : List Char}
    (h : n.label.toList ++ '"' :: s = m.label.toList ++ '"' :: t) : n = m ∧ s = t := by
  rw [label_text, label_text] at h
  obtain ⟨hname, hrest⟩ := Dot.escape_append_inj (endsName_tag n s) (endsName_tag m t) h
  obtain ⟨hkind, hparallelism, hst⟩ := tag_append_inj hn hm hrest
  cases n
  cases m
  exact ⟨by simp_all, hst⟩

end Node

namespace Graph

private lemma dotNode_text (n : Node) (place : ℕ) (s : List Char) :
    (dotNode n place).toList ++ s = ' ' :: ' ' :: 'n' :: ((toString place).toList ++
      ' ' :: '[' :: ("label=\"".toList ++ (n.label.toList ++ '"' ::
        (" shape=".toList ++ (n.shape.toList ++ ("];\n".toList ++ s)))))) := by
  simp [dotNode, String.toList_append]

/-- No statement for a node stands at the front of the text. -/
private def EndsNodes (s : List Char) : Prop :=
  ∀ n place r, s ≠ (dotNode n place).toList ++ r

/-- The statements for nodes from a place on, and then `s`. -/
private def nodeTexts (ns : List Node) (place : ℕ) (s : List Char) : List Char :=
  (Text.concat ((ns.zipIdx place).map fun (n, k) => dotNode n k)).toList ++ s

private lemma nodeTexts_cons (n : Node) (ns : List Node) (place : ℕ) (s : List Char) :
    nodeTexts (n :: ns) place s = (dotNode n place).toList ++ nodeTexts ns (place + 1) s := by
  simp [nodeTexts, String.toList_append]

/-- Nodes and what follows them are determined by the text of both. -/
private lemma nodeTexts_inj {ns ms : List Node}
    (hns : ∀ n ∈ ns, n.kind.isSome = n.parallelism.isSome)
    (hms : ∀ m ∈ ms, m.kind.isSome = m.parallelism.isSome) {place : ℕ} {s t : List Char}
    (hs : EndsNodes s) (ht : EndsNodes t) (h : nodeTexts ns place s = nodeTexts ms place t) :
    ns = ms ∧ s = t := by
  induction ns generalizing ms place with
  | nil =>
    cases ms with
    | nil => exact ⟨rfl, h⟩
    | cons m ms =>
      rw [nodeTexts_cons] at h
      exact absurd h (hs m place _)
  | cons n ns ih =>
    cases ms with
    | nil =>
      rw [nodeTexts_cons] at h
      exact absurd h.symm (ht n place _)
    | cons m ms =>
      obtain ⟨hn, hothers⟩ := List.forall_mem_cons.1 hns
      obtain ⟨hm, hothers'⟩ := List.forall_mem_cons.1 hms
      rw [nodeTexts_cons, nodeTexts_cons, dotNode_text, dotNode_text] at h
      simp only [List.cons.injEq, true_and, List.append_cancel_left_eq] at h
      obtain ⟨rfl, hrest⟩ := Node.label_append_inj hn hm h
      simp only [List.append_cancel_left_eq] at hrest
      obtain ⟨rfl, hst⟩ := ih hothers hothers' hrest
      exact ⟨rfl, hst⟩

end Graph

/-! ## Edges -/

/-- What stands behind a position when these follow. -/
private def otherPositions : List ℕ → List Char → List Char
  | [], s => ']' :: s
  | ps, s => ',' :: ((Text.joinWith "," (ps.map toString)).toList ++ ']' :: s)

private lemma stops_otherPositions (ps : List ℕ) (s : List Char) :
    Stops Char.isDigit (otherPositions ps s) := by
  cases ps
  · exact stops_cons (by decide) _
  · exact stops_cons (by decide) _

/-- The positions of a grouping are the first of them and the others, each behind a comma. -/
private lemma positions_cons (p : ℕ) (ps : List ℕ) (s : List Char) :
    (Text.joinWith "," ((p :: ps).map toString)).toList ++ ']' :: s =
      (toString p).toList ++ otherPositions ps s := by
  cases ps <;> simp [otherPositions, Text.joinWith_cons_cons, String.toList_append]

private lemma number_ne_close (p : ℕ) (s r : List Char) : (toString p).toList ++ s ≠ ']' :: r := by
  intro h
  have htext : (toString p).toList = Nat.toDigits 10 p := Nat.toList_repr
  cases hdigits : Nat.toDigits 10 p with
  | nil => exact Nat.toDigits_ne_nil hdigits
  | cons c cs =>
    have hc : c.isDigit = true :=
      Nat.isDigit_of_mem_toDigits (by decide) (by decide) (hdigits ▸ List.mem_cons_self)
    rw [htext, hdigits] at h
    rw [(List.cons.inj h).1] at hc
    exact absurd hc (by decide)

/-- Positions and what follows them are determined by the text of both. -/
private lemma positions_append_inj {ps qs : List ℕ} {s t : List Char}
    (h : (Text.joinWith "," (ps.map toString)).toList ++ ']' :: s =
      (Text.joinWith "," (qs.map toString)).toList ++ ']' :: t) : ps = qs ∧ s = t := by
  induction ps generalizing qs with
  | nil =>
    cases qs with
    | nil => exact ⟨rfl, (List.cons.inj h).2⟩
    | cons q qs =>
      rw [positions_cons] at h
      exact absurd h.symm (number_ne_close q _ _)
  | cons p ps ih =>
    cases qs with
    | nil =>
      rw [positions_cons] at h
      exact absurd h (number_ne_close p _ _)
    | cons q qs =>
      rw [positions_cons, positions_cons] at h
      obtain ⟨rfl, hrest⟩ :=
        number_append_inj (stops_otherPositions ps s) (stops_otherPositions qs t) h
      -- both lists go on or both end, as the next character says
      cases ps <;> cases qs <;>
        simp only [otherPositions, List.cons.injEq, Char.reduceEq, false_and, true_and] at hrest
      · exact ⟨rfl, hrest⟩
      · obtain ⟨hsame, hst⟩ := ih hrest
        exact ⟨congrArg _ hsame, hst⟩

/-- A grouping and what follows it behind a quote are determined by the text of both. -/
theorem Grouping.render_append_inj {γ δ : Grouping} {s t : List Char}
    (h : γ.render.toList ++ '"' :: s = δ.render.toList ++ '"' :: t) : γ = δ ∧ s = t := by
  -- the first two characters tell the groupings apart
  cases γ <;> cases δ <;>
    simp only [Grouping.render, String.toList_append, List.append_assoc] at h
  case fields.fields ps qs =>
    obtain ⟨rfl, hrest⟩ := positions_append_inj (List.append_cancel_left h)
    exact ⟨rfl, (List.cons.inj hrest).2⟩
  case shuffle.shuffle | all.all | global.global =>
    exact ⟨rfl, (List.cons.inj (List.append_cancel_left h)).2⟩
  all_goals simp at h

namespace Graph

private lemma dotEdge_text (g : Graph) (e : Edge) (s : List Char) :
    (g.dotEdge e).toList ++ s = ' ' :: ' ' :: 'n' :: ((toString e.source).toList ++
      ' ' :: '-' :: ("> n".toList ++ ((toString e.target).toList ++
        ' ' :: ("[label=\"".toList ++ (e.grouping.render.toList ++ '"' ::
          ((if g.isFeedback e then " style=dashed" else "").toList ++
            ("];\n".toList ++ s))))))) := by
  simp [dotEdge, String.toList_append]

/-- The statements for edges and the end of the text. -/
private def edgeTexts (g : Graph) (es : List Edge) : List Char :=
  (Text.concat (es.map g.dotEdge)).toList ++ ['\x7d', '\n']

private lemma edgeTexts_cons (g : Graph) (e : Edge) (es : List Edge) :
    edgeTexts g (e :: es) = (g.dotEdge e).toList ++ edgeTexts g es := by
  simp [edgeTexts, String.toList_append]

/-- The nodes end where the edges begin. -/
private lemma endsNodes_edgeTexts (g : Graph) (es : List Edge) : EndsNodes (edgeTexts g es) := by
  intro n place r h
  cases es with
  | nil =>
    rw [dotNode_text] at h
    simp [edgeTexts] at h
  | cons e es =>
    rw [edgeTexts_cons, dotEdge_text, dotNode_text] at h
    simp only [List.cons.injEq, true_and] at h
    obtain ⟨-, hrest⟩ :=
      number_append_inj (stops_cons (by decide) _) (stops_cons (by decide) _) h
    simp at hrest

/-- Edges are determined by the text of their statements. -/
private lemma edgeTexts_inj {g : Graph} {es es' : List Edge}
    (h : edgeTexts g es = edgeTexts g es') : es = es' := by
  induction es generalizing es' with
  | nil =>
    cases es' with
    | nil => rfl
    | cons e' es' =>
      rw [edgeTexts_cons, dotEdge_text] at h
      simp [edgeTexts] at h
  | cons e es ih =>
    cases es' with
    | nil =>
      rw [edgeTexts_cons, dotEdge_text] at h
      simp [edgeTexts] at h
    | cons e' es' =>
      rw [edgeTexts_cons, edgeTexts_cons, dotEdge_text, dotEdge_text] at h
      simp only [List.cons.injEq, true_and] at h
      obtain ⟨hsource, h₁⟩ :=
        number_append_inj (stops_cons (by decide) _) (stops_cons (by decide) _) h
      simp only [List.cons.injEq, true_and, List.append_cancel_left_eq] at h₁
      obtain ⟨htarget, h₂⟩ :=
        number_append_inj (stops_cons (by decide) _) (stops_cons (by decide) _) h₁
      simp only [List.cons.injEq, true_and, List.append_cancel_left_eq] at h₂
      obtain ⟨hgrouping, h₃⟩ := Grouping.render_append_inj h₂
      obtain rfl : e = e' := by
        cases e
        cases e'
        simp_all
      simp only [List.append_cancel_left_eq] at h₃
      exact congrArg _ (ih h₃)

/-! ## Graphs -/

/-- A drawn graph as characters: its name, its nodes and its edges. -/
private lemma dot_text (g : Graph) : g.dot.toList =
    "digraph \"".toList ++ ((Dot.escape g.name).toList ++ '"' ::
      (" \x7b\n  rankdir=LR;\n".toList ++ nodeTexts g.nodes 0 (edgeTexts g g.edges))) := by
  simp [dot, nodeTexts, edgeTexts, String.toList_append]

/-- The edges are drawn in one way in graphs with the same nodes. -/
private lemma edgeTexts_congr {g g' : Graph} (h : g.nodes = g'.nodes) :
    edgeTexts g = edgeTexts g' := by
  have hedge : g.dotEdge = g'.dotEdge := by
    funext e
    have hback : g.isFeedback e = g'.isFeedback e := by rw [isFeedback, isFeedback, h]
    rw [dotEdge, dotEdge, hback]
  funext es
  rw [edgeTexts, edgeTexts, hedge]

/-- Graphs that are built from nothing and have one drawing have the same name, nodes and
edges. -/
theorem eq_of_dot_eq {name name' : String} {workers workers' maxParallelism maxParallelism' : ℕ}
    {requests requests' : List Request} {b b' : Building}
    (h : (Building.new name workers maxParallelism).run? requests = some b)
    (h' : (Building.new name' workers' maxParallelism').run? requests' = some b')
    (hdot : b.graph.dot = b'.graph.dot) :
    b.graph.name = b'.graph.name ∧ b.graph.nodes = b'.graph.nodes ∧
      b.graph.edges = b'.graph.edges := by
  have hsound := Building.sound_of_run? h
  have hsound' := Building.sound_of_run? h'
  have htext := congrArg String.toList hdot
  rw [dot_text, dot_text, List.append_cancel_left_eq] at htext
  obtain ⟨hname, hbody⟩ := Dot.escape_append_inj (.inl ⟨_, rfl⟩) (.inl ⟨_, rfl⟩) htext
  simp only [List.cons.injEq, true_and, List.append_cancel_left_eq] at hbody
  obtain ⟨hnodes, hrest⟩ := nodeTexts_inj hsound.nodes hsound'.nodes
    (endsNodes_edgeTexts _ _) (endsNodes_edgeTexts _ _) hbody
  rw [edgeTexts_congr hnodes] at hrest
  exact ⟨hname, hnodes, edgeTexts_inj hrest⟩

/-- Names that look like parts of a drawing, in graphs that were not asked for the same. -/
theorem eq_of_dot_eq_of_odd_names :
    let requests : List Request := [.source "s\" shape=box];\n  n1 [label=\"t",
      .operator "s\\nfilter x1" .filter 1, .connect ⟨0, 1, .fields [1, 0]⟩]
    let more : List Request := requests ++ [.source "s\\nfilter x1", .axioms 0 []]
    ∃ b b', (Building.new "\"\\" 1 1).run? requests = some b ∧
      (Building.new "\"\\" 2 3).run? more = some b' ∧ b.graph.dot = b'.graph.dot ∧
      (b.graph.name = b'.graph.name ∧ b.graph.nodes = b'.graph.nodes ∧
        b.graph.edges = b'.graph.edges) ∧
      b.graph.nodes.length = 2 := by
  intro requests more
  have h : (Building.new "\"\\" 1 1).run? requests = some _ := rfl
  have h' : (Building.new "\"\\" 2 3).run? more = some _ := rfl
  exact ⟨_, _, h, h', rfl, eq_of_dot_eq h h' rfl, rfl⟩

end Graph
end RuleFlow
