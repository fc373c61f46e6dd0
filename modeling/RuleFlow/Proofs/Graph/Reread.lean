import RuleFlow.Graph.Json
import RuleFlow.Graph.Render
import RuleFlow.Proofs.Graph.Building

/-!
# Graphs that are read again

Whatever is written of a graph is read back as it was, as long as its numbers are machine words
(`ofJson?_toJson`). The index of names is not written, so the graph that is read knows none of
the names of its nodes.

`Building.forget` takes the names of some first nodes out of an index. It changes nothing for
other names (`Building.Sound.forgets`), and requests that declare other names cannot tell the
difference (`Building.Sound.run?_forget`). What is declared after a reading is known alone
(`Since`). Together these say what becomes of a graph that is written, read and built
further (`Reread`, `reread_of_requests`).
-/

namespace RuleFlow

/-- A list whose items are read back one by one is read back. -/
lemma mapM_map_eq_some {α β : Type} {write : α → β} {read? : β → Option α} {as : List α}
    (h : ∀ a ∈ as, read? (write a) = some a) : (as.map write).mapM read? = some as := by
  induction as with
  | nil => rfl
  | cons a as ih =>
    obtain ⟨ha, has⟩ := List.forall_mem_cons.1 h
    rw [List.map_cons, List.mapM_cons, ha, ih has]
    rfl

/-! ## What is read back -/

/-- The positions by which tuples are dealt out. -/
def Grouping.positions : Grouping → List ℕ
  | .fields positions => positions
  | _ => []

/-- The numbers of a graph are machine words. -/
structure Graph.Words (g : Graph) : Prop where
  /-- The number of workers is one. -/
  workers : g.workers < Text.wordLimit
  /-- The most instances are one. -/
  maxParallelism : g.maxParallelism < Text.wordLimit
  /-- The instances of each operator are one. -/
  nodes : ∀ n ∈ g.nodes, ∀ p ∈ n.parallelism, p < Text.wordLimit
  /-- The places and positions of each edge are ones. -/
  edges : ∀ e ∈ g.edges, e.source < Text.wordLimit ∧ e.target < Text.wordLimit ∧
    ∀ p ∈ e.grouping.positions, p < Text.wordLimit

theorem Grouping.ofJson?_toJson {γ : Grouping} (h : ∀ p ∈ γ.positions, p < Text.wordLimit) :
    ofJson? γ.toJson = some γ := by
  cases γ with
  | fields positions =>
    have hread : (positions.map Json.ofNat).mapM Json.word? = some positions :=
      mapM_map_eq_some fun p hp => Json.word?_ofNat (h p hp)
    show (do some (Grouping.fields (← (positions.map Json.ofNat).mapM Json.word?))) = _
    rw [hread]
    rfl
  | shuffle => rfl
  | all => rfl
  | global => rfl

lemma Kind.optional?_name (k : Kind) :
    Json.optional? (fun j => j.choice?.bind Kind.ofName?) (some (.string k.name)) = some (some k) := by
  cases k <;> rfl

lemma Json.optional?_ofNat {n : ℕ} (h : n < Text.wordLimit) :
    Json.optional? Json.word? (some (Json.ofNat n)) = some (some n) := by
  show (Json.word? (Json.ofNat n)).map some = _
  rw [Json.word?_ofNat h]
  rfl

/-- A node whose number of instances is a word is read back. -/
theorem Node.ofJson?_toJson {n : Node} (h : ∀ p ∈ n.parallelism, p < Text.wordLimit) :
    ofJson? n.toJson = some n := by
  obtain ⟨name, kind, parallelism⟩ := n
  cases kind with
  | none =>
    cases parallelism with
    | none => rfl
    | some p =>
      show (do some (Node.mk name none (← Json.optional? Json.word? (some (Json.ofNat p))))) = _
      rw [Json.optional?_ofNat (h p rfl)]
      rfl
  | some k =>
    have hkind := k.optional?_name
    cases parallelism with
    | none =>
      show (do some (Node.mk name (← Json.optional? _ (some (.string k.name))) none)) = _
      rw [hkind]
      rfl
    | some p =>
      show (do some (Node.mk name (← Json.optional? _ (some (.string k.name)))
        (← Json.optional? Json.word? (some (Json.ofNat p))))) = _
      rw [hkind, Json.optional?_ofNat (h p rfl)]
      rfl

theorem Edge.ofJson?_toJson {e : Edge} (hsource : e.source < Text.wordLimit)
    (htarget : e.target < Text.wordLimit) (hgrouping : ∀ p ∈ e.grouping.positions, p < Text.wordLimit) :
    ofJson? e.toJson = some e := by
  show (do some (Edge.mk (← Json.word? (Json.ofNat e.source)) (← Json.word? (Json.ofNat e.target))
    (← Grouping.ofJson? e.grouping.toJson))) = some e
  rw [Json.word?_ofNat hsource, Json.word?_ofNat htarget, Grouping.ofJson?_toJson hgrouping]
  rfl

namespace Graph

/-- A graph is read back but for its index. -/
theorem ofJson?_toJson {g : Graph} (h : g.Words) :
    ofJson? g.toJson = some { g with index := {} } := by
  obtain ⟨name, workers, maxParallelism, nodes, edges, axioms, index⟩ := g
  have hnodes : (nodes.map Node.toJson).mapM Node.ofJson? = some nodes :=
    mapM_map_eq_some fun n hn => Node.ofJson?_toJson (h.nodes n hn)
  have hedges : (edges.map Edge.toJson).mapM Edge.ofJson? = some edges := by
    refine mapM_map_eq_some fun e he => ?_
    obtain ⟨hsource, htarget, hgrouping⟩ := h.edges e he
    exact Edge.ofJson?_toJson hsource htarget hgrouping
  have haxioms : (axioms.map Json.string).mapM Json.string? = some axioms :=
    mapM_map_eq_some fun _ _ => rfl
  have hgraph : ∀ written : Option Json, Json.orDefault? [] Json.strings? written = some axioms →
      (do some (Graph.mk name (← Json.word? (Json.ofNat workers))
        (← Json.word? (Json.ofNat maxParallelism)) (← (nodes.map Node.toJson).mapM Node.ofJson?)
        (← (edges.map Edge.toJson).mapM Edge.ofJson?)
        (← Json.orDefault? [] Json.strings? written) {})) =
      some (Graph.mk name workers maxParallelism nodes edges axioms {}) := by
    intro written hwritten
    rw [Json.word?_ofNat h.workers, Json.word?_ofNat h.maxParallelism, hnodes, hedges, hwritten]
    rfl
  cases axioms with
  | nil => exact hgraph none rfl
  | cons a as => exact hgraph (some (Json.strings (a :: as))) haxioms

/-! ## Names that are forgotten -/

/-- The graph without the first names of its index. -/
def forget (count : ℕ) (g : Graph) : Graph :=
  { g with index := ⟨g.index.entries.drop count⟩ }

/-- The second graph is the first, but these names are not known in it. -/
structure Forgets (names : List String) (g g' : Graph) : Prop where
  /-- All but the index is the same. -/
  kept : g' = { g with index := g'.index }
  /-- What does not go through the index is written and counted in the same way. -/
  written : g'.toJson = g.toJson ∧ g'.dot = g.dot ∧ ∀ kind, g'.count kind = g.count kind
  /-- These names are not found. -/
  forgotten : ∀ name ∈ names, g'.idOf? name = none ∧ g'.node? name = none ∧
    g'.inputs name = [] ∧ g'.outputs name = []
  /-- Other names are found as before. -/
  found : ∀ name, name ∉ names → g'.idOf? name = g.idOf? name ∧ g'.node? name = g.node? name ∧
    g'.inputs name = g.inputs name ∧ g'.outputs name = g.outputs name

namespace Building

/-- The graph that is being built without the first names of its index. -/
def forget (count : ℕ) (b : Building) : Building := ⟨b.graph.forget count, b.given⟩

variable {b b' : Building} {old : List Node}

/-- The names of the first nodes are forgotten, and only they. -/
lemma Sound.idOf?_forget (h : b.Sound) (hold : old <+: b.graph.nodes) (name : String) :
    (b.graph.forget old.length).idOf? name =
      if name ∈ old.map Node.name then none else b.graph.idOf? name := by
  obtain ⟨others, hnodes⟩ := hold
  have hnodup := h.indexed.nodup
  rw [← hnodes, List.map_append] at hnodup
  have hentries : b.graph.index.entries =
      (places 0 old).entries ++ (places old.length others).entries := by
    rw [h.index, ← hnodes, entries_places_append, Nat.zero_add]
  have hnone : ∀ start nodes, name ∉ nodes.map Node.name →
      (places start nodes).find? name = none := by
    intro start nodes hname
    rwa [Table.find?_eq_none_iff, keys_places]
  have hforget : (b.graph.forget old.length).idOf? name = (places old.length others).find? name := by
    show (b.graph.index.entries.drop old.length).lookup name = _
    rw [hentries, List.drop_left' (by simp [places])]
    rfl
  rw [hforget]
  split
  · next hname =>
    exact hnone _ _ fun hother => List.disjoint_of_nodup_append hnodup hname hother
  · next hname =>
    have hfirst : (places 0 old).entries.lookup name = none := hnone 0 old hname
    show _ = b.graph.index.entries.lookup name
    rw [hentries, List.lookup_append, hfirst, Option.none_or]
    rfl

/-- A graph read again forgets the names of its first nodes. -/
theorem Sound.forgets (h : b.Sound) (hold : old <+: b.graph.nodes) :
    Forgets (old.map Node.name) b.graph (b.graph.forget old.length) where
  kept := rfl
  written := ⟨rfl, rfl, fun _ => rfl⟩
  forgotten := by
    intro name hname
    have hnone := h.idOf?_forget hold name
    rw [if_pos hname] at hnone
    refine ⟨hnone, ?_, ends_of_unknown hnone⟩
    rw [node?, hnone]
    rfl
  found := by
    intro name hname
    have hsame := h.idOf?_forget hold name
    rw [if_neg hname] at hsame
    refine ⟨hsame, ?_, ?_, ?_⟩
    · rw [node?, node?, hsame]
      rfl
    · rw [inputs, inputs, hsame]
      rfl
    · rw [outputs, outputs, hsame]
      rfl

/-- A declaration of another name does not notice what is forgotten. -/
lemma Sound.declare_forget (h : b.Sound) (hold : old <+: b.graph.nodes) {n : Node}
    (hn : n.name ∉ old.map Node.name) :
    (b.graph.forget old.length).declare n =
      ((b.graph.declare n).1.forget old.length, (b.graph.declare n).2) := by
  have hsame := h.idOf?_forget hold n.name
  rw [if_neg hn] at hsame
  rcases declare_cases b.graph n with ⟨id, hid, hdeclare⟩ | ⟨hnew, hdeclare⟩
  · rw [hdeclare, declare_of_idOf? (hsame.trans hid)]
  · rcases declare_cases (b.graph.forget old.length) n with ⟨id, hid, -⟩ | ⟨hnew', hdeclare'⟩
    · exact nomatch (hsame.trans hnew).symm.trans hid
    · have hle : old.length ≤ b.graph.index.entries.length := by
        have hlength := hold.length_le
        rw [h.index]
        simpa [places] using hlength
      have hindex : (b.graph.forget old.length).index.insert n.name b.graph.nodes.length =
          ⟨(b.graph.index.insert n.name b.graph.nodes.length).entries.drop old.length⟩ := by
        have hentries := Table.entries_insert_of_new b.graph.nodes.length hnew'
        have hentries' := Table.entries_insert_of_new b.graph.nodes.length hnew
        rw [hentries', List.drop_append_of_le_length hle]
        exact congrArg Table.mk hentries
      rw [hdeclare, hdeclare']
      exact congrArg (fun index => ({ b.graph with nodes := b.graph.nodes ++ [n], index := index },
        b.graph.nodes.length)) hindex

/-- Every request leaves the nodes that there are. -/
lemma nodes_prefix_of_perform? {r : Request} (hr : b.perform? r = some b') :
    b.graph.nodes <+: b'.graph.nodes := by
  rcases perform?_cases hr with ⟨n, -, -, rfl⟩ | ⟨_, -, -, rfl⟩ | ⟨_, _, -, rfl⟩
  · rcases declare_cases b.graph n with ⟨_, -, hdeclare⟩ | ⟨-, hdeclare⟩
    · rw [give, hdeclare]
    · rw [give, hdeclare]
      exact List.prefix_append _ _
  · exact List.prefix_refl _
  · exact List.prefix_refl _

/-- A request that declares none of the forgotten names does not notice that they are. -/
lemma Sound.perform?_forget (h : b.Sound) (hold : old <+: b.graph.nodes) {r : Request}
    (hr : ∀ n, r.node? = some n → n.name ∉ old.map Node.name) :
    (b.forget old.length).perform? r = (b.perform? r).map (forget old.length) := by
  cases r with
  | source name =>
    have hdeclare := h.declare_forget hold (hr _ rfl)
    exact congrArg (fun declared => some ((b.forget old.length).give declared)) hdeclare
  | operator name kind parallelism =>
    have hdeclare := h.declare_forget hold (hr _ rfl)
    exact congrArg (fun declared => some ((b.forget old.length).give declared)) hdeclare
  | connect e =>
    show (if e.source ∈ b.given ∧ e.target ∈ b.given then _ else none) =
      (if e.source ∈ b.given ∧ e.target ∈ b.given then _ else none).map _
    split <;> rfl
  | axioms _ axioms => rfl

/-- Nor does a run of such requests. -/
theorem Sound.run?_forget (h : b.Sound) (hold : old <+: b.graph.nodes) {requests : List Request}
    (hfresh : ∀ r ∈ requests, ∀ n, r.node? = some n → n.name ∉ old.map Node.name) :
    (b.forget old.length).run? requests = (b.run? requests).map (forget old.length) := by
  induction requests generalizing b with
  | nil => rfl
  | cons r requests ih =>
    obtain ⟨hr, hrest⟩ := List.forall_mem_cons.1 hfresh
    have hstep := h.perform?_forget hold hr
    simp only [run?, List.foldlM_cons] at ih ⊢
    rw [hstep]
    cases hb : b.perform? r with
    | none => rfl
    | some next => exact ih (h.perform hb) (hold.trans (nodes_prefix_of_perform? hb)) hrest

end Building

/-! ## Names that are declared later -/

/-- Just the nodes behind the old ones are known by name. -/
structure Since (old added : List Node) (g : Graph) : Prop where
  /-- They stand behind the old ones. -/
  nodes : g.nodes = old ++ added
  /-- No two of them have one name. -/
  nodup : (added.map Node.name).Nodup
  /-- The index holds their names with their places. -/
  index : g.index = places old.length added

/-- A graph read again finds the names that were declared since, and no others. -/
lemma Since.idOf?_eq_none_iff {old added : List Node} {g : Graph} (h : Since old added g)
    (name : String) : g.idOf? name = none ↔ name ∉ added.map Node.name := by
  rw [idOf?, Table.find?_eq_none_iff, h.index, keys_places]

/-- A declaration adds at most one node to those that are known. -/
lemma Since.declare {old added : List Node} {g : Graph} (h : Since old added g) (n : Node) :
    ∃ added', Since old added' (g.declare n).1 := by
  rcases declare_cases g n with ⟨id, -, hdeclare⟩ | ⟨hnew, hdeclare⟩
  · rw [hdeclare]
    exact ⟨added, h⟩
  · rw [hdeclare]
    refine ⟨added ++ [n], ?_, ?_, ?_⟩
    · show g.nodes ++ [n] = _
      rw [h.nodes, List.append_assoc]
    · rw [List.map_append, List.map_singleton, ← List.concat_eq_append]
      exact h.nodup.concat ((h.idOf?_eq_none_iff n.name).1 hnew)
    · have hnone : (places old.length added).find? n.name = none := h.index ▸ hnew
      show g.index.insert n.name g.nodes.length = _
      rw [h.index, h.nodes, List.length_append, insert_places hnone]

/-- Every request keeps the names that are known to those that were declared later. -/
lemma Since.perform {old added : List Node} {b b' : Building} {r : Request}
    (h : Since old added b.graph) (hr : b.perform? r = some b') :
    ∃ added', Since old added' b'.graph := by
  rcases Building.perform?_cases hr with ⟨n, -, -, rfl⟩ | ⟨e, -, -, rfl⟩ | ⟨_, as, -, rfl⟩
  · exact h.declare n
  · exact ⟨added, h.nodes, h.nodup, h.index⟩
  · exact ⟨added, h.nodes, h.nodup, h.index⟩

/-! ## Graphs that are built further -/

/-- Without an index no operator is seen to have inputs. -/
lemma summary_of_empty_index (g : Graph) :
    { g with index := {} }.summary = { g with edges := [] }.summary := by
  have hinputs : ∀ name,
      { g with index := {} }.inputs name = { g with edges := [] }.inputs name := by
    intro name
    have hnone : { g with edges := [] }.inputs name = [] := by
      unfold inputs
      split <;> rfl
    exact (ends_of_unknown rfl).1.trans hnone.symm
  have hline : { g with index := {} }.summaryLine = { g with edges := [] }.summaryLine := by
    funext n kind
    rw [summaryLine, summaryLine, hinputs]
  unfold summary
  rw [hline]
  rfl

/-- The graph was read from what was written of the one that is being built. -/
structure Reread (b : Building) (g : Graph) : Prop where
  /-- All but the index is as it was. -/
  kept : g = { b.graph with index := {} }
  /-- The index is what the names of the nodes make it. -/
  restored : { g with index := places 0 g.nodes } = b.graph
  /-- It is the same graph just when nothing was declared. -/
  eq_iff : g = b.graph ↔ b.graph.nodes = []
  /-- The names of the nodes are forgotten. -/
  forgets : Forgets (b.graph.nodes.map Node.name) b.graph g
  /-- No name is known. -/
  unknown : ∀ name, g.idOf? name = none
  /-- The summary is that of the graph without its edges. -/
  summary : g.summary = { b.graph with edges := [] }.summary
  /-- A name that was declared already gets a second node when it is declared again. -/
  again : ∀ n, (g.declare n).1.nodes = b.graph.nodes ++ [n] ∧
    (g.declare n).2 = b.graph.nodes.length
  /-- Requests that declare none of the names do on both what they do, and give out the same
  places. -/
  continued : ∀ requests,
    (∀ r ∈ requests, ∀ n, r.node? = some n → n.name ∉ b.graph.nodes.map Node.name) →
    Option.Rel (fun b₁ b₂ : Building =>
        b₂.given = b₁.given ∧ Forgets (b.graph.nodes.map Node.name) b₁.graph b₂.graph)
      (b.run? requests) (Building.run? ⟨g, b.given⟩ requests)
  /-- After any requests just the names that were declared since are known. -/
  since : ∀ requests b₂, Building.run? ⟨g, b.given⟩ requests = some b₂ →
    ∃ added, Since b.graph.nodes added b₂.graph ∧
      ∀ name, b₂.graph.idOf? name = none ↔ name ∉ added.map Node.name

namespace Building
variable {b : Building}

/-- The graph with an empty index is the one whose names are all forgotten. -/
lemma Sound.forget_all (h : b.Sound) :
    b.graph.forget b.graph.nodes.length = { b.graph with index := {} } := by
  have hdrop : b.graph.index.entries.drop b.graph.nodes.length = [] := by
    apply List.drop_eq_nil_of_le
    rw [h.index]
    simp [places]
  rw [Graph.forget, hdrop]

/-- What was forgotten at a reading stays the only difference. -/
lemma Sound.continued (h : b.Sound) {requests : List Request}
    (hfresh : ∀ r ∈ requests, ∀ n, r.node? = some n → n.name ∉ b.graph.nodes.map Node.name) :
    Option.Rel (fun b₁ b₂ : Building =>
        b₂.given = b₁.given ∧ Forgets (b.graph.nodes.map Node.name) b₁.graph b₂.graph)
      (b.run? requests) (Building.run? ⟨{ b.graph with index := {} }, b.given⟩ requests) := by
  have hrun := h.run?_forget (List.prefix_refl _) hfresh
  rw [forget, h.forget_all] at hrun
  rw [hrun]
  cases hb : b.run? requests with
  | none => exact .none
  | some b₁ =>
    refine .some ⟨rfl, ?_⟩
    have hkept : b₁.Sound ∧ b.graph.nodes <+: b₁.graph.nodes :=
      run?_induction (P := fun b₁ => b₁.Sound ∧ b.graph.nodes <+: b₁.graph.nodes)
        (fun _ _ _ hb₁ hr => ⟨hb₁.1.perform hr, hb₁.2.trans (nodes_prefix_of_perform? hr)⟩)
        ⟨h, List.prefix_refl _⟩ hb
    exact hkept.1.forgets hkept.2

end Building

/-- A graph that is built from nothing, written and read back is the same but for its index,
and this is what can be seen of it later. -/
theorem reread_of_requests {name : String} {workers maxParallelism : ℕ} {requests : List Request}
    {b : Building} (h : (Building.new name workers maxParallelism).run? requests = some b)
    (hwords : b.graph.Words) : ∃ g, Graph.ofJson? b.graph.toJson = some g ∧ Reread b g := by
  have hsound := Building.sound_of_run? h
  refine ⟨_, ofJson?_toJson hwords, ?_⟩
  constructor
  · rfl
  · show { b.graph with index := places 0 b.graph.nodes } = b.graph
    rw [← hsound.index]
  · constructor
    · intro heq
      have hindex : places 0 b.graph.nodes = {} := hsound.index ▸ (congrArg Graph.index heq).symm
      have hentries := congrArg Table.keys hindex
      rw [keys_places] at hentries
      exact List.map_eq_nil_iff.1 hentries
    · intro hnodes
      have hindex : b.graph.index = {} := by
        rw [hsound.index, hnodes]
        rfl
      rw [← hindex]
  · have hforgets := hsound.forgets (List.prefix_refl _)
    rwa [hsound.forget_all] at hforgets
  · exact fun _ => rfl
  · exact summary_of_empty_index b.graph
  · exact fun _ => ⟨rfl, rfl⟩
  · exact fun _ hfresh => hsound.continued hfresh
  · intro more b₂ hmore
    have hread : Since b.graph.nodes [] { b.graph with index := {} } :=
      ⟨(List.append_nil _).symm, List.nodup_nil, rfl⟩
    obtain ⟨added, hsince⟩ :=
      Building.run?_induction (P := fun b₂ => ∃ added, Since b.graph.nodes added b₂.graph)
        (fun _ _ _ ⟨_, hsince⟩ hr => hsince.perform hr) ⟨[], hread⟩ hmore
    exact ⟨added, hsince, hsince.idOf?_eq_none_iff⟩

/-- A source and a filter with a flow between them, which is not found after the reading. -/
theorem reread_of_flow :
    let requests : List Request := [.source "s", .operator "f" .filter 2,
      .connect ⟨0, 1, .fields [1, 0]⟩, .axioms 0 [⟨.blank "x", .iri "p", .blank "y"⟩]]
    let b : Building :=
      ⟨{ name := "g", maxParallelism := 4,
         nodes := [⟨"s", none, none⟩, ⟨"f", some .filter, some 2⟩],
         edges := [⟨0, 1, .fields [1, 0]⟩], axioms := ["(_:x <p> _:y)"],
         index := ⟨[("s", 0), ("f", 1)]⟩ }, [0, 1]⟩
    (Building.new "g" 1 4).run? requests = some b ∧ b.graph.Words ∧
      ∃ g, (Graph.ofJson? b.graph.toJson = some g ∧ Reread b g) ∧
        b.graph.inputs "f" = [("s", .fields [1, 0])] ∧ g.inputs "f" = [] := by
  intro requests b
  have h : (Building.new "g" 1 4).run? requests = some b := rfl
  have hwords : b.graph.Words := ⟨by decide, by decide, by decide, by decide⟩
  obtain ⟨g, hread, hreread⟩ := reread_of_requests h hwords
  exact ⟨h, hwords, g, ⟨hread, hreread⟩, by decide, (ends_of_unknown (hreread.unknown "f")).1⟩

/-- A source is not found in the graph that was read, and is declared there a second time. -/
theorem source_forgotten_by_reading :
    ∃ b g, (Building.new "g" 1 1).run? [.source "s"] = some b ∧
      Graph.ofJson? b.graph.toJson = some g ∧ g ≠ b.graph ∧
      b.graph.idOf? "s" = some 0 ∧ g.idOf? "s" = none ∧
      (b.graph.declareSource "s").2 = 0 ∧ (g.declareSource "s").2 = 1 := by
  refine ⟨_, _, rfl, rfl, ?_, rfl, rfl, rfl, rfl⟩
  decide

end Graph
end RuleFlow
