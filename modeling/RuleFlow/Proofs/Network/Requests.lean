import RuleFlow.Proofs.Network.Registry

/-!
# What a registry answers

A registry is asked to reserve names, to register operators, to look operators up and to find free
names, in any order. `perform` says what one request does to it and what it answers, and
`after` what it is after a list of requests, when it was empty before.

`Admits` says from the requests alone which operators they bring in: an operator is admitted when
no operator admitted before has its name and nobody asked for the name to be kept free. A request
keeps the registry in step with this account (`Records.perform`), so it is in step after any
requests (`records_after`). What the registry can be relied on for is collected in `Dependable`.
-/

namespace RuleFlow

/-- Whatever the registry refuses ends the compilation. -/
lemma RegistryError.isFatal_diagnostic (e : RegistryError) : e.diagnostic.isFatal = true := by
  cases e <;> rfl

namespace Registry

/-! ## Requests -/

/-- What is asked of a registry. -/
inductive Request where
  /-- A name is to be kept free. -/
  | reserve (name : String)
  /-- An operator is to be admitted. -/
  | register (op : Operator)
  /-- An operator of a certain shape is wanted. -/
  | lookup (key : String) (kind : Kind) (arity : ℕ)
  /-- The operator of a name is wanted. -/
  | get (name : String)
  /-- Whether an operator has a name. -/
  | contains (name : String)
  /-- A free name is wanted. -/
  | uniqueName (base : String)

/-- What a registry answers. -/
inductive Answer where
  /-- The request is fulfilled. -/
  | done
  /-- The operator that was found, if there is one. -/
  | operator (op? : Option Operator)
  /-- Yes or no. -/
  | truth (b : Bool)
  /-- A name. -/
  | name (name : String)
  /-- The request is refused. -/
  | refused (e : RegistryError)
  deriving DecidableEq

/-- The registry after a request, and what it answers. -/
def perform (r : Registry) : Request → Registry × Answer
  | .reserve name => (r.reserve name, .done)
  | .register op =>
    match r.register op with
    | .ok r' => (r', .done)
    | .error e => (r, .refused e)
  | .lookup key kind arity =>
    match r.lookup key kind arity with
    | .ok op? => (r, .operator op?)
    | .error e => (r, .refused e)
  | .get name => (r, .operator (r.get? name))
  | .contains name => (r, .truth (r.contains name))
  | .uniqueName base => (r, .name (r.uniqueName base))

/-- The registry after requests. -/
def after (requests : List Request) : Registry :=
  requests.foldl (fun r request => (r.perform request).1) empty

/-- What the registry answers to a request after others. -/
def answer (requests : List Request) (request : Request) : Answer :=
  ((after requests).perform request).2

/-- Further requests go on from the registry that the first ones leave. -/
lemma after_append (requests others : List Request) :
    after (requests ++ others) =
      others.foldl (fun r request => (r.perform request).1) (after requests) :=
  List.foldl_append

lemma after_snoc (requests : List Request) (request : Request) :
    after (requests ++ [request]) = ((after requests).perform request).1 :=
  after_append requests [request]

section
variable {r r' : Registry} {op : Operator}

/-- All that registering can do. -/
lemma perform_register_cases (r : Registry) (op : Operator) :
    (r.isTaken op.name = false ∧ ∃ r', r.register op = .ok r' ∧
      r.perform (.register op) = (r', .done)) ∨
    r.isTaken op.name = true ∧ ∃ e, r.perform (.register op) = (r, .refused e) := by
  cases hregister : r.register op with
  | ok r' =>
    refine .inl ⟨exists_register_iff.1 ⟨r', hregister⟩, r', rfl, ?_⟩
    rw [perform, hregister]
  | error e =>
    refine .inr ⟨?_, e, ?_⟩
    · rw [← Bool.not_eq_false, ← exists_register_iff, hregister]
      exact nofun
    · rw [perform, hregister]

/-- All that a look-up can find: it refuses an operator whose shape is not the wanted one. -/
lemma lookup_cases (r : Registry) (key : String) (kind : Kind) (arity : ℕ) :
    (r.get? key = none ∧ r.lookup key kind arity = .ok none) ∨
    ∃ op, r.get? key = some op ∧
      ((op.kind = kind ∧ op.arity = arity) ∧ r.lookup key kind arity = .ok (some op) ∨
        ¬(op.kind = kind ∧ op.arity = arity) ∧
          ∃ e, e.key? = some key ∧ r.lookup key kind arity = .error e) := by
  unfold lookup
  cases hget : r.get? key with
  | none => exact .inl ⟨rfl, rfl⟩
  | some op =>
    refine .inr ⟨op, rfl, ?_⟩
    by_cases hkind : op.kind = kind
    · by_cases harity : op.arity = arity
      · exact .inl ⟨⟨hkind, harity⟩, by simp [hkind, harity]⟩
      · refine .inr ⟨fun h => harity h.2, .wrongArity key op.arity arity, rfl, ?_⟩
        simp [hkind, harity]
    · refine .inr ⟨fun h => hkind h.1, .wrongKind key op.kind kind, rfl, ?_⟩
      simp [hkind]

/-- Looking up changes nothing. -/
lemma perform_lookup_fst (r : Registry) (key : String) (kind : Kind) (arity : ℕ) :
    (r.perform (.lookup key kind arity)).1 = r := by
  simp only [perform]
  split
  · rfl
  · rfl

/-! ## What requests admit -/

/-- The operators that requests bring in, in order. -/
inductive Admits : List Request → List Operator → Prop where
  /-- Nothing was asked. -/
  | nil : Admits [] []
  /-- An operator comes in under a name that nobody had or wanted to be kept free. -/
  | admitted {requests : List Request} {ops : List Operator} {op : Operator}
    (h : Admits requests ops) (hnew : op.name ∉ ops.map Operator.name)
    (hfree : .reserve op.name ∉ requests) : Admits (requests ++ [.register op]) (ops ++ [op])
  /-- An operator does not come in under a name that is taken. -/
  | refused {requests : List Request} {ops : List Operator} {op : Operator}
    (h : Admits requests ops)
    (htaken : op.name ∈ ops.map Operator.name ∨ .reserve op.name ∈ requests) :
    Admits (requests ++ [.register op]) ops
  /-- No other request brings an operator in. -/
  | other {requests : List Request} {ops : List Operator} {request : Request}
    (h : Admits requests ops) (hother : ∀ op, request ≠ .register op) :
    Admits (requests ++ [request]) ops

/-- The registry is in step with the requests. -/
structure Records (requests : List Request) (r : Registry) : Prop where
  /-- Operators are under their own names. -/
  filed : r.Filed
  /-- They are those that the requests admit. -/
  admits : Admits requests r.toList
  /-- Names are kept free as asked. -/
  reserved : ∀ name, name ∈ r.reserved ↔ .reserve name ∈ requests
  /-- There are no more names in use than requests. -/
  small : r.size + r.reserved.length ≤ requests.length

lemma records_empty : Records [] empty where
  filed := ⟨fun _ _ => iff_of_false nofun fun h => List.not_mem_nil h.1, List.nodup_nil⟩
  admits := .nil
  reserved := fun _ => iff_of_false nofun nofun
  small := le_rfl

/-- A name cannot be taken when an operator has it or it is to be kept free. -/
lemma Records.isTaken_iff {requests : List Request} (h : Records requests r) {name : String} :
    r.isTaken name = true ↔ name ∈ r.toList.map Operator.name ∨ .reserve name ∈ requests := by
  rw [h.filed.isTaken_iff, List.mem_append, h.reserved]

/-- A request that neither reserves nor registers leaves the registry in step. -/
lemma Records.snoc {requests : List Request} (h : Records requests r) {request : Request}
    (hreserve : ∀ name, request ≠ .reserve name) (hregister : ∀ op, request ≠ .register op) :
    Records (requests ++ [request]) r where
  filed := h.filed
  admits := h.admits.other hregister
  reserved := fun name => by
    rw [h.reserved, List.mem_append, List.mem_singleton]
    exact ⟨.inl, fun hmem => hmem.resolve_right fun heq => hreserve name heq.symm⟩
  small := by
    have hsmall := h.small
    rw [List.length_append]
    omega

/-- Every request keeps the registry in step. -/
theorem Records.perform {requests : List Request} (h : Records requests r) (request : Request) :
    Records (requests ++ [request]) (r.perform request).1 := by
  have hlength : (requests ++ [request]).length = requests.length + 1 := List.length_append
  cases request with
  | reserve name =>
    refine ⟨⟨h.filed.get?_iff, h.filed.nodup⟩, h.admits.other (by simp), fun other => ?_, ?_⟩
    · show other ∈ r.reserved ++ [name] ↔ _
      simp [h.reserved]
    · have hsmall := h.small
      have hreserved : (r.reserve name).reserved.length = r.reserved.length + 1 :=
        List.length_append
      show r.size + (r.reserve name).reserved.length ≤ _
      omega
  | register op =>
    rcases perform_register_cases r op with ⟨hfree, r', hregister, heq⟩ | ⟨htaken, e, heq⟩
    · obtain ⟨-, -, -, hlist⟩ := register_spec hregister
      have hreserved := reserved_register hregister
      rw [Bool.eq_false_iff, Ne, h.isTaken_iff, not_or] at hfree
      rw [heq]
      refine ⟨h.filed.register hregister, ?_, fun name => ?_, ?_⟩
      · rw [hlist]
        exact h.admits.admitted hfree.1 hfree.2
      · rw [hreserved]
        simp [h.reserved]
      · have hsmall := h.small
        have hsize : r'.size = r.size + 1 := by
          rw [← show r'.toList.length = r'.size from List.length_map _,
            ← show r.toList.length = r.size from List.length_map _, hlist, List.length_append]
          rfl
        show r'.size + r'.reserved.length ≤ _
        rw [hreserved]
        omega
    · rw [heq]
      refine ⟨h.filed, h.admits.refused (h.isTaken_iff.1 htaken), fun name => ?_, ?_⟩
      · simp [h.reserved]
      · have hsmall := h.small
        show r.size + r.reserved.length ≤ _
        omega
  | lookup key kind arity =>
    rw [perform_lookup_fst]
    exact h.snoc nofun (by simp)
  | get name => exact h.snoc nofun (by simp)
  | contains name => exact h.snoc nofun (by simp)
  | uniqueName base => exact h.snoc nofun (by simp)

/-- A registry is in step after any requests. -/
theorem records_after (requests : List Request) : Records requests (after requests) := by
  induction requests using List.reverseRecOn with
  | nil => exact records_empty
  | append_singleton requests request ih =>
    rw [after_snoc]
    exact ih.perform request

/-- A request removes and replaces nothing. -/
lemma perform_keeps (r : Registry) (request : Request) :
    r.toList <+: (r.perform request).1.toList ∧ Grows r (r.perform request).1 := by
  cases request with
  | register op =>
    rcases perform_register_cases r op with ⟨-, r', hregister, heq⟩ | ⟨-, e, heq⟩
    · obtain ⟨-, -, hgrows, hlist⟩ := register_spec hregister
      rw [heq]
      exact ⟨hlist ▸ List.prefix_append r.toList [op], hgrows⟩
    · rw [heq]
      exact ⟨List.prefix_rfl, Grows.refl r⟩
  | lookup key kind arity =>
    rw [perform_lookup_fst]
    exact ⟨List.prefix_rfl, Grows.refl r⟩
  | reserve name => exact ⟨List.prefix_rfl, Grows.refl r⟩
  | get name => exact ⟨List.prefix_rfl, Grows.refl r⟩
  | contains name => exact ⟨List.prefix_rfl, Grows.refl r⟩
  | uniqueName base => exact ⟨List.prefix_rfl, Grows.refl r⟩

/-- Requests remove and replace nothing. -/
theorem after_keeps (requests later : List Request) :
    (after requests).toList <+: (after (requests ++ later)).toList ∧
      Grows (after requests) (after (requests ++ later)) := by
  induction later using List.reverseRecOn with
  | nil =>
    rw [List.append_nil]
    exact ⟨List.prefix_rfl, Grows.refl _⟩
  | append_singleton later request ih =>
    obtain ⟨hfront, hgrows⟩ := perform_keeps (after (requests ++ later)) request
    rw [← List.append_assoc, after_snoc]
    exact ⟨ih.1.trans hfront, ih.2.trans hgrows⟩

end

/-! ## What can be relied on -/

/-- After these requests no operator has the name, and none of them asked to keep it free. -/
def Unused (requests : List Request) (name : String) : Prop :=
  name ∉ (after requests).toList.map Operator.name ∧ .reserve name ∉ requests

/-- A registry answers as it should after these requests. -/
structure Dependable (requests : List Request) : Prop where
  /-- Its operators are those that the requests admit, in the order in which they came. -/
  admits : Admits requests (after requests).toList
  /-- No two of them have one name. -/
  nodup : ((after requests).toList.map Operator.name).Nodup
  /-- Each is under its own name. -/
  found : ∀ name op, answer requests (.get name) = .operator (some op) ↔
    op ∈ (after requests).toList ∧ op.name = name
  /-- The registry knows which names they have. -/
  contained : ∀ name, answer requests (.contains name) =
    .truth (decide (name ∈ (after requests).toList.map Operator.name))
  /-- Whatever is asked later, they stay in their places and under their names. -/
  lasting : ∀ later, (after requests).toList <+: (after (requests ++ later)).toList ∧
    ∀ name op, answer requests (.get name) = .operator (some op) →
      answer (requests ++ later) (.get name) = .operator (some op)
  /-- Nothing changes but by reserving and registering. -/
  unchanged : ∀ request, (∀ name, request ≠ .reserve name) → (∀ op, request ≠ .register op) →
    after (requests ++ [request]) = after requests
  /-- An operator with an unused name is put behind the others. -/
  registered : ∀ op, Unused requests op.name → answer requests (.register op) = .done ∧
    (after (requests ++ [.register op])).toList = (after requests).toList ++ [op]
  /-- An operator with a used name is refused, and the registry stays as it is. -/
  refused : ∀ op, ¬Unused requests op.name →
    (∃ e, answer requests (.register op) = .refused e ∧ e.diagnostic.isFatal = true) ∧
    after (requests ++ [.register op]) = after requests
  /-- A look-up finds an operator of the wanted shape, or that there is none of the name, and
  otherwise ends the compilation. -/
  lookedUp : ∀ key kind arity,
    (∀ op, answer requests (.lookup key kind arity) = .operator (some op) ↔
      answer requests (.get key) = .operator (some op) ∧ op.kind = kind ∧ op.arity = arity) ∧
    (answer requests (.lookup key kind arity) = .operator none ↔
      answer requests (.contains key) = .truth false) ∧
    ((∀ op?, answer requests (.lookup key kind arity) ≠ .operator op?) →
      ∃ e, answer requests (.lookup key kind arity) = .refused e ∧ e.key? = some key ∧
        e.diagnostic.isFatal = true)
  /-- The name that is found is the wanted one if that is unused, and else the wanted one with the
  least number, from two on, that makes it so. It can be registered. -/
  named : ∀ base, ∃ name, answer requests (.uniqueName base) = .name name ∧
    (Unused requests base → name = base) ∧
    (¬Unused requests base → ∃ n, name = numberedName base n ∧
      (2 ≤ n ∧ n ≤ requests.length + 2) ∧
      ∀ m, 2 ≤ m → m < n → ¬Unused requests (numberedName base m)) ∧
    Unused requests name ∧ ∀ op, op.name = name → answer requests (.register op) = .done

section
variable {requests : List Request}

/-- A name is unused exactly when the registry has it free. -/
lemma unused_iff {name : String} :
    Unused requests name ↔ (after requests).isTaken name = false := by
  rw [← Bool.not_eq_true, (records_after requests).isTaken_iff, not_or]
  rfl

/-- An operator with an unused name is entered at the end. -/
lemma register_unused {op : Operator} (h : Unused requests op.name) :
    answer requests (.register op) = .done ∧
      (after (requests ++ [.register op])).toList = (after requests).toList ++ [op] := by
  rcases perform_register_cases (after requests) op with
    ⟨-, r', hregister, heq⟩ | ⟨htaken, -⟩
  · rw [answer, after_snoc, heq]
    exact ⟨rfl, (register_spec hregister).2.2.2⟩
  · exact absurd (unused_iff.1 h) (by rw [htaken]; exact nofun)

/-- An operator with a used name is refused, and the registry is left as it is. -/
lemma register_used {op : Operator} (h : ¬Unused requests op.name) :
    (∃ e, answer requests (.register op) = .refused e ∧ e.diagnostic.isFatal = true) ∧
      after (requests ++ [.register op]) = after requests := by
  rcases perform_register_cases (after requests) op with ⟨hfree, -⟩ | ⟨-, e, heq⟩
  · exact absurd (unused_iff.2 hfree) h
  · rw [answer, after_snoc, heq]
    exact ⟨⟨e, rfl, e.isFatal_diagnostic⟩, rfl⟩

lemma answer_get_iff {name : String} {op? : Option Operator} :
    answer requests (.get name) = .operator op? ↔ (after requests).get? name = op? :=
  ⟨fun h => Answer.operator.inj h, fun h => congrArg Answer.operator h⟩

lemma answer_contains (name : String) : answer requests (.contains name) =
    .truth (decide (name ∈ (after requests).toList.map Operator.name)) := by
  refine congrArg Answer.truth ?_
  rw [Bool.eq_iff_iff, decide_eq_true_iff]
  exact (records_after requests).filed.contains_iff

/-- What a look-up answers follows from what is under the name. -/
lemma answer_lookup_cases (requests : List Request) (key : String) (kind : Kind) (arity : ℕ) :
    ((after requests).get? key = none ∧
      answer requests (.lookup key kind arity) = .operator none) ∨
    ∃ op, (after requests).get? key = some op ∧
      ((op.kind = kind ∧ op.arity = arity) ∧
          answer requests (.lookup key kind arity) = .operator (some op) ∨
        ¬(op.kind = kind ∧ op.arity = arity) ∧ ∃ e, e.key? = some key ∧
          answer requests (.lookup key kind arity) = .refused e) := by
  simp only [answer, perform]
  rcases lookup_cases (after requests) key kind arity with
    ⟨hget, heq⟩ | ⟨op, hget, ⟨hshape, heq⟩ | ⟨hshape, e, hkey, heq⟩⟩
  · exact .inl ⟨hget, by rw [heq]⟩
  · exact .inr ⟨op, hget, .inl ⟨hshape, by rw [heq]⟩⟩
  · exact .inr ⟨op, hget, .inr ⟨hshape, e, hkey, by rw [heq]⟩⟩

/-- A name is not contained exactly when nothing is found under it. -/
lemma answer_contains_false_iff {name : String} :
    answer requests (.contains name) = .truth false ↔ (after requests).get? name = none := by
  have hcontains : (after requests).contains name = ((after requests).get? name).isSome := rfl
  constructor
  · intro h
    have hfalse : (after requests).contains name = false := Answer.truth.inj h
    rwa [hcontains, Option.isSome_eq_false_iff, Option.isNone_iff_eq_none] at hfalse
  · intro h
    show Answer.truth _ = _
    rw [hcontains, h]
    rfl

/-- A look-up finds what has the wanted shape, or nothing, or is refused. -/
lemma answer_lookup (requests : List Request) (key : String) (kind : Kind) (arity : ℕ) :
    (∀ op, answer requests (.lookup key kind arity) = .operator (some op) ↔
      answer requests (.get key) = .operator (some op) ∧ op.kind = kind ∧ op.arity = arity) ∧
    (answer requests (.lookup key kind arity) = .operator none ↔
      answer requests (.contains key) = .truth false) ∧
    ((∀ op?, answer requests (.lookup key kind arity) ≠ .operator op?) →
      ∃ e, answer requests (.lookup key kind arity) = .refused e ∧ e.key? = some key ∧
        e.diagnostic.isFatal = true) := by
  simp only [answer_get_iff, answer_contains_false_iff]
  rcases answer_lookup_cases requests key kind arity with
    ⟨hget, heq⟩ | ⟨found, hget, ⟨hshape, heq⟩ | ⟨hshape, e, hkey, heq⟩⟩
  · rw [heq, hget]
    exact ⟨fun op => iff_of_false nofun nofun, iff_of_true rfl rfl, fun h => absurd rfl (h none)⟩
  · rw [heq, hget]
    refine ⟨fun op => ⟨fun h => ?_, fun h => ?_⟩, iff_of_false nofun nofun,
      fun h => absurd rfl (h (some found))⟩
    · obtain rfl := Option.some.inj (Answer.operator.inj h)
      exact ⟨rfl, hshape⟩
    · rw [h.1]
  · rw [heq, hget]
    refine ⟨fun op => iff_of_false nofun fun h => ?_, iff_of_false nofun nofun,
      fun _ => ⟨e, rfl, hkey, e.isFatal_diagnostic⟩⟩
    obtain rfl := Option.some.inj h.1
    exact hshape h.2

/-- A name is always found, and can be used. -/
lemma answer_uniqueName (requests : List Request) (base : String) :
    ∃ name, answer requests (.uniqueName base) = .name name ∧
      (Unused requests base → name = base) ∧
      (¬Unused requests base → ∃ n, name = numberedName base n ∧
        (2 ≤ n ∧ n ≤ requests.length + 2) ∧
        ∀ m, 2 ≤ m → m < n → ¬Unused requests (numberedName base m)) ∧
      Unused requests name ∧ ∀ op, op.name = name → answer requests (.register op) = .done := by
  have hrecords := records_after requests
  have hunused : Unused requests ((after requests).uniqueName base) :=
    unused_iff.2 (hrecords.filed.isTaken_uniqueName base)
  have hregister : ∀ op : Operator, op.name = (after requests).uniqueName base →
      answer requests (.register op) = .done := by
    intro op hop
    exact (register_unused (hop ▸ hunused)).1
  refine ⟨(after requests).uniqueName base, rfl, ?_, ?_, hunused, hregister⟩
  · intro hbase
    rcases hrecords.filed.uniqueName_cases base with ⟨-, heq⟩ | ⟨htaken, -⟩
    · exact heq
    · exact nomatch htaken.symm.trans (unused_iff.1 hbase)
  · intro hbase
    rcases hrecords.filed.uniqueName_cases base with
      ⟨hfree, -⟩ | ⟨-, n, heq, ⟨htwo, hle⟩, -, hleast⟩
    · exact absurd (unused_iff.2 hfree) hbase
    · have hsmall := hrecords.small
      refine ⟨n, heq, ⟨htwo, by omega⟩, fun m hm hlt hm' => ?_⟩
      exact nomatch (hleast m hm hlt).symm.trans (unused_iff.1 hm')

end

/-- Whatever a registry was asked before, it answers as it should. -/
theorem dependable_of_requests (requests : List Request) : Dependable requests := by
  have hrecords := records_after requests
  constructor
  · exact hrecords.admits
  · exact hrecords.filed.nodup
  · intro name op
    rw [answer_get_iff, hrecords.filed.get?_iff]
  · exact answer_contains
  · intro later
    obtain ⟨hfront, hgrows⟩ := after_keeps requests later
    refine ⟨hfront, fun name op h => ?_⟩
    exact answer_get_iff.2 (hgrows name op (answer_get_iff.1 h))
  · intro request hreserve hregister
    rw [after_snoc]
    cases request with
    | reserve name => exact absurd rfl (hreserve name)
    | register op => exact absurd rfl (hregister op)
    | lookup key kind arity => exact perform_lookup_fst _ key kind arity
    | get name => rfl
    | contains name => rfl
    | uniqueName base => rfl
  · exact fun op => register_unused
  · exact fun op => register_used
  · exact answer_lookup requests
  · exact answer_uniqueName requests

/-- A name that an operator has can still be reserved. The operator stays, and the numbers of
reserved names are passed over. -/
example :
    let requests : List Request := [.register (.conflictSet "r"), .reserve "r", .reserve "r_2"]
    answer requests (.uniqueName "r") = .name "r_3" ∧
      answer requests (.get "r") = .operator (some (.conflictSet "r")) := by
  decide +kernel

end Registry
end RuleFlow
