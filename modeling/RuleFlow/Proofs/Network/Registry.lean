import Mathlib.Data.List.Perm.Subperm
import RuleFlow.Network.Registry
import RuleFlow.Proofs.Canonical.InOrder

/-!
# How a registry grows

A registry only grows: registering adds one operator at the end, under a name that was free
(`register_spec`), and adopting either does the same or finds an operator of the name, the
kind and the number of variables (`adopt_cases`). So operators are under their own names and no
name is given twice (`Filed`), no reserved one at all when names are reserved first (`Tidy`), and
the name that `uniqueName` finds can always be registered (`Filed.isTaken_uniqueName`).
-/

namespace RuleFlow

namespace Registry

/-- The registry has the operator under its name. -/
def Holds (r : Registry) (op : Operator) : Prop := r.get? op.name = some op

/-- Whatever was there is there still. -/
def Grows (r r' : Registry) : Prop := ∀ name op, r.get? name = some op → r'.get? name = some op

theorem Grows.refl (r : Registry) : Grows r r := fun _ _ h => h

theorem Grows.trans {r r' r'' : Registry} (h : Grows r r') (h' : Grows r' r'') : Grows r r'' :=
  fun name op hop => h' name op (h name op hop)

theorem Grows.holds {r r' : Registry} (h : Grows r r') {op : Operator} (hop : r.Holds op) :
    r'.Holds op :=
  h _ op hop

section
variable {r r' : Registry} {op : Operator}

/-! ## Registering -/

/-- A name is free when no operator has it and it is not reserved. -/
lemma isTaken_eq_false_iff {name : String} :
    r.isTaken name = false ↔ r.get? name = none ∧ name ∉ r.reserved := by
  simp [isTaken, contains, Table.contains, get?]

/-- Registering adds one operator under a new name. -/
lemma register_spec (h : r.register op = .ok r') :
    r'.Holds op ∧ (∀ name, name ≠ op.name → r'.get? name = r.get? name) ∧ Grows r r' ∧
    r'.toList = r.toList ++ [op] := by
  unfold register at h
  split at h
  · exact nomatch h
  · next hnew =>
    split at h
    · exact nomatch h
    · obtain rfl := Except.ok.inj h
      have hnone : r.get? op.name = none := by
        simpa [contains, Table.contains, get?] using hnew
      have hself : ({ r with operators := r.operators.insert op.name op } : Registry).get? op.name =
          some op := by
        rw [get?, Table.find?_insert_self]
      have hother : ∀ name, name ≠ op.name →
          ({ r with operators := r.operators.insert op.name op } : Registry).get? name =
            r.get? name := by
        intro name hne
        rw [get?, get?, Table.find?_insert_of_ne _ op hne]
      refine ⟨hself, hother, fun name op' hop' => ?_, ?_⟩
      · have hne : name ≠ op.name := by
          rintro rfl
          rw [hnone] at hop'
          exact nomatch hop'
        rw [hother name hne, hop']
      · rw [toList, toList, Table.values_insert_of_new op hnone]

/-- An operator can be registered when its name is not taken. -/
theorem exists_register_iff : (∃ r', r.register op = .ok r') ↔ r.isTaken op.name = false := by
  unfold register
  split
  · next hnew => simp [isTaken, hnew]
  · next hnew =>
    split
    · next hres => simp [isTaken, hres]
    · next hres => simp [isTaken, hnew, hres]

/-- Registering reserves nothing. -/
lemma reserved_register (h : r.register op = .ok r') : r'.reserved = r.reserved := by
  unfold register at h
  split at h
  · exact nomatch h
  · split at h
    · exact nomatch h
    · obtain rfl := Except.ok.inj h
      rfl

/-! ## Adopting -/

/-- An operator is adopted by registering it, or because one of its name, its kind and its
number of variables is there. -/
theorem adopt_cases (h : r.adopt op = .ok r') :
    (r.get? op.name = none ∧ r.register op = .ok r') ∨
    (r' = r ∧ ∃ found, r.get? op.name = some found ∧ found.kind = op.kind ∧
      found.arity = op.arity) := by
  unfold adopt lookup at h
  cases hget : r.get? op.name with
  | none =>
    rw [hget] at h
    exact .inl ⟨rfl, h⟩
  | some found =>
    rw [hget] at h
    simp only at h
    split at h
    · exact nomatch h
    · next hkind =>
      split at h
      · exact nomatch h
      · next harity =>
        obtain rfl := Except.ok.inj h
        exact .inr ⟨rfl, found, rfl, not_not.1 hkind, not_not.1 harity⟩

/-- An operator can be adopted when its name is free. -/
lemma adopt_of_none (h : r.get? op.name = none) : r.adopt op = r.register op := by
  unfold adopt lookup
  rw [h]
  rfl

/-- An operator can be adopted when one of its name, its kind and its number of variables is
there. -/
lemma adopt_of_some {found : Operator} (h : r.get? op.name = some found)
    (hkind : found.kind = op.kind) (harity : found.arity = op.arity) : r.adopt op = .ok r := by
  unfold adopt lookup
  rw [h]
  simp only [hkind, harity, ne_eq, not_true_eq_false, if_false]
  rfl

/-! ## Names -/

/-- Operators are under their own names, and no name is given twice. -/
structure Filed (r : Registry) : Prop where
  /-- Under a name is the operator of that name. -/
  get?_iff : ∀ name op, r.get? name = some op ↔ op ∈ r.toList ∧ op.name = name
  /-- No name is given twice. -/
  nodup : (r.toList.map Operator.name).Nodup

/-- The registry knows which names its operators have. -/
lemma Filed.contains_iff (hr : r.Filed) {name : String} :
    r.contains name = true ↔ name ∈ r.toList.map Operator.name := by
  have hcontains : r.contains name = (r.get? name).isSome := rfl
  rw [hcontains, Option.isSome_iff_exists, List.mem_map]
  exact exists_congr (hr.get?_iff name)

/-- A name is free when no operator has it and it is not reserved. -/
theorem Filed.isTaken_iff (hr : r.Filed) {name : String} :
    r.isTaken name = true ↔ name ∈ r.toList.map Operator.name ++ r.reserved := by
  rw [isTaken, Bool.or_eq_true, decide_eq_true_iff, hr.contains_iff, List.mem_append]

/-- An operator that is registered has a name that was free. -/
lemma Filed.of_register (hr : r.Filed) (h : r.register op = .ok r') :
    op.name ∉ r.toList.map Operator.name ∧ op.name ∉ r.reserved := by
  have hfree : r.isTaken op.name = false := exists_register_iff.1 ⟨r', h⟩
  rwa [Bool.eq_false_iff, Ne, hr.isTaken_iff, List.mem_append, not_or] at hfree

/-- Registering an operator keeps the registry filed. -/
theorem Filed.register (hr : r.Filed) (h : r.register op = .ok r') : r'.Filed := by
  obtain ⟨hself, hother, -, hlist⟩ := register_spec h
  obtain ⟨hnew, -⟩ := hr.of_register h
  refine ⟨fun name op' => ?_, ?_⟩
  · rw [hlist, List.mem_append, List.mem_singleton]
    by_cases hname : name = op.name
    · subst hname
      rw [show r'.get? op.name = some op from hself, Option.some.injEq]
      constructor
      · rintro rfl
        exact ⟨.inr rfl, rfl⟩
      · rintro ⟨hold | rfl, heq⟩
        · exact absurd (heq ▸ List.mem_map_of_mem hold) hnew
        · rfl
    · rw [hother name hname, hr.get?_iff]
      constructor
      · rintro ⟨hold, heq⟩
        exact ⟨.inl hold, heq⟩
      · rintro ⟨hold | rfl, heq⟩
        · exact ⟨hold, heq⟩
        · exact absurd heq.symm hname
  · rw [hlist, List.map_append, List.map_singleton]
    exact List.concat_eq_append ▸ hr.nodup.concat hnew

/-- Operators are under their own names, no name is given twice, and no reserved one. -/
structure Tidy (r : Registry) : Prop where
  /-- Under a name is the operator of that name. -/
  get?_iff : ∀ name op, r.get? name = some op ↔ op ∈ r.toList ∧ op.name = name
  /-- No name is given twice. -/
  nodup : (r.toList.map Operator.name).Nodup
  /-- No reserved name is given. -/
  unreserved : ∀ op ∈ r.toList, op.name ∉ r.reserved

/-- A tidy registry is filed. -/
lemma Tidy.filed (hr : r.Tidy) : r.Filed := ⟨hr.get?_iff, hr.nodup⟩

theorem Tidy.register (hr : r.Tidy) (h : r.register op = .ok r') : r'.Tidy := by
  have hfiled := hr.filed.register h
  refine ⟨hfiled.get?_iff, hfiled.nodup, ?_⟩
  rw [(register_spec h).2.2.2, reserved_register h]
  exact List.forall_mem_append.2
    ⟨hr.unreserved, List.forall_mem_singleton.2 (hr.filed.of_register h).2⟩

/-- A name can be reserved before there are operators. -/
theorem tidy_reserve_empty (name : String) : (empty.reserve name).Tidy where
  get?_iff := by simp [empty, reserve, get?, toList, Table.find?, Table.values]
  nodup := List.nodup_nil
  unreserved := fun _ hop => absurd hop List.not_mem_nil

lemma numberedName_injective (base : String) : Function.Injective (numberedName base) := by
  intro m n h
  rw [numberedName, numberedName, String.append_right_inj] at h
  exact Canonical.toString_injective h

/-- The name that is found begins with the one that is wanted. -/
lemma exists_uniqueName_eq (r : Registry) (base : String) : ∃ s, r.uniqueName base = base ++ s := by
  unfold uniqueName
  split
  · let candidates :=
      (List.range' 2 (r.size + r.reserved.length + 1)).map (numberedName base)
    show ∃ s, (candidates.find? fun name => !r.isTaken name).getD base = base ++ s
    cases hfind : candidates.find? fun name => !r.isTaken name with
    | some name =>
      obtain ⟨n, -, rfl⟩ := List.mem_map.1 (List.mem_of_find?_eq_some hfind)
      exact ⟨"_" ++ toString n, String.append_assoc⟩
    | none => exact ⟨"", String.append_empty.symm⟩
  · exact ⟨"", String.append_empty.symm⟩

/-- The name that is found is the wanted one when that is free, and else it has the least number
that makes it free. -/
theorem Filed.uniqueName_cases (hr : r.Filed) (base : String) :
    (r.isTaken base = false ∧ r.uniqueName base = base) ∨
    r.isTaken base = true ∧ ∃ n, r.uniqueName base = numberedName base n ∧
      (2 ≤ n ∧ n ≤ r.size + r.reserved.length + 2) ∧
      r.isTaken (numberedName base n) = false ∧
      ∀ m, 2 ≤ m → m < n → r.isTaken (numberedName base m) = true := by
  unfold uniqueName
  split
  · next hbase =>
    refine .inr ⟨hbase, ?_⟩
    let numbers := List.range' 2 (r.size + r.reserved.length + 1)
    let isFree := fun name => !r.isTaken name
    show ∃ n, ((numbers.map (numberedName base)).find? isFree).getD base = numberedName base n ∧ _
    rw [List.find?_map]
    cases hfind : numbers.find? (isFree ∘ numberedName base) with
    | some n =>
      obtain ⟨hn, hmem, hleast⟩ := List.find?_range'_eq_some.1 hfind
      rw [List.mem_range'_1] at hmem
      refine ⟨n, rfl, ⟨hmem.1, by omega⟩, by simpa [isFree] using hn, fun m hm hlt => ?_⟩
      simpa [isFree] using hleast m hm hlt
    | none =>
      -- there are more numbers than names in use
      have hsub : numbers.map (numberedName base) ⊆ r.toList.map Operator.name ++ r.reserved := by
        intro name hname
        obtain ⟨n, hn, rfl⟩ := List.mem_map.1 hname
        have htaken := List.find?_eq_none.1 hfind n hn
        exact hr.isTaken_iff.1 (by simpa [isFree] using htaken)
      have hnodup : (numbers.map (numberedName base)).Nodup :=
        List.Nodup.map (numberedName_injective base) List.nodup_range'
      have hle := (hnodup.subperm hsub).length_le
      have hsize : r.toList.length = r.size := List.length_map _
      simp only [numbers, List.length_map, List.length_range', List.length_append, hsize] at hle
      omega
  · next hfree => exact .inl ⟨Bool.eq_false_iff.2 hfree, rfl⟩

/-- The name that is found can be registered. -/
theorem Filed.isTaken_uniqueName (hr : r.Filed) (base : String) :
    r.isTaken (r.uniqueName base) = false := by
  rcases hr.uniqueName_cases base with ⟨hfree, heq⟩ | ⟨-, n, heq, -, hfree, -⟩
  · rwa [heq]
  · rwa [heq]

end

/-! ## One after another -/

lemma bind_eq_ok {α β ε : Type} {x : Except ε α} {f : α → Except ε β} {b : β}
    (h : x >>= f = .ok b) : ∃ a, x = .ok a ∧ f a = .ok b := by
  cases x with
  | error e => exact nomatch h
  | ok a => exact ⟨a, rfl, h⟩

/-- A run over one more entry is a run and then one more step. -/
lemma foldlM_snoc {α β ε : Type} {f : β → α → Except ε β} {as : List α} {a : α} {b b' : β}
    (h : (as ++ [a]).foldlM f b = .ok b') :
    ∃ mid, as.foldlM f b = .ok mid ∧ f mid a = .ok b' := by
  rw [List.foldlM_append] at h
  obtain ⟨mid, hmid, h⟩ := bind_eq_ok h
  rw [List.foldlM_cons] at h
  obtain ⟨last, hlast, hnil⟩ := bind_eq_ok h
  obtain rfl := Except.ok.inj hnil
  exact ⟨mid, hmid, hlast⟩

/-- What every step keeps holds in the end. -/
lemma foldlM_invariant {α β ε : Type} {f : β → α → Except ε β} {as : List α} {P : β → Prop}
    (step : ∀ a ∈ as, ∀ b b', P b → f b a = .ok b' → P b') {b b' : β} (hb : P b)
    (h : as.foldlM f b = .ok b') : P b' := by
  induction as using List.reverseRecOn generalizing b' with
  | nil => exact Except.ok.inj h ▸ hb
  | append_singleton as a ih =>
    obtain ⟨mid, hmid, hlast⟩ := foldlM_snoc h
    have hP := ih (fun a' ha' => step a' (List.mem_append_left _ ha')) hmid
    exact step a (List.mem_append_right _ (List.mem_singleton.2 rfl)) mid b' hP hlast

end Registry
end RuleFlow
