import RuleFlow.Proofs.Network.Meaning

/-!
# Positions of a join

A join refers to the tuples of its sides by position. `Join.Fits` says what the four lists of
positions of a join have to do with each other and with the numbers of values on both sides,
and `fits_of_positions` that they fit when they were computed from variables.

The keys of a join, by which tuples are dealt out to its instances, follow from the lists.
`Join.KeysFit` says that the two keys name different positions of either side, and that two
tuples agree exactly when they have equal values at the keys (`Join.Fits.keysFit`).
-/

namespace RuleFlow

namespace Join

/-- The positions of the join fit sides whose tuples have `m` and `n` values. -/
structure Fits (j : Join) (m n : ℕ) : Prop where
  /-- Each position on the left is matched with one on the right or with none. -/
  length_matchLeft : j.matchLeft.length = m
  /-- Each position on the right is matched with one on the left or with none. -/
  length_matchRight : j.matchRight.length = n
  /-- What is matched from the left is matched from the right, and the other way round. -/
  matchLeft_iff : ∀ l r : ℕ, j.matchLeft[l]? = some (some r) ↔ j.matchRight[r]? = some (some l)
  /-- Positions on the left are matched with positions on the right. -/
  matchLeft_lt : ∀ l r : ℕ, j.matchLeft[l]? = some (some r) → r < n
  /-- Positions on the right are matched with positions on the left. -/
  matchRight_lt : ∀ r l : ℕ, j.matchRight[r]? = some (some l) → l < m
  /-- No position on the right is matched twice. -/
  matchLeft_inj : ∀ l l' r : ℕ, j.matchLeft[l]? = some (some r) → j.matchLeft[l']? = some (some r) →
    l = l'
  /-- No position on the left is matched twice. -/
  matchRight_inj : ∀ r r' l : ℕ, j.matchRight[r]? = some (some l) →
    j.matchRight[r']? = some (some l) → r = r'
  /-- Each position of the join has a place for a source on the left. -/
  length_templateLeft : j.templateLeft.length = j.vars.length
  /-- Each position of the join has a place for a source on the right. -/
  length_templateRight : j.templateRight.length = j.vars.length
  /-- Each position of the join has a source. -/
  exists_source : ∀ i < j.vars.length,
    (∃ l : ℕ, j.templateLeft[i]? = some (some l)) ∨ ∃ r : ℕ, j.templateRight[i]? = some (some r)
  /-- Sources on the left are positions on the left. -/
  templateLeft_lt : ∀ i l : ℕ, j.templateLeft[i]? = some (some l) → l < m
  /-- Sources on the right are positions on the right. -/
  templateRight_lt : ∀ i r : ℕ, j.templateRight[i]? = some (some r) → r < n
  /-- Each position on the left is the source of one position of the join. -/
  existsUnique_left : ∀ l < m, ∃! i : ℕ, j.templateLeft[i]? = some (some l)
  /-- Each position on the right is the source of one position of the join. -/
  existsUnique_right : ∀ r < n, ∃! i : ℕ, j.templateRight[i]? = some (some r)
  /-- A position of the join has two sources when these are matched. -/
  both_iff : ∀ l r : ℕ, (∃ i : ℕ, j.templateLeft[i]? = some (some l) ∧
    j.templateRight[i]? = some (some r)) ↔ j.matchLeft[l]? = some (some r)

/-- The keys of the join deal tuples of `m` and `n` values out so that those that agree meet. -/
structure KeysFit (j : Join) (m n : ℕ) : Prop where
  /-- The keys have as many positions. -/
  length_eq : j.leftKey.length = j.rightKey.length
  /-- No position is twice in the left key. -/
  nodup_left : j.leftKey.Nodup
  /-- No position is twice in the right key. -/
  nodup_right : j.rightKey.Nodup
  /-- The left key is one of positions on the left. -/
  left_lt : ∀ l ∈ j.leftKey, l < m
  /-- The right key is one of positions on the right. -/
  right_lt : ∀ r ∈ j.rightKey, r < n
  /-- Tuples have equal values at all matched positions when they have equal values at the keys. -/
  matched_iff : ∀ left right : List Term, left.length = m → right.length = n →
    ((∀ l r : ℕ, j.matchLeft[l]? = some (some r) → left[l]? = right[r]?) ↔
      j.leftKey.map (left[·]?) = j.rightKey.map (right[·]?))
  /-- The join puts two tuples together when they have equal values at the keys. -/
  agrees_iff : ∀ left right : List Term, left.length = m → right.length = n →
    (j.Agrees left right ↔ j.leftKey.map (left[·]?) = j.rightKey.map (right[·]?))

/-! ## Keys -/

lemma length_leftKey (j : Join) : j.leftKey.length = j.rightKey.length := by
  rw [leftKey, rightKey, List.length_map, List.length_map]

/-- No position is twice in the left key. -/
theorem nodup_leftKey (j : Join) : j.leftKey.Nodup := by
  -- the key is what is left of all positions in their order
  have hsub : j.leftKey.Sublist (j.matchLeft.zipIdx.map (·.2)) := by
    rw [leftKey, agreements]
    induction j.matchLeft.zipIdx with
    | nil => exact .slnil
    | cons p ps ih =>
      obtain ⟨found, l⟩ := p
      cases found with
      | none => exact ih.cons _
      | some r => exact ih.cons_cons l
  rw [List.zipIdx_map_snd] at hsub
  exact hsub.nodup List.nodup_range'

section
variable {j : Join} {m n : ℕ}

/-- No position is twice in the right key. -/
theorem Fits.nodup_rightKey (h : j.Fits m n) : j.rightKey.Nodup := by
  have hpairs : j.agreements.Nodup := j.nodup_leftKey.of_map
  refine hpairs.map_on ?_
  rintro ⟨l, r⟩ hp ⟨l', r'⟩ hp' heq
  obtain rfl : r = r' := heq
  rw [h.matchLeft_inj l l' r (mem_agreements.1 hp) (mem_agreements.1 hp')]

/-- The left key is one of positions on the left. -/
theorem Fits.lt_of_mem_leftKey (h : j.Fits m n) : ∀ l ∈ j.leftKey, l < m := by
  intro l hl
  obtain ⟨⟨l, r⟩, hp, rfl⟩ := List.mem_map.1 hl
  exact h.matchRight_lt r l ((h.matchLeft_iff l r).1 (mem_agreements.1 hp))

/-- The right key is one of positions on the right. -/
theorem Fits.lt_of_mem_rightKey (h : j.Fits m n) : ∀ r ∈ j.rightKey, r < n := by
  intro r hr
  obtain ⟨⟨l, r⟩, hp, rfl⟩ := List.mem_map.1 hr
  exact h.matchLeft_lt l r (mem_agreements.1 hp)

/-- Two tuples have equal values at matched positions when they have equal values at the keys. -/
lemma map_leftKey_eq_iff (j : Join) {α : Type} (left right : List α) :
    j.leftKey.map (left[·]?) = j.rightKey.map (right[·]?) ↔
      ∀ l r : ℕ, j.matchLeft[l]? = some (some r) → left[l]? = right[r]? := by
  rw [leftKey, rightKey, List.map_map, List.map_map, List.map_inj_left]
  constructor
  · intro h l r hmatch
    exact h (l, r) (mem_agreements.2 hmatch)
  · rintro h ⟨l, r⟩ hp
    exact h l r (mem_agreements.1 hp)

/-- Tuples of the right lengths agree when they have equal values at matched positions. -/
lemma Fits.agrees_iff (h : j.Fits m n) {left right : List Term} (hleft : left.length = m) :
    j.Agrees left right ↔
      ∀ l r : ℕ, j.matchLeft[l]? = some (some r) → left[l]? = right[r]? := by
  constructor
  · intro hagree l r hmatch
    obtain ⟨t, hl, hr⟩ := hagree (l, r) (mem_agreements.2 hmatch)
    rw [hl, hr]
  · rintro hequal ⟨l, r⟩ hp
    have hmatch := mem_agreements.1 hp
    have hlt : l < left.length :=
      hleft ▸ h.matchRight_lt r l ((h.matchLeft_iff l r).1 hmatch)
    have hl : left[l]? = some left[l] := List.getElem?_eq_getElem hlt
    exact ⟨left[l], hl, (hequal l r hmatch).symm.trans hl⟩

/-- The keys fit when the positions do. -/
theorem Fits.keysFit (h : j.Fits m n) : j.KeysFit m n where
  length_eq := length_leftKey j
  nodup_left := nodup_leftKey j
  nodup_right := h.nodup_rightKey
  left_lt := h.lt_of_mem_leftKey
  right_lt := h.lt_of_mem_rightKey
  matched_iff := fun left right _ _ => (map_leftKey_eq_iff j left right).symm
  agrees_iff := fun left right hleft _ => by rw [map_leftKey_eq_iff, h.agrees_iff hleft]

end

end Join

namespace Network

/-! ## Positions computed from variables -/

/-- Among different variables, the position of a variable is where it stands. -/
lemma findIdx?_eq_some_iff {vars : List Variable} (h : vars.Nodup) {v : Variable} {k : ℕ} :
    vars.findIdx? (· == v) = some k ↔ vars[k]? = some v := by
  constructor
  · intro hk
    obtain ⟨hlt, heq, -⟩ := List.findIdx?_eq_some_iff_getElem.1 hk
    rw [List.getElem?_eq_getElem hlt, eq_of_beq heq]
  · intro hk
    obtain ⟨hlt, rfl⟩ := List.getElem?_eq_some_iff.1 hk
    refine List.findIdx?_eq_some_iff_getElem.2 ⟨hlt, beq_self_eq_true _, fun i hi heq => ?_⟩
    have hik : i = k := h.getElem_inj_iff.1 (eq_of_beq heq)
    omega

/-- The positions of variables among different ones lead from where a variable stands to where
the same variable stands. -/
lemma getElem?_positions_iff {vars among : List Variable} (h : among.Nodup) {i k : ℕ} :
    (positions vars among)[i]? = some (some k) ↔
      ∃ v, vars[i]? = some v ∧ among[k]? = some v := by
  rw [positions, List.getElem?_map, Option.map_eq_some_iff]
  simp only [findIdx?_eq_some_iff h]

/-- A position that is among the computed ones stands for a variable of the other list. -/
lemma lt_of_getElem?_positions {vars among : List Variable} (h : among.Nodup) {i k : ℕ}
    (hi : (positions vars among)[i]? = some (some k)) : k < among.length := by
  obtain ⟨v, -, hk⟩ := (getElem?_positions_iff h).1 hi
  exact (List.getElem?_eq_some_iff.1 hk).1

/-- Different positions have different variables. -/
lemma positions_inj {vars among : List Variable} (hvars : vars.Nodup) (h : among.Nodup)
    {i i' k : ℕ} (hi : (positions vars among)[i]? = some (some k))
    (hi' : (positions vars among)[i']? = some (some k)) : i = i' := by
  obtain ⟨v, hv, hk⟩ := (getElem?_positions_iff h).1 hi
  obtain ⟨w, hw, hk'⟩ := (getElem?_positions_iff h).1 hi'
  obtain rfl : v = w := Option.some.inj (hk.symm.trans hk')
  obtain ⟨hlt, -⟩ := List.getElem?_eq_some_iff.1 hv
  exact (List.getElem?_inj hlt hvars).1 (hv.trans hw.symm)

/-- Each variable that stands in both lists has one position that leads to it. -/
lemma existsUnique_positions {vars among : List Variable} (hvars : vars.Nodup) (h : among.Nodup)
    {k : ℕ} (hk : k < among.length) (hmem : among[k] ∈ vars) :
    ∃! i : ℕ, (positions vars among)[i]? = some (some k) := by
  obtain ⟨i, hi⟩ := List.mem_iff_getElem?.1 hmem
  have hpos : (positions vars among)[i]? = some (some k) :=
    (getElem?_positions_iff h).2 ⟨_, hi, List.getElem?_eq_getElem hk⟩
  exact ⟨i, hpos, fun i' hi' => positions_inj hvars h hi' hpos⟩

/-- The positions of a join fit when they were computed from the variables of its sides and from
the variables of both sides together. -/
theorem fits_of_positions {j : Join} {left right order : List Variable} (hleft : left.Nodup)
    (hright : right.Nodup) (horder : order.Nodup)
    (hmem : ∀ v, v ∈ order ↔ v ∈ left ∨ v ∈ right) (hvars : j.vars.length = order.length)
    (hml : j.matchLeft = positions left right) (hmr : j.matchRight = positions right left)
    (htl : j.templateLeft = positions order left)
    (htr : j.templateRight = positions order right) : j.Fits left.length right.length := by
  have hlength : ∀ vars among, (positions vars among).length = vars.length :=
    fun vars among => List.length_map _
  constructor
  case length_matchLeft => rw [hml, hlength]
  case length_matchRight => rw [hmr, hlength]
  case matchLeft_iff =>
    intro l r
    rw [hml, hmr, getElem?_positions_iff hright, getElem?_positions_iff hleft]
    simp only [and_comm]
  case matchLeft_lt => exact fun l r h => lt_of_getElem?_positions hright (hml ▸ h)
  case matchRight_lt => exact fun r l h => lt_of_getElem?_positions hleft (hmr ▸ h)
  case matchLeft_inj =>
    exact fun l l' r h h' => positions_inj hleft hright (hml ▸ h) (hml ▸ h')
  case matchRight_inj =>
    exact fun r r' l h h' => positions_inj hright hleft (hmr ▸ h) (hmr ▸ h')
  case length_templateLeft => rw [htl, hlength, hvars]
  case length_templateRight => rw [htr, hlength, hvars]
  case exists_source =>
    intro i hi
    rw [hvars] at hi
    have hv : order[i]? = some order[i] := List.getElem?_eq_getElem hi
    rw [htl, htr]
    rcases (hmem order[i]).1 (List.getElem_mem hi) with hside | hside
    · obtain ⟨l, hl⟩ := List.mem_iff_getElem?.1 hside
      exact .inl ⟨l, (getElem?_positions_iff hleft).2 ⟨_, hv, hl⟩⟩
    · obtain ⟨r, hr⟩ := List.mem_iff_getElem?.1 hside
      exact .inr ⟨r, (getElem?_positions_iff hright).2 ⟨_, hv, hr⟩⟩
  case templateLeft_lt => exact fun i l h => lt_of_getElem?_positions hleft (htl ▸ h)
  case templateRight_lt => exact fun i r h => lt_of_getElem?_positions hright (htr ▸ h)
  case existsUnique_left =>
    intro l hl
    rw [htl]
    exact existsUnique_positions horder hleft hl ((hmem _).2 (.inl (List.getElem_mem hl)))
  case existsUnique_right =>
    intro r hr
    rw [htr]
    exact existsUnique_positions horder hright hr ((hmem _).2 (.inr (List.getElem_mem hr)))
  case both_iff =>
    intro l r
    rw [htl, htr, hml, getElem?_positions_iff hright]
    simp only [getElem?_positions_iff hleft, getElem?_positions_iff hright]
    constructor
    · rintro ⟨i, ⟨v, hi, hl⟩, w, hi', hr⟩
      obtain rfl : v = w := Option.some.inj (hi.symm.trans hi')
      exact ⟨v, hl, hr⟩
    · rintro ⟨v, hl, hr⟩
      have hv : v ∈ order := (hmem v).2 (.inl (List.mem_of_getElem? hl))
      obtain ⟨i, hi⟩ := List.mem_iff_getElem?.1 hv
      exact ⟨i, ⟨v, hi, hl⟩, v, hi, hr⟩

end Network
end RuleFlow
