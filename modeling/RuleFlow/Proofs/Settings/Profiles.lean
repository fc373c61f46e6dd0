import RuleFlow.Proofs.Settings.Precedence

/-!
# Which profile a name means

A configuration declares profiles under names of its own, and some names mean a profile that is
built in: four names, each in small or capital letters. All declared profiles are listed as
available (`mem_availableProfiles`), but a built-in meaning goes before a declaration. So a
declared profile is applied, whatever the settings are, just when its name has no built-in
meaning, and a name without any meaning is refused before anything is changed
(`declared_profile_applied_iff`). Apart from `local` and `cluster` the names `dev` and `prod` and
other spellings of the four are concerned (`declared_profile_not_applied_dev`).
-/

namespace RuleFlow

namespace Profile

/-- The names, in small letters, of the profiles that are built in. -/
def builtInNames : List String := ["local", "dev", "cluster", "prod"]

/-- A name has no built-in meaning when it is none of the names, in whatever letters. -/
lemma builtIn?_eq_none_iff (name : String) :
    builtIn? name = none ↔ Text.lowerAscii name ∉ builtInNames := by
  unfold builtIn?
  split
  · next h => exact iff_of_false nofun fun hnot => hnot (by rw [h]; decide)
  · next h => exact iff_of_false nofun fun hnot => hnot (by rw [h]; decide)
  · next h => exact iff_of_false nofun fun hnot => hnot (by rw [h]; decide)
  · next h => exact iff_of_false nofun fun hnot => hnot (by rw [h]; decide)
  · next hlocal hdev hcluster hprod =>
    refine iff_of_true rfl ?_
    simp only [builtInNames, List.mem_cons, List.not_mem_nil, not_or, or_false]
    exact ⟨hlocal, hdev, hcluster, hprod⟩

/-- A name with a built-in meaning means one of the two profiles. -/
lemma single_or_cluster_of_builtIn? {name : String} {p : Profile} (h : builtIn? name = some p) :
    p = single ∨ p = cluster := by
  unfold builtIn? at h
  split at h
  · exact .inl (Option.some.inj h).symm
  · exact .inl (Option.some.inj h).symm
  · exact .inr (Option.some.inj h).symm
  · exact .inr (Option.some.inj h).symm
  · exact nomatch h

end Profile

namespace Settings

/-- Every declared profile is listed as available, with what it says of itself. -/
lemma mem_availableProfiles {s : Settings} {name : String} {p : Profile}
    (h : s.profiles.find? name = some p) : (name, p.inWords) ∈ s.availableProfiles := by
  obtain ⟨before, behind, hentries, -⟩ := List.lookup_eq_some_iff.1 h
  have hmem : (name, p) ∈ s.profiles.entries := by
    rw [hentries]
    exact List.mem_append_right before List.mem_cons_self
  refine List.mem_append_right _ (List.mem_mergeSort.2 ?_)
  exact List.mem_map_of_mem (f := fun entry : String × Profile => (entry.1, entry.2.inWords)) hmem

/-- The only error is that the name means nothing. -/
lemma applyProfile_eq_error_iff (s : Settings) (name : String) (e : SettingsError) :
    s.applyProfile name = .error e ↔
      e = .unknownProfile name ∧ Profile.builtIn? name = none ∧ s.profiles.find? name = none := by
  have hnone : s.profileOf? name = none ↔
      Profile.builtIn? name = none ∧ s.profiles.find? name = none := Option.or_eq_none_iff
  rw [← hnone, applyProfile_eq]
  cases hp : s.profileOf? name with
  | none => exact ⟨fun h => ⟨(Except.error.inj h).symm, rfl⟩, fun h => congrArg _ h.1.symm⟩
  | some p => exact iff_of_false nofun fun h => nomatch h.2

/-- The settings at hand after the profile of a name was entered, successfully or not. -/
def afterProfile (s : Settings) (name : String) : Settings := ((enterProfile name).run.run s).2

/-- When a profile is applied, the settings at hand are those that come out. -/
lemma afterProfile_of_ok {s t : Settings} {name : String} (h : s.applyProfile name = .ok t) :
    s.afterProfile name = t := by
  rw [applyProfile_eq] at h
  rw [afterProfile, run_enterProfile]
  cases hp : s.profileOf? name with
  | none =>
    rw [hp] at h
    exact nomatch h
  | some p =>
    rw [hp] at h
    exact Except.ok.inj h

/-- When a profile is refused, none of the settings was changed. -/
lemma afterProfile_of_error {s : Settings} {name : String} {e : SettingsError}
    (h : s.applyProfile name = .error e) : s.afterProfile name = s := by
  rw [applyProfile_eq] at h
  rw [afterProfile, run_enterProfile]
  cases hp : s.profileOf? name with
  | none => rfl
  | some p =>
    rw [hp] at h
    exact nomatch h

/-- A declared profile is applied when its name has no built-in meaning. -/
lemma applyProfile_of_declared {s : Settings} {name : String} {p : Profile}
    (hname : Profile.builtIn? name = none) (h : s.profiles.find? name = some p) :
    ∃ t, s.applyProfile name = .ok t ∧ s.afterProfile name = t ∧
      Decided [Layer.ofProfile p] s t := by
  have hdecided : Decided [Layer.ofProfile p] s ((Layer.ofProfile p).laidOver s) :=
    (decided_nil s).cons _
  have hok := (applyProfile_eq_ok_iff s _ name).2 ⟨p, .custom hname h, hdecided⟩
  exact ⟨_, hok, afterProfile_of_ok hok, hdecided⟩

/-- Under a name with a built-in meaning a profile can be declared that is not applied. -/
lemma exists_declared_not_applied {name : String} {q : Profile}
    (hname : Profile.builtIn? name = some q) :
    ∃ (s : Settings) (p : Profile), s.profiles.find? name = some p ∧
      ∀ t, s.applyProfile name = .ok t → ¬Decided [Layer.ofProfile p] s t := by
  let p : Profile := { workers := some 0 }
  let s : Settings := { profiles := Table.empty.insert name p }
  refine ⟨s, p, Table.find?_insert_self .empty name p, fun t hok hdecided => ?_⟩
  obtain ⟨q', hchosen, hdecided'⟩ := (applyProfile_eq_ok_iff s t name).1 hok
  have hworkers : t.workers = 0 := hdecided.workers.unique (.set rfl)
  -- both built-in profiles have workers
  have hpositive : ∃ n, 0 < n ∧ t.workers = n := by
    cases hchosen with
    | builtIn h =>
      rcases Profile.single_or_cluster_of_builtIn? h with rfl | rfl
      · exact ⟨1, by decide, hdecided'.workers.unique (.set rfl)⟩
      · exact ⟨4, by decide, hdecided'.workers.unique (.set rfl)⟩
    | custom hnone _ => exact nomatch hname.symm.trans hnone
  obtain ⟨n, hpos, hn⟩ := hpositive
  omega

/-- What is declared under a name is applied, in all settings, just when the name has no built-in
meaning. A name is refused just when it has no meaning at all, and then the settings stay. -/
theorem declared_profile_applied_iff (name : String) :
    (Profile.builtIn? name = none ↔ Text.lowerAscii name ∉ Profile.builtInNames) ∧
    (Profile.builtIn? name = none ↔ ∀ (s : Settings) (p : Profile),
      s.profiles.find? name = some p → ∃ t, s.applyProfile name = .ok t ∧
        s.afterProfile name = t ∧ Decided [Layer.ofProfile p] s t) ∧
    ∀ s : Settings,
      (∀ p, s.profiles.find? name = some p → (name, p.inWords) ∈ s.availableProfiles) ∧
      ((∃ e, s.applyProfile name = .error e) ↔
        s.profiles.find? name = none ∧ Profile.builtIn? name = none) ∧
      ∀ e, s.applyProfile name = .error e →
        e = .unknownProfile name ∧ s.afterProfile name = s := by
  refine ⟨Profile.builtIn?_eq_none_iff name, ⟨?_, ?_⟩, fun s => ⟨?_, ?_, ?_⟩⟩
  · exact fun hname s p h => applyProfile_of_declared hname h
  · intro happlied
    cases hname : Profile.builtIn? name with
    | none => rfl
    | some q =>
      obtain ⟨s, p, hdeclared, hnot⟩ := exists_declared_not_applied hname
      obtain ⟨t, hok, -, hdecided⟩ := happlied s p hdeclared
      exact absurd hdecided (hnot t hok)
  · exact fun p h => mem_availableProfiles h
  · constructor
    · rintro ⟨e, he⟩
      exact ((applyProfile_eq_error_iff s name e).1 he).2.symm
    · intro h
      exact ⟨_, (applyProfile_eq_error_iff s name _).2 ⟨rfl, h.symm⟩⟩
  · intro e he
    exact ⟨((applyProfile_eq_error_iff s name e).1 he).1, afterProfile_of_error he⟩

/-- A profile declared as `dev` is listed, but the profile of a single machine is applied. -/
theorem declared_profile_not_applied_dev :
    let p : Profile := { workers := some 8, parallelism := some 3 }
    let s : Settings := { profiles := Table.ofList [("dev", p)] }
    ("dev" ≠ "local" ∧ "dev" ≠ "cluster") ∧ s.profiles.find? "dev" = some p ∧
      ("dev", "Custom profile") ∈ s.availableProfiles ∧
      s.applyProfile "dev" = .ok (s.withProfile .single) ∧
      ¬∃ t, s.applyProfile "dev" = .ok t ∧ Decided [Layer.ofProfile p] s t := by
  intro p s
  have hdeclared : s.profiles.find? "dev" = some p := by decide +kernel
  have hmeaning : s.profileOf? "dev" = some .single := by decide +kernel
  have hok : s.applyProfile "dev" = .ok (s.withProfile .single) := by rw [applyProfile_eq, hmeaning]
  refine ⟨by decide, hdeclared, mem_availableProfiles hdeclared, hok, ?_⟩
  rintro ⟨t, hok', hdecided⟩
  have hworkers : t.workers = 8 := hdecided.workers.unique (.set rfl)
  obtain rfl := Except.ok.inj (hok.symm.trans hok')
  exact absurd hworkers (by decide)

end Settings
end RuleFlow
