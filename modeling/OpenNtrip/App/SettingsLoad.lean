import OpenNtrip.App.Profiles

/-!
# Loading the settings

`load` repairs what it reads by `Settings::normalize`. The repair leaves the names of the profiles
alone, so the loaded settings name their profiles properly exactly if the file does
(`identified_iff`).
-/

namespace OpenNtrip

namespace Settings

/-- The names identify the profiles: they are distinct and not blank, and the active one is that of
exactly one profile. -/
structure Identified (s : Settings) : Prop where
  nonempty : s.profiles ≠ []
  distinct : (s.profiles.map Profile.name).Nodup
  present : ∀ p ∈ s.profiles, p.name.trim ≠ []
  active : (s.profiles.filter (·.name = s.activeProfile)).length = 1

/-- The profiles after the repair, before each of them is repaired. -/
def atLeastOne (s : Settings) : List Profile := if s.profiles = [] then [{}] else s.profiles

theorem at_least_one_ne_nil (s : Settings) : s.atLeastOne ≠ [] := by
  unfold atLeastOne
  split
  · simp
  · assumption

/-- The repair of a profile keeps its name. -/
theorem normalize_name (p : Profile) : p.normalize.name = p.name := by
  unfold Profile.normalize
  split
  · rfl
  · rfl

theorem normalize_names (s : Settings) :
    s.normalize.profiles.map Profile.name = s.atLeastOne.map Profile.name := by
  show (s.atLeastOne.map Profile.normalize).map Profile.name = _
  rw [List.map_map]
  exact List.map_congr_left fun p _ => normalize_name p

/-- The repair points to a profile that exists. -/
theorem normalize_active (s : Settings) :
    s.normalize.activeProfile ∈ s.normalize.profiles.map Profile.name := by
  rw [normalize_names]
  show (if s.atLeastOne.any (·.name = s.activeProfile) then s.activeProfile
    else (s.atLeastOne.head?.map Profile.name).getD s.activeProfile) ∈ _
  split
  · next hany =>
      obtain ⟨p, hp, hname⟩ := List.any_eq_true.mp hany
      exact List.mem_map.mpr ⟨p, hp, of_decide_eq_true hname⟩
  · obtain ⟨first, rest, hrest⟩ := List.exists_cons_of_ne_nil s.at_least_one_ne_nil
    rw [hrest]
    exact List.mem_cons_self

/-- A name of a list with distinct names is that of exactly one profile. -/
theorem filter_name_length {profiles : List Profile} {name : Text}
    (h : (profiles.map Profile.name).Nodup) (hmem : name ∈ profiles.map Profile.name) :
    (profiles.filter (·.name = name)).length = 1 := by
  have hcount := List.count_eq_one_of_mem h hmem
  rw [List.count, List.countP_map, List.countP_eq_length_filter] at hcount
  rw [← hcount]
  exact congrArg List.length (List.filter_congr fun p _ => (beq_eq_decide p.name name).symm)

/-- The loaded settings identify their profiles exactly if the names in the file are distinct and
not blank. -/
theorem identified_iff (s : Settings) :
    s.normalize.Identified ↔
      (s.profiles.map Profile.name).Nodup ∧ ∀ p ∈ s.profiles, p.name.trim ≠ [] := by
  have hpresent : (∀ p ∈ s.normalize.profiles, p.name.trim ≠ []) ↔
      ∀ p ∈ s.atLeastOne, p.name.trim ≠ [] := by
    show (∀ p ∈ s.atLeastOne.map Profile.normalize, _) ↔ _
    simp only [List.forall_mem_map, normalize_name]
  have hnonempty : s.normalize.profiles ≠ [] := by
    show s.atLeastOne.map Profile.normalize ≠ []
    simpa using s.at_least_one_ne_nil
  have hnormalize : s.normalize.Identified ↔
      (s.atLeastOne.map Profile.name).Nodup ∧ ∀ p ∈ s.atLeastOne, p.name.trim ≠ [] := by
    rw [← hpresent, ← normalize_names]
    constructor
    · exact fun h => ⟨h.distinct, h.present⟩
    · exact fun h => ⟨hnonempty, h.1, h.2, filter_name_length h.1 s.normalize_active⟩
  rw [hnormalize]
  by_cases hempty : s.profiles = []
  · -- The default profile is properly named.
    simp only [atLeastOne, hempty, if_true, List.map_nil, List.nodup_nil, List.not_mem_nil,
      false_implies, implies_true, and_self, iff_true]
    refine ⟨List.nodup_singleton _, fun p hp => ?_⟩
    obtain rfl := List.mem_singleton.mp hp
    decide
  · simp only [atLeastOne, hempty, if_false]

/-- Two profiles of one name are loaded as they are. -/
theorem duplicates_survive : ¬ ∀ s : Settings, s.normalize.Identified := by
  intro h
  have hloaded := (h { profiles := [{ name := "A".toList }, { name := "A".toList }] }).distinct
  rw [normalize_names] at hloaded
  revert hloaded
  decide

end Settings
end OpenNtrip
