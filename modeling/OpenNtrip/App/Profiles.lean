import OpenNtrip.App.Settings

/-!
# Profile operations

`profiles.rs`: the check of a name, the search for a free one and the operations on the list of
profiles. An operation that the code carries out in place returns the settings it leaves behind.
-/

namespace OpenNtrip

/-- Why a typed profile name cannot be used as it is. -/
inductive NameProblem where
  | blank
  | taken
  | activeWhileConnected
  deriving DecidableEq, Repr

namespace Settings

/-- Whether a profile other than the one at `skip` has the name. -/
def taken (s : Settings) (skip : Option Nat) (name : Text) : Bool :=
  s.profiles.zipIdx.any fun (p, j) => some j ≠ skip && p.name = name

theorem taken_iff {s : Settings} {skip : Option Nat} {name : Text} :
    s.taken skip name = true ↔
      ∃ j p, s.profiles[j]? = some p ∧ some j ≠ skip ∧ p.name = name := by
  rw [taken, List.any_eq_true]
  constructor
  · rintro ⟨⟨p, j⟩, hmem, h⟩
    rw [List.mem_zipIdx_iff_getElem?] at hmem
    simp only [ne_eq, decide_not, Bool.and_eq_true, Bool.not_eq_true', decide_eq_false_iff_not,
      decide_eq_true_eq] at h
    exact ⟨j, p, hmem, h⟩
  · rintro ⟨j, p, hget, hj, hname⟩
    exact ⟨(p, j), List.mem_zipIdx_iff_getElem?.mpr hget, by simp [hj, hname]⟩

/-- A taken name is a name of the list. -/
theorem mem_names_of_taken {s : Settings} {skip : Option Nat} {name : Text}
    (h : s.taken skip name = true) : name ∈ s.profiles.map Profile.name := by
  obtain ⟨j, p, hget, -, hname⟩ := taken_iff.mp h
  exact List.mem_map.mpr ⟨p, List.mem_of_getElem? hget, hname⟩

/-- Without a profile to skip, a name is taken exactly if it is one of the list. -/
theorem taken_none_iff {s : Settings} {name : Text} :
    s.taken none name = true ↔ name ∈ s.profiles.map Profile.name := by
  refine ⟨mem_names_of_taken, fun h => ?_⟩
  obtain ⟨p, hp, hname⟩ := List.mem_map.mp h
  obtain ⟨j, hget⟩ := List.mem_iff_getElem?.mp hp
  exact taken_iff.mpr ⟨j, p, hget, (by simp), hname⟩

end Settings

/-! ## Names -/

/-- `format!("{desired} {k}")`. -/
def suffixed (desired : Text) (k : Nat) : Text := desired ++ ' ' :: decimalText k

/-- The first of `count` suffixed names from `k` on that is not taken. -/
def firstFree (taken : Text → Bool) (desired : Text) : Nat → Nat → Option Text
  | 0, _ => none
  | count + 1, k =>
    if taken (suffixed desired k) then firstFree taken desired count (k + 1)
    else some (suffixed desired k)

/-- The suffixes that `2u32..` yields before it overflows. -/
def SUFFIXES : Nat := 2 ^ 32 - 3

/-- `unique_name`. It panics, at `none`, once the suffixes run out. -/
def uniqueName (settings : Settings) (desired : Text) (skip : Option Nat) : Option Text :=
  let desired := if desired.trim = [] then "Profile".toList else desired.trim
  if settings.taken skip desired then firstFree (settings.taken skip) desired SUFFIXES 2
  else some desired

/-- `check_name`. -/
def checkName (settings : Settings) (skip : Option Nat) (name : Text) :
    Except NameProblem Text :=
  if name.trim = [] then .error .blank
  else if settings.taken skip name.trim then .error .taken
  else .ok name.trim

theorem check_name_ok {settings : Settings} {skip : Option Nat} {name stored : Text}
    (h : checkName settings skip name = .ok stored) :
    stored = name.trim ∧ stored ≠ [] ∧ settings.taken skip stored = false := by
  unfold checkName at h
  split at h
  · simp at h
  · next hblank =>
      split at h
      · simp at h
      · next htaken =>
          obtain rfl := Except.ok.inj h
          exact ⟨rfl, hblank, by simpa using htaken⟩

/-- A name that is accepted for a new profile is proper and free. -/
theorem check_name_new {settings : Settings} {name stored : Text}
    (h : checkName settings none name = .ok stored) :
    stored.Trimmed ∧ stored ≠ [] ∧ stored ∉ settings.profiles.map Profile.name := by
  obtain ⟨rfl, hpresent, hfree⟩ := check_name_ok h
  refine ⟨Text.trim_trimmed name, hpresent, fun hmem => ?_⟩
  rw [Settings.taken_none_iff.mpr hmem] at hfree
  simp at hfree

theorem suffixed_injective {desired : Text} {j k : Nat}
    (h : suffixed desired j = suffixed desired k) : j = k :=
  decimal_text_injective (List.cons.inj (List.append_cancel_left h)).2

theorem suffixed_ne (desired : Text) (k : Nat) : suffixed desired k ≠ desired := by
  intro h
  have := congrArg List.length h
  rw [suffixed, List.length_append, List.length_cons] at this
  omega

/-- A suffix keeps a name trimmed. -/
theorem suffixed_trimmed {desired : Text} (h : desired.Trimmed) (h0 : desired ≠ []) (k : Nat) :
    (suffixed desired k).Trimmed := by
  refine h.append h0 (by simp) fun c hc => ?_
  have hdigits := decimal_text_ne_nil k
  rw [List.getLast?_cons, List.getLast?_eq_some_getLast hdigits] at hc
  obtain rfl := Option.some.inj hc
  exact is_whitespace_of_digit (decimal_text_digit (List.getLast_mem hdigits))

/-- A name that the search finds is suffixed and free. -/
theorem first_free_some {taken : Text → Bool} {desired name : Text} {count k : Nat}
    (h : firstFree taken desired count k = some name) :
    (∃ j, name = suffixed desired j) ∧ taken name = false := by
  induction count generalizing k with
  | zero => simp [firstFree] at h
  | succ count ih =>
      rw [firstFree] at h
      split at h
      · exact ih h
      · next hfree =>
          obtain rfl := Option.some.inj h
          exact ⟨⟨k, rfl⟩, by simpa using hfree⟩

/-- A search that finds nothing has met taken names only. -/
theorem first_free_none {taken : Text → Bool} {desired : Text} {count k : Nat}
    (h : firstFree taken desired count k = none) :
    ∀ j, k ≤ j → j < k + count → taken (suffixed desired j) = true := by
  induction count generalizing k with
  | zero => omega
  | succ count ih =>
      rw [firstFree] at h
      split at h
      · next htaken =>
          intro j hlow hhigh
          by_cases hj : j = k
          · rwa [hj]
          · exact ih h j (by omega) (by omega)
      · simp at h

/-- A search finds a name if what is taken of the suffixes has fewer keys than it tries. -/
theorem first_free_ok {β : Type} {taken : Text → Bool} {desired : Text} {count : Nat} (k : Nat)
    {key : Nat → β} (hkey : Function.Injective key) {used : List β}
    (hused : ∀ j, taken (suffixed desired j) = true → key j ∈ used)
    (hfew : used.length < count) : ∃ name, firstFree taken desired count k = some name := by
  cases hname : firstFree taken desired count k with
  | some name => exact ⟨name, rfl⟩
  | none =>
      have hsubset : (List.range' k count).map key ⊆ used := by
        intro x hx
        obtain ⟨j, hj, rfl⟩ := List.mem_map.mp hx
        rw [List.mem_range'_1] at hj
        exact hused j (first_free_none hname j hj.1 hj.2)
      have hnodup : ((List.range' k count).map key).Nodup := List.Nodup.map hkey List.nodup_range'
      have hlength := hnodup.length_le_of_subset hsubset
      rw [List.length_map, List.length_range'] at hlength
      omega

/-- The search starts from a proper name, and keeps it if it is free. -/
theorem unique_name_eq (settings : Settings) (desired : Text) (skip : Option Nat) :
    ∃ base : Text, base.Trimmed ∧ base ≠ [] ∧
      uniqueName settings desired skip =
        if settings.taken skip base then firstFree (settings.taken skip) base SUFFIXES 2
        else some base := by
  unfold uniqueName
  split
  · exact ⟨_, by unfold Text.Trimmed; decide, by simp, rfl⟩
  · next hblank => exact ⟨_, Text.trim_trimmed desired, hblank, rfl⟩

/-- A name that the search finds is proper and free. -/
theorem unique_name_some {settings : Settings} {desired name : Text} {skip : Option Nat}
    (h : uniqueName settings desired skip = some name) :
    name.Trimmed ∧ name ≠ [] ∧ settings.taken skip name = false := by
  obtain ⟨base, hbase, hbase0, heq⟩ := unique_name_eq settings desired skip
  rw [heq] at h
  split at h
  · obtain ⟨⟨k, rfl⟩, hfree⟩ := first_free_some h
    exact ⟨suffixed_trimmed hbase hbase0 k, by simp [suffixed], hfree⟩
  · next hfree =>
      obtain rfl := Option.some.inj h
      exact ⟨hbase, hbase0, by simpa using hfree⟩

/-- With fewer than 2^32 - 2 profiles, some suffix is always free. -/
theorem unique_name_ok {settings : Settings} (hfew : settings.profiles.length < 2 ^ 32 - 2)
    (desired : Text) (skip : Option Nat) :
    ∃ name, uniqueName settings desired skip = some name ∧ name.Trimmed ∧ name ≠ [] ∧
      settings.taken skip name = false := by
  obtain ⟨base, -, -, heq⟩ := unique_name_eq settings desired skip
  have hfound : ∃ name, uniqueName settings desired skip = some name := by
    rw [heq]
    split
    · next htaken =>
        -- the name itself is none of its suffixed forms
        have hused : ∀ j, settings.taken skip (suffixed base j) = true →
            suffixed base j ∈ (settings.profiles.map Profile.name).erase base := fun j hj =>
          (List.mem_erase_of_ne (suffixed_ne base j)).mpr (Settings.mem_names_of_taken hj)
        have hlength : ((settings.profiles.map Profile.name).erase base).length < SUFFIXES := by
          rw [List.length_erase_of_mem (Settings.mem_names_of_taken htaken), List.length_map,
            SUFFIXES]
          omega
        exact first_free_ok 2 (fun _ _ => suffixed_injective) hused hlength
    · exact ⟨base, rfl⟩
  obtain ⟨name, hname⟩ := hfound
  exact ⟨name, hname, unique_name_some hname⟩

/-! ## Operations -/

/-- `move_profile`. -/
def moveProfile (settings : Settings) (source target : Nat) : Settings × Bool :=
  match settings.profiles[source]? with
  | none => (settings, false)
  | some p =>
    if settings.profiles.length ≤ target ∨ source = target then (settings, false)
    else
      ({ settings with profiles := (settings.profiles.eraseIdx source).insertIdx target p }, true)

/-- `add_named`. -/
def addNamed (settings : Settings) (name : Text) : Settings × Except NameProblem Nat :=
  match checkName settings none name with
  | .error problem => (settings, .error problem)
  | .ok name =>
    ({ settings with profiles := settings.profiles ++ [{ name }] }, .ok settings.profiles.length)

/-- `duplicate_named`. -/
def duplicateNamed (settings : Settings) (i : Nat) (name : Text) :
    Settings × Except NameProblem Nat :=
  match checkName settings none name with
  | .error problem => (settings, .error problem)
  | .ok name =>
    match settings.profiles[i]? with
    | none => (settings, .error .blank)
    | some src =>
      ({ settings with profiles := settings.profiles.insertIdx (i + 1) { src with name } },
        .ok (i + 1))

/-- The profile that Save As leaves at the source: the saved one of the same name, if it
differs. -/
def restored (saved : Settings) (current : Profile) : Profile :=
  match saved.profiles.find? (·.name = current.name) with
  | some original => if original.eq current then current else original
  | none => current

/-- `save_as`. It panics, at `none`, on settings without a profile. -/
def saveAs (settings saved : Settings) (name : Text) :
    Option (Settings × Except NameProblem Nat) :=
  match checkName settings none name with
  | .error problem => some (settings, .error problem)
  | .ok name =>
    let src := settings.activeIndex
    match settings.profiles[src]? with
    | none => none
    | some current =>
      some ({ settings with
          profiles :=
            (settings.profiles.set src (restored saved current)).insertIdx (src + 1)
              { current with name }
          activeProfile := name }, .ok (src + 1))

/-- `rename`. -/
def rename (settings : Settings) (i : Nat) (newName : Text) : Option (Settings × Bool) :=
  match settings.profiles[i]? with
  | none => some (settings, false)
  | some p =>
    if newName.trim = [] then some (settings, false)
    else
      (uniqueName settings newName (some i)).map fun name =>
        ({ settings with
            profiles := settings.profiles.set i { p with name }
            activeProfile :=
              if p.name = settings.activeProfile then name else settings.activeProfile }, true)

/-- `activate`. -/
def activate (settings : Settings) (i : Nat) : Settings × Bool :=
  match settings.profiles[i]? with
  | none => (settings, false)
  | some p =>
    if settings.activeProfile = p.name then (settings, false)
    else ({ settings with activeProfile := p.name }, true)

/-- `remove`. -/
def remove (settings : Settings) (i : Nat) : Settings × Bool :=
  match settings.profiles[i]? with
  | none => (settings, false)
  | some p =>
    if settings.profiles.length ≤ 1 then (settings, false)
    else
      let profiles := settings.profiles.eraseIdx i
      ({ settings with
          profiles
          activeProfile :=
            if p.name = settings.activeProfile then
              (profiles.head?.map Profile.name).getD settings.activeProfile
            else settings.activeProfile }, true)

/-! ## Invariants -/

/-- Names that are trimmed, not blank and pairwise distinct. -/
structure ProperNames (profiles : List Profile) : Prop where
  trimmed : ∀ p ∈ profiles, p.name.Trimmed
  present : ∀ p ∈ profiles, p.name ≠ []
  distinct : (profiles.map Profile.name).Nodup

/-- The settings have properly named profiles and one of them is active, so there is at least
one. -/
structure Settings.WellFormed (s : Settings) : Prop where
  names : ProperNames s.profiles
  active : s.activeProfile ∈ s.profiles.map Profile.name

theorem proper_names_iff {profiles : List Profile} :
    ProperNames profiles ↔
      (profiles.all fun p => p.name.trim = p.name ∧ p.name ≠ []) = true ∧
        (profiles.map Profile.name).Nodup := by
  simp only [List.all_eq_true, decide_eq_true_eq]
  exact ⟨fun h => ⟨fun p hp => ⟨h.trimmed p hp, h.present p hp⟩, h.distinct⟩,
    fun h => ⟨fun p hp => (h.1 p hp).1, fun p hp => (h.1 p hp).2, h.2⟩⟩

instance (profiles : List Profile) : Decidable (ProperNames profiles) :=
  decidable_of_iff' _ proper_names_iff

instance (s : Settings) : Decidable s.WellFormed :=
  decidable_of_iff (ProperNames s.profiles ∧ s.activeProfile ∈ s.profiles.map Profile.name)
    ⟨fun h => ⟨h.1, h.2⟩, fun h => ⟨h.names, h.active⟩⟩

namespace ProperNames

variable {profiles : List Profile}

theorem subset {profiles' : List Profile} (h : ProperNames profiles) (hsub : profiles' ⊆ profiles)
    (hdistinct : (profiles'.map Profile.name).Nodup) : ProperNames profiles' :=
  ⟨fun p hp => h.trimmed p (hsub hp), fun p hp => h.present p (hsub hp), hdistinct⟩

/-- Only the names matter. -/
theorem of_names {profiles' : List Profile} (h : ProperNames profiles)
    (hsame : profiles'.map Profile.name = profiles.map Profile.name) :
    ProperNames profiles' := by
  have hold : ∀ p ∈ profiles', ∃ q ∈ profiles, q.name = p.name := by
    intro p hp
    exact List.mem_map.mp (hsame ▸ List.mem_map_of_mem hp)
  refine ⟨fun p hp => ?_, fun p hp => ?_, hsame ▸ h.distinct⟩
  · obtain ⟨q, hq, hname⟩ := hold p hp
    exact hname ▸ h.trimmed q hq
  · obtain ⟨q, hq, hname⟩ := hold p hp
    exact hname ▸ h.present q hq

theorem inserted {p : Profile} {i : Nat} (h : ProperNames profiles) (hi : i ≤ profiles.length)
    (htrimmed : p.name.Trimmed) (hpresent : p.name ≠ [])
    (hfree : p.name ∉ profiles.map Profile.name) : ProperNames (profiles.insertIdx i p) where
  trimmed q hq := by
    rcases List.eq_or_mem_of_mem_insertIdx hq with rfl | hq
    · exact htrimmed
    · exact h.trimmed q hq
  present q hq := by
    rcases List.eq_or_mem_of_mem_insertIdx hq with rfl | hq
    · exact hpresent
    · exact h.present q hq
  distinct := KeyedList.nodup_inserted Profile.name h.distinct hi hfree

theorem erased (h : ProperNames profiles) (i : Nat) : ProperNames (profiles.eraseIdx i) :=
  h.subset (List.eraseIdx_sublist _ _).subset (KeyedList.nodup_erased Profile.name h.distinct i)

theorem moved {p : Profile} {source target : Nat} (h : ProperNames profiles)
    (hsource : profiles[source]? = some p) (htarget : target < profiles.length) :
    ProperNames ((profiles.eraseIdx source).insertIdx target p) :=
  h.subset (KeyedList.perm_moved hsource htarget).subset
    (KeyedList.nodup_moved Profile.name h.distinct hsource htarget)

/-- A profile can be replaced by one whose name no other profile has. -/
theorem set {p : Profile} {i : Nat} (h : ProperNames profiles) (htrimmed : p.name.Trimmed)
    (hpresent : p.name ≠ [])
    (hother : ∀ j q, profiles[j]? = some q → j ≠ i → q.name ≠ p.name) :
    ProperNames (profiles.set i p) where
  trimmed q hq := by
    rcases List.mem_or_eq_of_mem_set hq with hq | rfl
    · exact h.trimmed q hq
    · exact htrimmed
  present q hq := by
    rcases List.mem_or_eq_of_mem_set hq with hq | rfl
    · exact h.present q hq
    · exact hpresent
  distinct := KeyedList.nodup_set Profile.name h.distinct hother

/-- Distinct positions have distinct names. -/
theorem position_inj {i j : Nat} {p q : Profile} (h : ProperNames profiles)
    (hp : profiles[i]? = some p) (hq : profiles[j]? = some q) (hname : p.name = q.name) :
    i = j := by
  rw [← KeyedList.position_eq Profile.name h.distinct hp,
    ← KeyedList.position_eq Profile.name h.distinct hq, hname]

/-- A profile can be replaced by one of the same name. -/
theorem set_same {p q : Profile} {i : Nat} (h : ProperNames profiles)
    (hp : profiles[i]? = some p) (hname : q.name = p.name) : ProperNames (profiles.set i q) := by
  have hmem : p ∈ profiles := List.mem_of_getElem? hp
  refine h.set (hname ▸ h.trimmed p hmem) (hname ▸ h.present p hmem) fun j r hr hj heq => ?_
  exact hj (h.position_inj hr hp (heq.trans hname))

end ProperNames

namespace Settings.WellFormed

variable {s : Settings}

/-- The active index is the position of the active profile. -/
theorem active_index_eq (h : s.WellFormed) {i : Nat} {p : Profile}
    (hp : s.profiles[i]? = some p) (hname : p.name = s.activeProfile) : s.activeIndex = i := by
  rw [Settings.activeIndex, ← hname]
  exact KeyedList.position_eq Profile.name h.names.distinct hp

theorem active_at (h : s.WellFormed) :
    ∃ p, s.profiles[s.activeIndex]? = some p ∧ p.name = s.activeProfile :=
  KeyedList.get_position Profile.name h.active

/-- The default settings are well formed. -/
theorem default : Settings.WellFormed {} := by decide

end Settings.WellFormed
end OpenNtrip
