import OpenNtrip.App.Profiles

/-!
# Importing profiles

`profile_file.rs`: the rows of the import dialog, what keeps a row out, and what the other rows do
to the settings.
-/

namespace OpenNtrip

/-- One incoming profile as the import dialog shows it. -/
structure ImportRow where
  profile : Profile
  take : Bool
  name : Text
  clashesWithExisting : Bool
  replace : Bool
  deriving DecidableEq, Repr

namespace ImportRow

/-- The row is to overwrite the profile of its name. -/
def replaces (row : ImportRow) : Bool := row.replace && row.clashesWithExisting

/-- `target_name`. -/
def targetName (row : ImportRow) : Text :=
  if row.replaces then row.profile.name else row.name.trim

end ImportRow

/-- `row_problem`. -/
def rowProblem (settings : Settings) (rows : List ImportRow) (i : Fin rows.length)
    (busy : Bool) : Option NameProblem :=
  let row := rows[i]
  if !row.take then none
  else if busy && row.replaces && row.targetName = settings.activeProfile then
    some .activeWhileConnected
  else
    match row.replaces, checkName settings none row.name with
    | false, .error problem => some problem
    | _, _ =>
      let twin := rows.zipIdx.any fun (r, j) =>
        j ≠ i && r.take && r.targetName = row.targetName
      if twin then some .taken else none

/-- Another row that is taken has the name of this one. -/
def hasTwin (rows : List ImportRow) (i : Fin rows.length) : Bool :=
  rows.zipIdx.any fun (r, j) => j ≠ i && r.take && r.targetName = rows[i].targetName

/-- The import of one row, and the index of the profile it yields. A row that is to replace a
profile the settings do not have is skipped. -/
def importRow (settings : Settings) (row : ImportRow) : Settings × Option Nat :=
  let profile := { row.profile with name := row.targetName }
  if row.replaces then
    match settings.profiles.findFinIdx? (·.name = profile.name) with
    | none => (settings, none)
    | some place =>
      let existing := settings.profiles[place]
      -- The password stays if the file came without one for the same account.
      let profile :=
        if profile.password = [] ∧ profile.username = existing.username then
          { profile with password := existing.password }
        else profile
      ({ settings with profiles := settings.profiles.set place profile }, some place)
  else
    ({ settings with profiles := settings.profiles ++ [profile] },
      some settings.profiles.length)

/-- The import of the rows in order, and the indices they yield. -/
def importRows (settings : Settings) : List ImportRow → Settings × List Nat
  | [] => (settings, [])
  | row :: rest =>
    let (settings, index) := importRow settings row
    let (settings, indices) := importRows settings rest
    (settings, index.toList ++ indices)

/-- The rows that are taken and have no problem. -/
def importable (settings : Settings) (rows : List ImportRow) (busy : Bool) : List ImportRow :=
  ((List.finRange rows.length).filter fun i =>
    rows[i].take && (rowProblem settings rows i busy).isNone).map fun i => rows[i]

/-- `apply_import`. -/
def applyImport (settings : Settings) (rows : List ImportRow) (busy : Bool) :
    Settings × List Nat :=
  importRows settings (importable settings rows busy)

/-- What it takes for a row that is taken to be importable. -/
theorem row_problem_none {settings : Settings} {rows : List ImportRow} {i : Fin rows.length}
    {busy : Bool} (htake : rows[i].take = true)
    (h : rowProblem settings rows i busy = none) :
    (rows[i].replaces = false →
      rows[i].targetName ≠ [] ∧ settings.taken none rows[i].targetName = false) ∧
    (busy = true → rows[i].replaces = true → rows[i].targetName ≠ settings.activeProfile) ∧
    ∀ j : Fin rows.length, j ≠ i → rows[j].take = true →
      rows[j].targetName ≠ rows[i].targetName := by
  simp only [rowProblem, htake, Bool.not_true, Bool.false_eq_true, if_false] at h
  split at h
  · simp at h
  · next hactive =>
      refine ⟨fun hreplaces => ?_, fun hbusy hreplaces => ?_, fun j hj htaken heq => ?_⟩
      · cases hcheck : checkName settings none rows[i].name with
        | error problem =>
            rw [hreplaces, hcheck] at h
            simp at h
        | ok stored =>
            obtain ⟨rfl, hpresent, hfree⟩ := check_name_ok hcheck
            rw [ImportRow.targetName, hreplaces]
            exact ⟨hpresent, hfree⟩
      · simp only [hbusy, hreplaces, Bool.and_self, Bool.true_and, decide_eq_true_eq] at hactive
        exact hactive
      · -- Another taken row of the same target makes the row a twin.
        have htwin : hasTwin rows i = true := by
          rw [hasTwin, List.any_eq_true]
          refine ⟨(rows[j], j), ?_, ?_⟩
          · rw [List.mem_zipIdx_iff_getElem?]
            exact List.getElem?_eq_getElem j.isLt
          · simp only [ne_eq, Fin.val_inj, hj, htaken, heq, not_false_eq_true, decide_true,
              Bool.and_self]
        rw [hasTwin] at htwin
        split at h
        · simp at h
        · simp only [htwin, if_true, reduceCtorEq] at h

/-- The rows of the import have different targets, and a row that adds a profile does so under a
proper name that is free. -/
theorem importable_targets (settings : Settings) (rows : List ImportRow) (busy : Bool) :
    ((importable settings rows busy).map ImportRow.targetName).Nodup ∧
    ∀ row ∈ importable settings rows busy, row.replaces = false →
      row.targetName.Trimmed ∧ row.targetName ≠ [] ∧
        row.targetName ∉ settings.profiles.map Profile.name := by
  constructor
  · rw [importable, List.map_map]
    refine List.Nodup.map_on ?_ ((List.nodup_finRange _).filter _)
    intro i hi j hj heq
    simp only [List.mem_filter, Bool.and_eq_true, Option.isNone_iff_eq_none] at hi hj
    by_contra hne
    exact (row_problem_none hj.2.1 hj.2.2).2.2 i hne hi.2.1 heq
  · intro row hrow hreplaces
    obtain ⟨i, hi, rfl⟩ := List.mem_map.mp hrow
    simp only [List.mem_filter, Bool.and_eq_true, Option.isNone_iff_eq_none] at hi
    obtain ⟨hpresent, hfree⟩ := (row_problem_none hi.2.1 hi.2.2).1 hreplaces
    refine ⟨?_, hpresent, ?_⟩
    · rw [ImportRow.targetName, hreplaces]
      exact Text.trim_trimmed _
    · rw [← Settings.taken_none_iff, hfree]
      simp

/-- While the connection is busy, no row of the import replaces the active profile. -/
theorem importable_busy {settings : Settings} {rows : List ImportRow} {row : ImportRow}
    (hrow : row ∈ importable settings rows true) (hreplaces : row.replaces = true) :
    row.targetName ≠ settings.activeProfile := by
  obtain ⟨i, hi, rfl⟩ := List.mem_map.mp hrow
  simp only [List.mem_filter, Bool.and_eq_true, Option.isNone_iff_eq_none] at hi
  exact (row_problem_none hi.2.1 hi.2.2).2.1 rfl hreplaces

/-- What the import of a row does: it puts the row in the place of the profile of its name, it
skips a row whose profile is not there, or it adds one. -/
theorem import_row_cases (settings : Settings) (row : ImportRow) :
    (∃ i existing p, row.replaces = true ∧ settings.profiles[i]? = some existing ∧
      existing.name = row.targetName ∧ p.name = row.targetName ∧
      importRow settings row = ({ settings with profiles := settings.profiles.set i p }, some i)) ∨
    (row.replaces = true ∧ importRow settings row = (settings, none)) ∨
    (row.replaces = false ∧ ∃ p : Profile, p.name = row.targetName ∧
      importRow settings row =
        ({ settings with profiles := settings.profiles ++ [p] },
          some settings.profiles.length)) := by
  cases hreplaces : row.replaces with
  | false => exact .inr (.inr ⟨rfl, _, rfl, by simp [importRow, hreplaces]; rfl⟩)
  | true =>
      simp only [importRow, hreplaces, if_true]
      split
      · exact .inr (.inl ⟨trivial, rfl⟩)
      · next place hfind =>
          have hname : settings.profiles[place].name = row.targetName := by
            simpa using (List.findFinIdx?_eq_some_iff.mp hfind).1
          refine .inl ⟨place, settings.profiles[place], _, trivial, ?_, hname, ?_, rfl⟩
          · exact List.getElem?_eq_getElem place.isLt
          · split
            · rfl
            · rfl

/-- What the import of rows with different targets does, if those that add a profile do so under
proper names that are free. -/
structure Imported (settings result : Settings) (rows : List ImportRow) : Prop where
  names : ProperNames result.profiles
  activeProfile : result.activeProfile = settings.activeProfile
  kept : ∀ j < settings.profiles.length,
    (result.profiles[j]?).map Profile.name = (settings.profiles[j]?).map Profile.name
  contents : ∀ j < settings.profiles.length,
    (∀ row ∈ rows, row.replaces = true →
      (settings.profiles[j]?).map Profile.name ≠ some row.targetName) →
    result.profiles[j]? = settings.profiles[j]?

/-- The import keeps the settings well formed: the active profile is where it was. -/
theorem Imported.well_formed {settings result : Settings} {rows : List ImportRow}
    (h : Imported settings result rows) (hs : settings.WellFormed) : result.WellFormed := by
  obtain ⟨p, hp, hselected⟩ := hs.active_at
  obtain ⟨hlt, -⟩ := List.getElem?_eq_some_iff.mp hp
  have hname := h.kept _ hlt
  rw [hp, Option.map_some] at hname
  obtain ⟨q, hq, hsame⟩ := Option.map_eq_some_iff.mp hname
  refine ⟨h.names, List.mem_map.mpr ⟨q, List.mem_of_getElem? hq, ?_⟩⟩
  rw [hsame, hselected, h.activeProfile]

/-- The import of a row and of the rows after it. -/
theorem Imported.cons {settings middle result : Settings} {row : ImportRow} {rest : List ImportRow}
    (hrow : Imported settings middle [row]) (hrest : Imported middle result rest) :
    Imported settings result (row :: rest) := by
  have hlength : ∀ j < settings.profiles.length, j < middle.profiles.length := by
    intro j hj
    have hname := hrow.kept j hj
    rw [List.getElem?_eq_getElem hj] at hname
    by_contra hnot
    rw [List.getElem?_eq_none (by omega)] at hname
    simp at hname
  refine ⟨hrest.names, hrest.activeProfile.trans hrow.activeProfile, ?_, ?_⟩
  · intro j hj
    exact (hrest.kept j (hlength j hj)).trans (hrow.kept j hj)
  · intro j hj hnot
    have hmiddle := hrow.contents j hj fun r hr hrep => by
      rw [List.mem_singleton.mp hr] at hrep ⊢
      exact hnot row List.mem_cons_self hrep
    refine (hrest.contents j (hlength j hj) fun r hr hrep => ?_).trans hmiddle
    rw [hmiddle]
    exact hnot r (List.mem_cons_of_mem _ hr) hrep

/-- One row is imported, and brings no name but its target. -/
theorem import_row_imported {settings : Settings} {row : ImportRow}
    (hnames : ProperNames settings.profiles)
    (hadded : row.replaces = false → row.targetName.Trimmed ∧ row.targetName ≠ [] ∧
      row.targetName ∉ settings.profiles.map Profile.name) :
    Imported settings (importRow settings row).1 [row] ∧
      ∀ name ∈ (importRow settings row).1.profiles.map Profile.name,
        name ∈ settings.profiles.map Profile.name ∨ name = row.targetName := by
  rcases import_row_cases settings row with ⟨i, existing, p, hreplaces, hi, hexisting, hp, heq⟩ |
    ⟨-, heq⟩ | ⟨hreplaces, p, hp, heq⟩
  · -- The profile is replaced under its own name.
    have hsame : p.name = existing.name := hp.trans hexisting.symm
    have hmap := KeyedList.map_set_same Profile.name hi hsame
    rw [heq]
    refine ⟨⟨hnames.set_same hi hsame, rfl, fun j hj => ?_, fun j hj hnot => ?_⟩, ?_⟩
    · show ((settings.profiles.set i p)[j]?).map Profile.name = _
      rw [← List.getElem?_map, hmap, List.getElem?_map]
    · refine List.getElem?_set_ne fun hij => ?_
      subst hij
      refine hnot row List.mem_cons_self hreplaces ?_
      rw [hi, Option.map_some, hexisting]
    · intro name hname
      rw [hmap] at hname
      exact .inl hname
  · rw [heq]
    exact ⟨⟨hnames, rfl, fun _ _ => rfl, fun _ _ _ => rfl⟩, fun _ hname => .inl hname⟩
  · obtain ⟨htrimmed, hpresent, hfree⟩ := hadded hreplaces
    rw [← hp] at htrimmed hpresent hfree
    have hproper : ProperNames (settings.profiles ++ [p]) := by
      rw [← List.insertIdx_length_self]
      exact hnames.inserted (Nat.le_refl _) htrimmed hpresent hfree
    have hget : ∀ j < settings.profiles.length,
        (settings.profiles ++ [p])[j]? = settings.profiles[j]? := by
      intro j hj
      exact List.getElem?_append_left hj
    rw [heq]
    refine ⟨⟨hproper, rfl, fun j hj => ?_, fun j hj _ => hget j hj⟩, ?_⟩
    · exact congrArg _ (hget j hj)
    · intro name hname
      rw [List.map_append, List.mem_append, List.map_singleton, List.mem_singleton] at hname
      rw [← hp]
      exact hname

theorem import_rows_imported {settings : Settings} {rows : List ImportRow}
    (hnames : ProperNames settings.profiles) (htargets : (rows.map ImportRow.targetName).Nodup)
    (hadded : ∀ row ∈ rows, row.replaces = false →
      row.targetName.Trimmed ∧ row.targetName ≠ [] ∧
        row.targetName ∉ settings.profiles.map Profile.name) :
    Imported settings (importRows settings rows).1 rows := by
  induction rows generalizing settings with
  | nil => exact ⟨hnames, rfl, fun _ _ => rfl, fun _ _ _ => rfl⟩
  | cons row rest ih =>
      obtain ⟨htarget, hrest⟩ := List.nodup_cons.mp htargets
      obtain ⟨hrow, hnew⟩ := import_row_imported hnames (hadded row List.mem_cons_self)
      refine hrow.cons (ih hrow.names hrest ?_)
      -- no later row has the new name for a target
      intro r hr hrep
      obtain ⟨htrimmed, hpresent, hfree⟩ := hadded r (List.mem_cons_of_mem _ hr) hrep
      refine ⟨htrimmed, hpresent, fun hmem => ?_⟩
      rcases hnew _ hmem with hold | hsame
      · exact hfree hold
      · exact htarget (hsame ▸ List.mem_map_of_mem hr)

/-- An import that imports nothing changes nothing. -/
theorem import_rows_refused {settings : Settings} {rows : List ImportRow}
    (h : (importRows settings rows).2 = []) : (importRows settings rows).1 = settings := by
  induction rows with
  | nil => rfl
  | cons row rest ih =>
      simp only [importRows, List.append_eq_nil_iff, Option.toList_eq_nil_iff] at h ⊢
      rcases import_row_cases settings row with ⟨i, existing, p, -, -, -, -, heq⟩ | ⟨-, heq⟩ |
        ⟨-, p, -, heq⟩
      · simp [heq] at h
      · rw [heq] at h ⊢
        exact ih h.2
      · simp [heq] at h

end OpenNtrip
