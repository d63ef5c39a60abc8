import OpenNtrip.App.ProfileFile

/-!
# What an import changes

`apply_import` seen from the settings before it. `ImportEffect` says what the import leaves of them
and what its rows put in, `import_effect` that this is what every import does.
-/

namespace OpenNtrip

namespace ImportRow

/-- The profile that the row is to overwrite. -/
def existing (settings : Settings) (row : ImportRow) : Option Profile :=
  if row.replaces then settings.profiles.find? (·.name = row.targetName) else none

/-- The row adds a profile, or the one to overwrite is there. -/
def fits (settings : Settings) (row : ImportRow) : Bool :=
  !row.replaces || (row.existing settings).isSome

/-- What the row puts in: its profile under the target name. The password of the profile it
overwrites stays if the row comes without one for the same account. -/
def contents (settings : Settings) (row : ImportRow) : Profile :=
  { row.profile with
    name := row.targetName
    password := match row.existing settings with
      | some old =>
        if row.profile.password = [] ∧ row.profile.username = old.username then old.password
        else row.profile.password
      | none => row.profile.password }

end ImportRow

/-- The rows that are imported. -/
def imported (settings : Settings) (rows : List ImportRow) (busy : Bool) : List ImportRow :=
  (importable settings rows busy).filter (·.fits settings)

/-- What an import does to the settings: it puts in the imported rows, at the indices it returns,
and nothing else. -/
structure ImportEffect (settings result : Settings) (rows : List ImportRow) (indices : List Nat)
    (busy : Bool) : Prop where
  wellFormed : result.WellFormed
  others : result = { settings with profiles := result.profiles }
  activeKept : busy = true → result.active = settings.active
  kept : ∀ (j : Nat) (p : Profile), settings.profiles[j]? = some p →
    (∀ row ∈ rows, row.replaces = true → row.targetName ≠ p.name) →
    result.profiles[j]? = some p
  placed : indices.map (result.profiles[·]?) = rows.map fun row => some (row.contents settings)
  only : ∀ (i : Nat) (p : Profile), result.profiles[i]? = some p →
    i ∈ indices ∨ settings.profiles[i]? = some p

variable {settings : Settings} {row : ImportRow} {rows : List ImportRow} {busy : Bool}

/-- The import of a row puts it in at the index it returns, unless the row does not fit. -/
theorem import_row_placed (settings : Settings) (row : ImportRow) :
    (row.fits settings = false ∧ importRow settings row = (settings, none)) ∨
    (row.fits settings = true ∧ ∃ i profiles,
      importRow settings row = ({ settings with profiles }, some i) ∧
      profiles[i]? = some (row.contents settings)) := by
  cases hreplaces : row.replaces with
  | false =>
      refine .inr ⟨by simp [ImportRow.fits, hreplaces], settings.profiles.length,
        settings.profiles ++ [{ row.profile with name := row.targetName }],
        by simp [importRow, hreplaces], ?_⟩
      rw [List.getElem?_concat_length]
      simp [ImportRow.contents, ImportRow.existing, hreplaces]
  | true =>
      have hexisting : row.existing settings =
          settings.profiles.find? (·.name = row.targetName) := if_pos hreplaces
      cases hplace : settings.profiles.findFinIdx? (·.name = row.targetName) with
      | none =>
          refine .inl ⟨?_, by simp [importRow, hreplaces, hplace]⟩
          have hnone : settings.profiles.find? (·.name = row.targetName) = none := by
            rw [List.findFinIdx?_eq_none_iff] at hplace
            exact List.find?_eq_none.mpr hplace
          simp [ImportRow.fits, hreplaces, hexisting, hnone]
      | some place =>
          have hfound : row.existing settings = some settings.profiles[place] := by
            obtain ⟨hname, hfirst⟩ := List.findFinIdx?_eq_some_iff.mp hplace
            rw [hexisting, List.find?_eq_some_iff_getElem]
            exact ⟨hname, place, place.isLt, rfl, fun j hj => by
              simpa using hfirst ⟨j, by omega⟩ hj⟩
          refine .inr ⟨by simp [ImportRow.fits, hfound], place,
            settings.profiles.set place (row.contents settings), ?_,
            List.getElem?_set_self place.isLt⟩
          simp only [importRow, hreplaces, if_true, hplace, ImportRow.contents, hfound]
          split
          · next hkeep => rfl
          · next hdrop => rfl


/-- The import of a row leaves the lookup of every name but its target as it was. -/
theorem existing_import_row {other : ImportRow} (hne : other.targetName ≠ row.targetName) :
    other.existing (importRow settings row).1 = other.existing settings := by
  have hfind : (importRow settings row).1.profiles.find? (·.name = other.targetName) =
      settings.profiles.find? (·.name = other.targetName) := by
    rcases import_row_cases settings row with ⟨i, old, p, -, hi, hold, hp, heq⟩ | ⟨-, heq⟩ |
      ⟨-, p, hp, heq⟩
    · rw [heq]
      refine KeyedList.find_set_ne Profile.name hi (hp.trans hold.symm) ?_
      rw [hold]
      exact hne.symm
    · rw [heq]
    · rw [heq]
      refine KeyedList.find_append_ne Profile.name ?_
      rw [hp]
      exact hne.symm
  rw [ImportRow.existing, ImportRow.existing, hfind]

/-- So a row with another target still fits as it did, and still brings in the same contents. -/
theorem import_row_frame {other : ImportRow} (hne : other.targetName ≠ row.targetName) :
    other.fits (importRow settings row).1 = other.fits settings ∧
      other.contents (importRow settings row).1 = other.contents settings := by
  simp only [ImportRow.fits, ImportRow.contents, existing_import_row hne, and_self]

/-- Rows that can be imported one after the other: their targets differ, and those that add a
profile do so under names that are proper and free. -/
structure Compatible (settings : Settings) (rows : List ImportRow) : Prop where
  names : ProperNames settings.profiles
  targets : (rows.map ImportRow.targetName).Nodup
  added : ∀ row ∈ rows, row.replaces = false →
    row.targetName.Trimmed ∧ row.targetName ≠ [] ∧
      row.targetName ∉ settings.profiles.map Profile.name

namespace Compatible

/-- Once the first row is imported the others can be. -/
theorem tail (h : Compatible settings (row :: rows)) :
    Compatible (importRow settings row).1 rows where
  names := (import_row_imported h.names (h.added row List.mem_cons_self)).1.names
  targets := (List.nodup_cons.mp h.targets).2
  added r hr hreplaces := by
    obtain ⟨htrimmed, hpresent, hfree⟩ := h.added r (List.mem_cons_of_mem _ hr) hreplaces
    refine ⟨htrimmed, hpresent, fun hmem => ?_⟩
    obtain ⟨-, hnew⟩ := import_row_imported h.names (h.added row List.mem_cons_self)
    rcases hnew _ hmem with hold | hsame
    · exact hfree hold
    · exact (List.nodup_cons.mp h.targets).1 (hsame ▸ List.mem_map_of_mem hr)

/-- A later row has another target than the first. -/
theorem target_ne (h : Compatible settings (row :: rows)) {other : ImportRow}
    (hother : other ∈ rows) : other.targetName ≠ row.targetName := by
  intro heq
  exact (List.nodup_cons.mp h.targets).1 (heq ▸ List.mem_map_of_mem hother)

/-- Which of the later rows fit does not depend on the first. -/
theorem filter_tail (h : Compatible settings (row :: rows)) :
    rows.filter (·.fits (importRow settings row).1) = rows.filter (·.fits settings) :=
  List.filter_congr fun _ hother => (import_row_frame (h.target_ne hother)).1

theorem imported (h : Compatible settings rows) :
    Imported settings (importRows settings rows).1 rows :=
  import_rows_imported h.names h.targets h.added

/-- The indices that the import returns hold, in order, what the rows that fit put in. -/
theorem placed (h : Compatible settings rows) :
    (importRows settings rows).2.map ((importRows settings rows).1.profiles[·]?) =
      (rows.filter (·.fits settings)).map fun row => some (row.contents settings) := by
  induction rows generalizing settings with
  | nil => rfl
  | cons row rest ih =>
      have hrest := ih h.tail
      have hcontents : (rest.filter (·.fits settings)).map
            (fun r => some (r.contents (importRow settings row).1)) =
          (rest.filter (·.fits settings)).map fun r => some (r.contents settings) := by
        refine List.map_congr_left fun r hr => ?_
        rw [(import_row_frame (h.target_ne (List.mem_of_mem_filter hr))).2]
      rw [h.filter_tail, hcontents] at hrest
      rcases import_row_placed settings row with ⟨hfits, heq⟩ | ⟨hfits, i, profiles, heq, hi⟩
      · rw [heq] at hrest
        simp only [importRows, heq, hfits, List.filter_cons, Bool.false_eq_true, if_false]
        exact hrest
      · -- No later row touches the profile that the first one put in.
        have hkept : (importRows (importRow settings row).1 rest).1.profiles[i]? =
            some (row.contents settings) := by
          obtain ⟨hlt, -⟩ := List.getElem?_eq_some_iff.mp hi
          refine (h.tail.imported.contents i (by rw [heq]; exact hlt)
            fun r hr _ hname => h.target_ne hr ?_).trans (by rw [heq]; exact hi)
          rw [heq] at hname
          change (profiles[i]?).map Profile.name = _ at hname
          rw [hi] at hname
          exact (Option.some.inj hname).symm
        rw [heq] at hrest hkept
        simp only [importRows, heq, hfits, List.filter_cons, if_true, Option.toList,
          List.cons_append, List.nil_append, List.map_cons, hrest, hkept]

/-- Every name after the import was there before or is the target of a row that fits. -/
theorem names_from (h : Compatible settings rows) {p : Profile}
    (hp : p ∈ (importRows settings rows).1.profiles) :
    p.name ∈ settings.profiles.map Profile.name ∨
      ∃ row ∈ rows.filter (·.fits settings), row.targetName = p.name := by
  induction rows generalizing settings with
  | nil => exact .inl (List.mem_map_of_mem hp)
  | cons row rest ih =>
      rcases ih h.tail hp with hmem | ⟨r, hr, hname⟩
      · rcases import_row_placed settings row with ⟨-, heq⟩ | ⟨hfits, -⟩
        · rw [heq] at hmem
          exact .inl hmem
        · obtain ⟨-, hnew⟩ := import_row_imported h.names (h.added row List.mem_cons_self)
          rcases hnew _ hmem with hold | hsame
          · exact .inl hold
          · exact .inr ⟨row, List.mem_filter.mpr ⟨List.mem_cons_self, hfits⟩, hsame.symm⟩
      · rw [h.filter_tail] at hr
        obtain ⟨hmem, hfits⟩ := List.mem_filter.mp hr
        exact .inr ⟨r, List.mem_filter.mpr ⟨List.mem_cons_of_mem _ hmem, hfits⟩, hname⟩

end Compatible

/-- An import touches nothing but the profiles. -/
theorem import_rows_others (settings : Settings) (rows : List ImportRow) :
    (importRows settings rows).1 =
      { settings with profiles := (importRows settings rows).1.profiles } := by
  induction rows generalizing settings with
  | nil => rfl
  | cons row rest ih =>
      rw [importRows, ih]
      rcases import_row_placed settings row with ⟨-, heq⟩ | ⟨-, i, profiles, heq, -⟩
      · rw [heq]
      · rw [heq]

/-- A profile whose name a row replaces makes the row fit. -/
theorem fits_of_mem {p : Profile} (hp : p ∈ settings.profiles) (hreplaces : row.replaces = true)
    (hname : row.targetName = p.name) : row.fits settings = true := by
  have hsome : (settings.profiles.find? (·.name = row.targetName)).isSome = true := by
    rw [List.find?_isSome]
    exact ⟨p, hp, by simp [hname]⟩
  simp only [ImportRow.fits, ImportRow.existing, hreplaces, if_true, hsome, Bool.or_true]

/-- Every import does what its rows say and no more. -/
theorem import_effect (hs : settings.WellFormed) (rows : List ImportRow) (busy : Bool) :
    ImportEffect settings (applyImport settings rows busy).1 (imported settings rows busy)
      (applyImport settings rows busy).2 busy := by
  obtain ⟨htargets, hadded⟩ := importable_targets settings rows busy
  have hc : Compatible settings (importable settings rows busy) := ⟨hs.names, htargets, hadded⟩
  have ht := hc.imported.well_formed hs
  have hkept : ∀ (j : Nat) (p : Profile), settings.profiles[j]? = some p →
      (∀ row ∈ imported settings rows busy, row.replaces = true → row.targetName ≠ p.name) →
      (applyImport settings rows busy).1.profiles[j]? = some p := by
    intro j p hp hnot
    obtain ⟨hlt, -⟩ := List.getElem?_eq_some_iff.mp hp
    refine (hc.imported.contents j hlt fun row hrow hreplaces hname => ?_).trans hp
    rw [hp, Option.map_some, Option.some.injEq] at hname
    have hfits := fits_of_mem (List.mem_of_getElem? hp) hreplaces hname.symm
    exact hnot row (List.mem_filter.mpr ⟨hrow, hfits⟩) hreplaces hname.symm
  refine ⟨ht, import_rows_others _ _, fun hbusy => ?_, hkept, hc.placed, fun i p hp => ?_⟩
  · -- No imported row replaces the active profile, so it is kept where it is.
    obtain ⟨p, hp, hselected⟩ := hs.active_at
    have hsame := hkept _ p hp fun row hrow hreplaces hname => by
      subst hbusy
      exact importable_busy (List.mem_of_mem_filter hrow) hreplaces (hname.trans hselected)
    have hindex := ht.active_index_eq hsame (hselected.trans hc.imported.activeProfile.symm)
    show (applyImport settings rows busy).1.profiles[_]? = settings.profiles[_]?
    rw [hp, ← hsame]
    exact congrArg _ hindex
  · -- A profile is told by its name, and that is an old one or the target of an imported row.
    have hrow : ∀ row ∈ imported settings rows busy, row.targetName = p.name →
        i ∈ (applyImport settings rows busy).2 := by
      intro row hmem hname
      have hput : some (row.contents settings) ∈
          (imported settings rows busy).map fun row => some (row.contents settings) :=
        List.mem_map_of_mem hmem
      rw [imported, ← hc.placed] at hput
      obtain ⟨k, hk, hget⟩ := List.mem_map.mp hput
      rwa [← ht.names.position_inj hget hp hname]
    rcases hc.names_from (List.mem_of_getElem? hp) with hold | ⟨row, hmem, hname⟩
    · obtain ⟨q, hq, hsame⟩ := List.mem_map.mp hold
      obtain ⟨j, hj⟩ := List.mem_iff_getElem?.mp hq
      by_cases hreplaced : ∃ row ∈ imported settings rows busy,
          row.replaces = true ∧ row.targetName = q.name
      · obtain ⟨row, hmem, -, hname⟩ := hreplaced
        exact .inl (hrow row hmem (hname.trans hsame))
      · have hput := hkept j q hj fun row hmem hreplaces hname =>
          hreplaced ⟨row, hmem, hreplaces, hname⟩
        obtain rfl := ht.names.position_inj hput hp hsame
        exact .inr (hj.trans (hput.symm.trans hp))
    · exact .inl (hrow row hmem hname)

/-- A row without a password updates a profile, another is added, and a third is to replace a
profile that is gone. -/
theorem import_effect_example :
    let settings : Settings :=
      { profiles := [{}, { name := "Rig".toList, password := "secret".toList }] }
    let rows : List ImportRow :=
      [⟨{ name := "Rig".toList, host := "caster".toList }, true, [], true, true⟩,
        ⟨{ name := "Gone".toList }, true, [], true, true⟩,
        ⟨{ name := "Rig".toList }, true, " Office ".toList, true, false⟩]
    ImportEffect settings
      { settings with profiles :=
        [{}, { name := "Rig".toList, host := "caster".toList, password := "secret".toList },
          { name := "Office".toList }] }
      [rows[0], rows[2]] [1, 2] true := by
  intro settings rows
  have hs : settings.WellFormed := by decide
  exact import_effect hs rows true

end OpenNtrip
