import OpenNtrip.App.ProfileFile

/-!
# The default import plan

`plan` and `free_name`: the names that are suggested for the incoming profiles. `plan_applicable`
says that the plan can be applied as it stands.
-/

namespace OpenNtrip

/-- `free_name`. It panics, at `none`, once the suffixes run out. -/
def freeName (settings : Settings) (suggestion : Text) : Option Text :=
  if suggestion.trim = [] then some [] else uniqueName settings suggestion none

/-- The rows that `plan` makes of the profiles still to come, with the names seen so far. -/
def planRows (settings : Settings) : Settings → List Profile → Option (List ImportRow)
  | _, [] => some []
  | seen, profile :: rest => do
    let name ← freeName seen profile.name
    let rows ← planRows settings { seen with profiles := seen.profiles ++ [{ name }] } rest
    return {
      clashesWithExisting := settings.profiles.any (·.name = profile.name)
      profile
      take := true
      name
      replace := false } :: rows

/-- `plan`. -/
def plan (incoming : List Profile) (settings : Settings) : Option (List ImportRow) :=
  planRows settings settings incoming

/-- Rows as the plan makes them: all are taken, none replaces, and their names are proper, distinct
and free. -/
structure Planned (settings : Settings) (rows : List ImportRow) : Prop where
  taken : ∀ row ∈ rows, row.take = true
  added : ∀ row ∈ rows, row.replace = false
  trimmed : ∀ row ∈ rows, row.name.Trimmed
  present : ∀ row ∈ rows, row.name ≠ []
  free : ∀ row ∈ rows, row.name ∉ settings.profiles.map Profile.name
  distinct : (rows.map ImportRow.name).Nodup

/-- The profile that a row of the plan adds. -/
def ImportRow.addition (row : ImportRow) : Profile := { row.profile with name := row.name }

variable {settings : Settings} {rows : List ImportRow}

theorem Planned.nil : Planned settings [] :=
  ⟨List.forall_mem_nil _, List.forall_mem_nil _, List.forall_mem_nil _, List.forall_mem_nil _,
    List.forall_mem_nil _, List.nodup_nil⟩

/-- While there is room, the search for names ends, and what is suggested is free of all the names
seen before. -/
theorem plan_rows_planned {seen : Settings} {incoming : List Profile}
    (hnames : ∀ p ∈ incoming, p.name.trim ≠ [])
    (hfew : seen.profiles.length + incoming.length ≤ 2 ^ 32 - 2) :
    ∃ rows, planRows settings seen incoming = some rows ∧
      rows.map ImportRow.profile = incoming ∧ Planned seen rows := by
  induction incoming generalizing seen with
  | nil => exact ⟨[], rfl, rfl, .nil⟩
  | cons profile rest ih =>
      rw [List.length_cons] at hfew
      have hroom : seen.profiles.length < 2 ^ 32 - 2 := by omega
      obtain ⟨name, hunique, htrimmed, hpresent, hfree⟩ := unique_name_ok hroom profile.name none
      have hname : freeName seen profile.name = some name := by
        rw [freeName, if_neg (hnames profile List.mem_cons_self), hunique]
      let seen' : Settings := { seen with profiles := seen.profiles ++ [{ name }] }
      have hfew' : seen'.profiles.length + rest.length ≤ 2 ^ 32 - 2 := by
        simp only [seen', List.length_append, List.length_singleton]
        omega
      obtain ⟨rows, hrows, hprofiles, hplanned⟩ :=
        ih (fun p hp => hnames p (List.mem_cons_of_mem _ hp)) hfew'
      -- what is free of the names seen later is free of those seen now, and of this one
      have hlater : ∀ r ∈ rows, r.name ∉ seen.profiles.map Profile.name ∧ r.name ≠ name := by
        intro r hr
        have hnew := hplanned.free r hr
        simp only [seen', List.map_append, List.mem_append, List.map_singleton,
          List.mem_singleton, not_or] at hnew
        exact hnew
      have hnotMem : name ∉ seen.profiles.map Profile.name := by
        rw [← Settings.taken_none_iff, hfree]
        exact Bool.false_ne_true
      let row : ImportRow :=
        ⟨profile, true, name, settings.profiles.any (·.name = profile.name), false⟩
      have hplan : planRows settings seen (profile :: rest) = some (row :: rows) := by
        rw [planRows, hname]
        show (planRows settings seen' rest).bind _ = _
        rw [hrows]
        rfl
      refine ⟨row :: rows, hplan, by rw [List.map_cons, hprofiles], ⟨?_, ?_, ?_, ?_, ?_, ?_⟩⟩
      · exact List.forall_mem_cons.mpr ⟨rfl, hplanned.taken⟩
      · exact List.forall_mem_cons.mpr ⟨rfl, hplanned.added⟩
      · exact List.forall_mem_cons.mpr ⟨htrimmed, hplanned.trimmed⟩
      · exact List.forall_mem_cons.mpr ⟨hpresent, hplanned.present⟩
      · exact List.forall_mem_cons.mpr ⟨hnotMem, fun r hr => (hlater r hr).1⟩
      · rw [List.map_cons, List.nodup_cons]
        refine ⟨fun hmem => ?_, hplanned.distinct⟩
        obtain ⟨r, hr, hsame⟩ := List.mem_map.mp hmem
        exact (hlater r hr).2 hsame

namespace Planned

theorem replaces (h : Planned settings rows) {row : ImportRow} (hrow : row ∈ rows) :
    row.replaces = false := by
  rw [ImportRow.replaces, h.added row hrow, Bool.false_and]

/-- A row of the plan ends up under its own name. -/
theorem target_name (h : Planned settings rows) {row : ImportRow} (hrow : row ∈ rows) :
    row.targetName = row.name := by
  rw [ImportRow.targetName, h.replaces hrow]
  exact h.trimmed row hrow

/-- No row of the plan has a problem. -/
theorem row_problem (h : Planned settings rows) (i : Fin rows.length) (busy : Bool) :
    rowProblem settings rows i busy = none := by
  have hmem : ∀ j : Fin rows.length, rows[j] ∈ rows := fun j => List.getElem_mem j.isLt
  have hcheck : checkName settings none rows[i].name = .ok rows[i].name.trim := by
    have htrim : rows[i].name.trim = rows[i].name := h.trimmed _ (hmem i)
    have hfree : settings.taken none rows[i].name = false := by
      rw [Bool.eq_false_iff, ne_eq, Settings.taken_none_iff]
      exact h.free _ (hmem i)
    rw [checkName, htrim, if_neg (h.present _ (hmem i)), hfree]
    rfl
  have htwin : hasTwin rows i = false := by
    rw [hasTwin, List.any_eq_false]
    rintro ⟨r, k⟩ hr
    have hget : rows[k]? = some r := List.mem_zipIdx_iff_getElem?.mp hr
    obtain ⟨hk, -⟩ := List.getElem?_eq_some_iff.mp hget
    simp only [Bool.and_eq_true, decide_eq_true_eq, not_and]
    rintro ⟨hne, -⟩ hsame
    rw [h.target_name (List.mem_of_getElem? hget), h.target_name (hmem i)] at hsame
    have hkeys : (rows.map ImportRow.name)[k]? = (rows.map ImportRow.name)[i.val]? := by
      rw [List.getElem?_map, List.getElem?_map, hget, List.getElem?_eq_getElem i.isLt]
      exact congrArg some hsame
    exact hne ((List.getElem?_inj (by rwa [List.length_map]) h.distinct).mp hkeys)
  rw [hasTwin] at htwin
  simp only [rowProblem, h.taken _ (hmem i), h.replaces (hmem i), Bool.and_false, Bool.false_and,
    Bool.not_true, Bool.false_eq_true, if_false, hcheck, htwin]

theorem importable_eq (h : Planned settings rows) (busy : Bool) :
    importable settings rows busy = rows := by
  have hall : (List.finRange rows.length).filter (fun i =>
      rows[i].take && (rowProblem settings rows i busy).isNone) = List.finRange rows.length := by
    refine List.filter_eq_self.mpr fun i _ => ?_
    have htake : rows[i].take = true := h.taken _ (List.getElem_mem i.isLt)
    rw [h.row_problem, htake]
    rfl
  rw [importable, hall]
  exact List.map_getElem_finRange rows

/-- The import of a plan adds its profiles in order, after those that are there. -/
theorem import_rows_eq (h : Planned settings rows) :
    importRows settings rows =
      ({ settings with profiles := settings.profiles ++ rows.map ImportRow.addition },
        List.range' settings.profiles.length rows.length) := by
  have hadds : ∀ row ∈ rows, ∀ (s : Settings), importRow s row =
      ({ s with profiles := s.profiles ++ [row.addition] }, some s.profiles.length) := by
    intro row hrow s
    rw [importRow, h.replaces hrow, h.target_name hrow]
    rfl
  clear h
  induction rows generalizing settings with
  | nil => simp [importRows]
  | cons row rest ih =>
      rw [List.forall_mem_cons] at hadds
      rw [importRows, hadds.1]
      show ((importRows _ rest).1, [_] ++ (importRows _ rest).2) = _
      rw [ih hadds.2]
      simp only [List.length_append, List.length_cons, List.length_nil, List.map_cons,
        List.append_assoc, List.singleton_append, List.range'_succ]

end Planned

/-- If the settings and the incoming profiles together leave room, every name is found, no row of
the plan has a problem, and the import of the plan adds all the profiles in order, under names that
differ from each other and from those that are there. -/
theorem plan_applicable {incoming : List Profile} (settings : Settings)
    (hnames : ∀ p ∈ incoming, p.name.trim ≠ [])
    (hfew : settings.profiles.length + incoming.length ≤ 2 ^ 32 - 2) :
    ∃ rows, plan incoming settings = some rows ∧ rows.map ImportRow.profile = incoming ∧
      (∀ (i : Fin rows.length) (busy : Bool), rowProblem settings rows i busy = none) ∧
      (rows.map ImportRow.name).Nodup ∧
      (∀ row ∈ rows, row.name ∉ settings.profiles.map Profile.name) ∧
      ∀ busy, applyImport settings rows busy =
        ({ settings with profiles := settings.profiles ++ rows.map ImportRow.addition },
          List.range' settings.profiles.length rows.length) := by
  obtain ⟨rows, hrows, hprofiles, hplanned⟩ := plan_rows_planned hnames hfew
  refine ⟨rows, hrows, hprofiles, hplanned.row_problem, hplanned.distinct, hplanned.free,
    fun busy => ?_⟩
  rw [applyImport, hplanned.importable_eq]
  exact hplanned.import_rows_eq

/-- The second profile has the name that the first one would be given. -/
theorem plan_applicable_example :
    ∃ rows, plan [{}, { name := "Default 2".toList }, {}] {} = some rows ∧
      rows.map ImportRow.name =
        ["Default 2".toList, "Default 2 2".toList, "Default 3".toList] ∧
      applyImport {} rows true =
        ({ profiles := [{}, { name := "Default 2".toList }, { name := "Default 2 2".toList },
          { name := "Default 3".toList }] }, [1, 2, 3]) := by
  let incoming : List Profile := [{}, { name := "Default 2".toList }, {}]
  have hnames : ∀ p ∈ incoming, p.name.trim ≠ [] := by
    intro p hp
    have hall : (incoming.all fun p => p.name.trim ≠ []) = true := by decide
    simpa using List.all_eq_true.mp hall p hp
  obtain ⟨rows, hrows, -, -, -, -, himport⟩ := plan_applicable {} hnames (by decide)
  have hplan : plan incoming {} = some
      [⟨{}, true, "Default 2".toList, true, false⟩,
        ⟨{ name := "Default 2".toList }, true, "Default 2 2".toList, false, false⟩,
        ⟨{}, true, "Default 3".toList, true, false⟩] := by decide
  obtain rfl := Option.some.inj (hrows.symm.trans hplan)
  exact ⟨_, hrows, rfl, himport true⟩

end OpenNtrip
