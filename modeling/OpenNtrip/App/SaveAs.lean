import OpenNtrip.App.ProfileStore

/-!
# Save As and the saved settings

`save_as` takes the saved version of the active profile by its name. Here every profile carries
where it was in the saved settings, and the edits of the profiles move that along with it.
`save_as_restores_iff` says when the version that Save As takes is that of the same profile.
-/

namespace OpenNtrip

open StepSystem

/-- A change of the settings: the fields of a profile other than its name, or an operation on the
profiles. -/
inductive ProfileEdit where
  | fields (i : Nat) (contents : Profile)
  | operation (op : ProfileOp)
  deriving DecidableEq, Repr

/-- The profile at a position gets new contents under its name. -/
def setFields (settings : Settings) (i : Nat) (contents : Profile) : Settings :=
  { settings with
    profiles := settings.profiles.modify i fun p => { contents with name := p.name } }

/-- How an operation that succeeds rearranges the profiles, and with them whatever goes with a
profile. A profile that it adds comes with `new`. -/
def ProfileOp.rearrange {α : Type} (new : α) (entries : List α) : ProfileOp → List α
  | .addNamed _ => entries ++ [new]
  | .duplicateNamed i _ => entries.insertIdx (i + 1) new
  | .remove i => entries.eraseIdx i
  | .moveProfile source target =>
    match entries[source]? with
    | none => entries
    | some entry => (entries.eraseIdx source).insertIdx target entry
  | _ => entries

/-- Settings with the position that each profile had in the saved ones. A profile that was added
since then had none. -/
structure Tracked where
  settings : Settings
  origins : List (Option Nat)
  deriving DecidableEq, Repr

namespace Tracked

/-- The settings as they are saved. -/
def start (saved : Settings) : Tracked :=
  { settings := saved, origins := (List.range saved.profiles.length).map some }

def next (t : Tracked) : ProfileEdit → Option Tracked
  | .fields i contents => some { t with settings := setFields t.settings i contents }
  | .operation op =>
    (op.apply t.settings).map fun (settings, accepted) =>
      { settings, origins := if accepted then op.rearrange none t.origins else t.origins }

/-- The edits between two saves. -/
def edits (_ : Tracked) : ProfileEdit → Bool
  | .operation (.saveAs _ _) => false
  | .operation (.applyImport _ _) => false
  | _ => true

end Tracked

/-- The version that a profile has in the saved settings: its contents there, if it was there under
the name it has now, and what it is now otherwise. -/
def ownVersion (saved : Settings) (origin : Option Nat) (current : Profile) : Profile :=
  match origin.bind (saved.profiles[·]?) with
  | some original => if original.name = current.name then original else current
  | none => current

/-- What Save As is for: the contents of the active profile go to a new one, which becomes active,
the source goes back to its own saved version, and nothing else changes. -/
structure SavedAs (saved settings : Settings) (current : Profile) (origin : Option Nat)
    (name : Text) (result : Settings) : Prop where
  made : result.profiles[settings.activeIndex + 1]? = some { current with name := name.trim }
  active : result.activeProfile = name.trim
  source : result.profiles[settings.activeIndex]? = some (ownVersion saved origin current)
  others : ∀ j ≠ settings.activeIndex,
    result.profiles[KeyedList.inserted (settings.activeIndex + 1) j]? = settings.profiles[j]?
  rest : result =
    { settings with profiles := result.profiles, activeProfile := result.activeProfile }

/-! ## What goes with a profile -/

variable {s t : Settings}

theorem length_rearrange {α β : Type} {entries : List α} {others : List β}
    (h : entries.length = others.length) (a : α) (b : β) (op : ProfileOp) :
    (op.rearrange a entries).length = (op.rearrange b others).length := by
  cases op with
  | addNamed name => simp only [ProfileOp.rearrange, List.length_append, h, List.length_singleton]
  | duplicateNamed i name => simp only [ProfileOp.rearrange, List.length_insertIdx, h]
  | remove i => simp only [ProfileOp.rearrange, List.length_eraseIdx, h]
  | moveProfile source target =>
      by_cases hlt : source < entries.length
      · simp only [ProfileOp.rearrange, List.getElem?_eq_getElem hlt,
          List.getElem?_eq_getElem (h ▸ hlt), List.length_insertIdx, List.length_eraseIdx, h]
      · simp only [ProfileOp.rearrange, List.getElem?_eq_none (Nat.le_of_not_lt hlt),
          List.getElem?_eq_none (h ▸ Nat.le_of_not_lt hlt), h]
  | saveAs | rename | activate | applyImport => exact h

/-- An edit that succeeds rearranges the profiles. -/
theorem length_apply {op : ProfileOp} (hedit : Tracked.edits ⟨s, []⟩ (.operation op) = true)
    (h : op.apply s = some (t, true)) (new : Profile) :
    t.profiles.length = (op.rearrange new s.profiles).length := by
  cases op with
  | addNamed name =>
      simp only [ProfileOp.apply, addNamed] at h
      split at h
      · simp [Except.toBool] at h
      · obtain ⟨rfl, -⟩ := Prod.mk.inj (Option.some.inj h)
        simp only [ProfileOp.rearrange, List.length_append, List.length_singleton]
  | duplicateNamed i name =>
      simp only [ProfileOp.apply, duplicateNamed] at h
      split at h
      · simp [Except.toBool] at h
      · split at h
        · simp [Except.toBool] at h
        · obtain ⟨rfl, -⟩ := Prod.mk.inj (Option.some.inj h)
          simp only [ProfileOp.rearrange, List.length_insertIdx]
  | rename i newName =>
      simp only [ProfileOp.apply, rename] at h
      split at h
      · simp at h
      · split at h
        · simp at h
        · obtain ⟨name, -, heq⟩ := Option.map_eq_some_iff.mp h
          obtain ⟨rfl, -⟩ := Prod.mk.inj heq
          simp only [ProfileOp.rearrange, List.length_set]
  | activate i =>
      simp only [ProfileOp.apply, activate] at h
      split at h
      · simp at h
      · split at h
        · simp at h
        · obtain ⟨rfl, -⟩ := Prod.mk.inj (Option.some.inj h)
          rfl
  | remove i =>
      simp only [ProfileOp.apply, remove] at h
      split at h
      · simp at h
      · split at h
        · simp at h
        · obtain ⟨rfl, -⟩ := Prod.mk.inj (Option.some.inj h)
          rfl
  | moveProfile source target =>
      simp only [ProfileOp.apply, moveProfile] at h
      split at h
      · simp at h
      · next p hp =>
          split at h
          · simp at h
          · obtain ⟨rfl, -⟩ := Prod.mk.inj (Option.some.inj h)
            simp only [ProfileOp.rearrange, hp]
  | saveAs | applyImport => exact absurd hedit Bool.false_ne_true

/-- New contents leave the names as they are. -/
theorem names_set_fields (settings : Settings) (i : Nat) (contents : Profile) :
    (setFields settings i contents).profiles.map Profile.name =
      settings.profiles.map Profile.name := by
  refine List.ext_getElem? fun j => ?_
  show ((settings.profiles.modify i _).map Profile.name)[j]? = _
  rw [List.getElem?_map, List.getElem?_modify, List.getElem?_map]
  cases settings.profiles[j]? with
  | none => rfl
  | some p =>
      show some (if i = j then { contents with name := p.name } else p).name = some p.name
      split
      · rfl
      · rfl

/-- The settings are well formed and every profile has its origin. -/
structure Aligned (t : Tracked) : Prop where
  wellFormed : t.settings.WellFormed
  length : t.origins.length = t.settings.profiles.length

/-- An edit keeps the origins with the profiles. -/
theorem Aligned.next {t t' : Tracked} {edit : ProfileEdit} (h : Aligned t)
    (hedit : t.edits edit = true) (hnext : t.next edit = some t') : Aligned t' := by
  cases edit with
  | fields i contents =>
      obtain rfl := Option.some.inj hnext
      have hnames := names_set_fields t.settings i contents
      refine ⟨⟨h.wellFormed.names.of_names hnames, ?_⟩, ?_⟩
      · rw [hnames]
        exact h.wellFormed.active
      · rw [h.length, ← List.length_map Profile.name, ← hnames, List.length_map]
  | operation op =>
      obtain ⟨⟨settings, accepted⟩, happly, heq⟩ := Option.map_eq_some_iff.mp hnext
      obtain rfl := heq
      obtain ⟨settings', accepted', happly', hrefused, haccepted⟩ :=
        ProfileOp.settles_of_apply h.wellFormed (Option.isSome_of_eq_some happly)
      obtain ⟨rfl, rfl⟩ := Prod.mk.inj (Option.some.inj (happly.symm.trans happly'))
      cases accepted with
      | false =>
          obtain rfl := hrefused rfl
          exact h
      | true =>
          refine ⟨(haccepted rfl).wellFormed, ?_⟩
          show (op.rearrange none t.origins).length = settings.profiles.length
          rw [length_apply hedit happly {}]
          exact length_rearrange h.length _ _ _

theorem aligned_reachable {saved : Settings} {t : Tracked} (hsaved : saved.WellFormed)
    (hrun : Reachable Tracked.next Tracked.edits (.start saved) t) : Aligned t := by
  have hstart : Aligned (.start saved) :=
    ⟨hsaved, by simp only [Tracked.start, List.length_map, List.length_range]⟩
  exact hrun.invariant hstart fun _ _ _ h hedit hnext => h.next hedit hnext

/-! ## Save As -/

/-- What a Save As that succeeds yields. -/
theorem save_as_ok {settings saved result : Settings} {name : Text} {i : Nat}
    (h : saveAs settings saved name = some (result, .ok i)) :
    ∃ current, settings.profiles[settings.activeIndex]? = some current ∧
      i = settings.activeIndex + 1 ∧
      result = { settings with
        profiles :=
          (settings.profiles.set settings.activeIndex (restored saved current)).insertIdx
            (settings.activeIndex + 1) { current with name := name.trim }
        activeProfile := name.trim } := by
  unfold saveAs at h
  split at h
  · simp at h
  · next stored hcheck =>
      obtain ⟨rfl, -, -⟩ := check_name_ok hcheck
      dsimp only at h
      split at h
      · simp at h
      · next current hcurrent =>
          obtain ⟨rfl, hi⟩ := Prod.mk.inj (Option.some.inj h)
          exact ⟨current, hcurrent, (Except.ok.inj hi).symm, rfl⟩

/-- Save As does what it is for exactly if it takes the right version back. -/
theorem saved_as_iff {settings saved result : Settings} {current : Profile}
    {origin : Option Nat} {name : Text}
    (hcurrent : settings.profiles[settings.activeIndex]? = some current)
    (hresult : result = { settings with
      profiles :=
        (settings.profiles.set settings.activeIndex (restored saved current)).insertIdx
          (settings.activeIndex + 1) { current with name := name.trim }
      activeProfile := name.trim }) :
    SavedAs saved settings current origin name result ↔
      restored saved current = ownVersion saved origin current := by
  obtain ⟨hlt, -⟩ := List.getElem?_eq_some_iff.mp hcurrent
  have hplace : ∀ j, result.profiles[KeyedList.inserted (settings.activeIndex + 1) j]? =
      (settings.profiles.set settings.activeIndex (restored saved current))[j]? := by
    rw [hresult]
    exact KeyedList.get_inserted _ _ _
  have hsource : result.profiles[settings.activeIndex]? = some (restored saved current) := by
    have hself := hplace settings.activeIndex
    rwa [KeyedList.inserted, if_pos (Nat.lt_succ_self _), List.getElem?_set_self hlt] at hself
  constructor
  · intro h
    exact Option.some.inj (hsource.symm.trans h.source)
  · intro h
    refine ⟨?_, by rw [hresult], hsource.trans (congrArg some h), fun j hj => ?_, by rw [hresult]⟩
    · rw [hresult, List.getElem?_insertIdx_self, if_pos (by rw [List.length_set]; exact hlt)]
    · rw [hplace, List.getElem?_set_ne hj.symm]

/-- The version found by name is the profile's own exactly if no other profile had the name, or the
one that had it was what the profile is now. -/
theorem restored_own_iff {saved : Settings} {current : Profile} {origin : Option Nat}
    (hsaved : saved.WellFormed) :
    restored saved current = ownVersion saved origin current ↔
      ∀ (k : Nat) (original : Profile), saved.profiles[k]? = some original →
        original.name = current.name → origin = some k ∨ original = current := by
  have hown : ∀ k original, saved.profiles[k]? = some original → original.name = current.name →
      ownVersion saved origin current = if origin = some k then original else current := by
    intro k original hk hname
    split
    · next heq =>
        simp only [ownVersion, heq, Option.bind_some, hk, hname, if_true]
    · next hne =>
        unfold ownVersion
        split
        · next other hother =>
            obtain ⟨j, rfl, hj⟩ := Option.bind_eq_some_iff.mp hother
            refine if_neg fun hsame => hne ?_
            rw [hsaved.names.position_inj hj hk (hsame.trans hname.symm)]
        · rfl
  cases hfind : saved.profiles.find? (·.name = current.name) with
  | none =>
      have hnone : ∀ original ∈ saved.profiles, original.name ≠ current.name := by
        simpa using List.find?_eq_none.mp hfind
      have hrestored : restored saved current = current := by
        rw [restored, hfind]
      have hkept : ownVersion saved origin current = current := by
        unfold ownVersion
        split
        · next other hother =>
            obtain ⟨j, -, hj⟩ := Option.bind_eq_some_iff.mp hother
            exact if_neg (hnone other (List.mem_of_getElem? hj))
        · rfl
      rw [hrestored, hkept]
      refine ⟨fun _ k original hk hname => ?_, fun _ => rfl⟩
      exact absurd hname (hnone original (List.mem_of_getElem? hk))
  | some original =>
      obtain ⟨hmem, hname⟩ :=
        (KeyedList.find_eq_some_iff Profile.name hsaved.names.distinct).mp hfind
      obtain ⟨k, hk⟩ := List.mem_iff_getElem?.mp hmem
      have hrestored : restored saved current = original := by
        simp only [restored, hfind]
        split
        · next heq =>
            simp only [Profile.eq, Bool.and_eq_true, beq_iff_eq] at heq
            exact heq.1.1.symm
        · rfl
      rw [hrestored, hown k original hk hname]
      constructor
      · intro h j other hj hother
        obtain rfl := hsaved.names.position_inj hj hk (hother.trans hname.symm)
        obtain rfl := Option.some.inj (hj.symm.trans hk)
        split at h
        · next heq => exact .inl heq
        · exact .inr h
      · intro h
        rcases h k original hk hname with heq | heq
        · rw [if_pos heq]
        · rw [heq, ite_self]

/-- After every sequence of edits, a Save As that succeeds does what it is for exactly if no
profile but the active one had, when the settings were saved, the name that the active one has now,
unless its contents then are those of the active one now. -/
theorem save_as_restores_iff {saved result : Settings} {t : Tracked} {name : Text} {i : Nat}
    (hsaved : saved.WellFormed)
    (hrun : Reachable Tracked.next Tracked.edits (.start saved) t)
    (hdone : saveAs t.settings saved name = some (result, .ok i)) :
    ∃ current origin, t.settings.profiles[t.settings.activeIndex]? = some current ∧
      current.name = t.settings.activeProfile ∧
      t.origins[t.settings.activeIndex]? = some origin ∧
      (SavedAs saved t.settings current origin name result ↔
        ∀ (k : Nat) (original : Profile), saved.profiles[k]? = some original →
          original.name = current.name → origin = some k ∨ original = current) := by
  have haligned := aligned_reachable hsaved hrun
  obtain ⟨current, hcurrent, hname⟩ := haligned.wellFormed.active_at
  obtain ⟨hlt, -⟩ := List.getElem?_eq_some_iff.mp hcurrent
  obtain ⟨current', hcurrent', -, hresult⟩ := save_as_ok hdone
  obtain rfl := Option.some.inj (hcurrent.symm.trans hcurrent')
  have horigin := List.getElem?_eq_getElem (haligned.length.symm ▸ hlt)
  refine ⟨current, _, hcurrent, hname, horigin, ?_⟩
  rw [saved_as_iff hcurrent hresult, restored_own_iff hsaved]

/-- Two saved profiles. -/
def twoSaved : Settings :=
  { activeProfile := "A".toList
    profiles := [{ name := "A".toList, host := "a".toList },
      { name := "B".toList, host := "b".toList }] }

/-- Profile B takes over the contents of profile A, which is gone and whose name it has now. -/
theorem save_as_takes_other_version :
    ¬ ∀ (saved result : Settings) (t : Tracked) (name : Text) (i : Nat) (current : Profile)
        (origin : Option Nat),
      saved.WellFormed → Reachable Tracked.next Tracked.edits (.start saved) t →
      saveAs t.settings saved name = some (result, .ok i) →
      t.settings.profiles[t.settings.activeIndex]? = some current →
      t.origins[t.settings.activeIndex]? = some origin →
      SavedAs saved t.settings current origin name result := by
  intro h
  let current : Profile := { name := "A".toList, host := "b".toList }
  let t : Tracked :=
    { settings := { twoSaved with profiles := [current] }, origins := [some 1] }
  have hexec : exec Tracked.next Tracked.edits (.start twoSaved)
      [.operation (.remove 0), .operation (.rename 0 "A".toList)] = some t := by decide
  have hdone : saveAs t.settings twoSaved "X".toList = some
      ({ twoSaved with
        profiles := [{ current with host := "a".toList }, { current with name := "X".toList }]
        activeProfile := "X".toList }, .ok 1) := by decide
  have hsource := (h twoSaved _ t _ 1 current (some 1) (by decide) (Reachable.refl.exec hexec) hdone
    (by decide) (by decide)).source
  exact absurd hsource (by decide)

/-- A profile whose contents were edited goes back to its saved version. -/
theorem save_as_restores_example :
    ∃ t result i current origin,
      Reachable Tracked.next Tracked.edits (.start twoSaved) t ∧
      saveAs t.settings twoSaved "X".toList = some (result, .ok i) ∧
      current.host = "c".toList ∧ origin = some 0 ∧
      SavedAs twoSaved t.settings current origin "X".toList result := by
  let current : Profile := { name := "A".toList, host := "c".toList }
  let t : Tracked :=
    { settings := { twoSaved with
        profiles := [current, { name := "B".toList, host := "b".toList }] }
      origins := [some 0, some 1] }
  have hexec : exec Tracked.next Tracked.edits (.start twoSaved)
      [.fields 0 { host := "c".toList }] = some t := by decide
  have hrun := Reachable.refl.exec hexec
  have hdone : saveAs t.settings twoSaved "X".toList = some
      ({ twoSaved with
        profiles := [{ current with host := "a".toList }, { current with name := "X".toList },
          { name := "B".toList, host := "b".toList }]
        activeProfile := "X".toList }, .ok 1) := by decide
  obtain ⟨p, origin, hp, -, horigin, hiff⟩ := save_as_restores_iff (by decide) hrun hdone
  obtain rfl : current = p := Option.some.inj hp
  obtain rfl : some 0 = origin := Option.some.inj horigin
  refine ⟨t, _, 1, current, some 0, hrun, hdone, rfl, rfl, hiff.mpr fun k original hk hname => ?_⟩
  have hnames : ProperNames twoSaved.profiles := by decide
  exact .inl (congrArg some (hnames.position_inj rfl hk hname.symm))

end OpenNtrip
