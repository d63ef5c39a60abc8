import OpenNtrip.App.ProfileFile
import OpenNtrip.Lib.StepSystem

/-!
# The profile store

The settings as a store that the operations of the Profiles window change, in any order and with
any arguments. `store_kept` says that the store stays well formed and that its active profile is
the same one until another is activated.
-/

namespace OpenNtrip

open StepSystem

/-- An operation with its arguments. -/
inductive ProfileOp where
  | addNamed (name : Text)
  | duplicateNamed (i : Nat) (name : Text)
  | saveAs (saved : Settings) (name : Text)
  | rename (i : Nat) (newName : Text)
  | activate (i : Nat)
  | remove (i : Nat)
  | moveProfile (source target : Nat)
  | applyImport (rows : List ImportRow) (busy : Bool)
  deriving DecidableEq, Repr

namespace ProfileOp

/-- The settings after an operation and whether it reports success. An import reports the profiles
that it imported, and refuses if there are none. -/
def apply (s : Settings) : ProfileOp → Option (Settings × Bool)
  | .addNamed name =>
    let (t, result) := OpenNtrip.addNamed s name
    some (t, result.toBool)
  | .duplicateNamed i name =>
    let (t, result) := OpenNtrip.duplicateNamed s i name
    some (t, result.toBool)
  | .saveAs saved name => (OpenNtrip.saveAs s saved name).map fun (t, result) => (t, result.toBool)
  | .rename i newName => OpenNtrip.rename s i newName
  | .activate i => some (OpenNtrip.activate s i)
  | .remove i => some (OpenNtrip.remove s i)
  | .moveProfile source target => some (OpenNtrip.moveProfile s source target)
  | .applyImport rows busy =>
    let (t, indices) := OpenNtrip.applyImport s rows busy
    some (t, !indices.isEmpty)

/-- Where an operation takes the profile at a position. -/
def goes (s : Settings) : ProfileOp → Nat → Nat
  | .duplicateNamed i _ => KeyedList.inserted (i + 1)
  | .saveAs _ _ => KeyedList.inserted (s.activeIndex + 1)
  | .remove i => KeyedList.erased i
  | .moveProfile source target => KeyedList.moved source target
  | _ => id

/-- Whether it gives the profile at a position another name, or removes it. -/
def relabels : ProfileOp → Nat → Bool
  | .rename i _, j => j = i
  | .remove i, j => j = i
  | _, _ => false

/-- Whether it may change the profile at a position: Save As restores the active one, an import
replaces those that its rows name. -/
def edits (s : Settings) (op : ProfileOp) (j : Nat) : Bool :=
  op.relabels j || match op with
    | .saveAs _ _ => j = s.activeIndex
    | .applyImport rows busy => (importable s rows busy).any fun row =>
        row.replaces && (s.profiles[j]?).map Profile.name = some row.targetName
    | _ => false

/-- Whether it makes another profile the active one. -/
def reactivates (s : Settings) : ProfileOp → Bool
  | .saveAs _ _ => true
  | .activate _ => true
  | .remove i => i = s.activeIndex
  | _ => false

/-- What an operation that succeeds does to the store. A profile that is renamed keeps its place and
everything but its name. -/
structure Carries (op : ProfileOp) (s t : Settings) : Prop where
  wellFormed : t.WellFormed
  names : ∀ j < s.profiles.length, op.relabels j = false →
    (t.profiles[op.goes s j]?).map Profile.name = (s.profiles[j]?).map Profile.name
  contents : ∀ j < s.profiles.length, op.edits s j = false →
    t.profiles[op.goes s j]? = s.profiles[j]?
  renamed : ∀ i newName, op = .rename i newName →
    ∃ p name, s.profiles[i]? = some p ∧ t.profiles[i]? = some { p with name }
  active : op.reactivates s = false → t.activeIndex = op.goes s s.activeIndex

/-- An operation succeeds, or it refuses and changes nothing. -/
def Settles (op : ProfileOp) (s : Settings) : Prop :=
  ∃ t accepted, op.apply s = some (t, accepted) ∧ (accepted = false → t = s) ∧
    (accepted = true → op.Carries s t)

variable {s t : Settings}

/-- A refusal that changes nothing settles. -/
theorem settles_refused {op : ProfileOp} (h : op.apply s = some (s, false)) : op.Settles s :=
  ⟨s, false, h, fun _ => rfl, by simp⟩

/-- A success that carries the store settles. -/
theorem settles_accepted {op : ProfileOp} (h : op.apply s = some (t, true))
    (hcarries : op.Carries s t) : op.Settles s :=
  ⟨t, true, h, by simp, fun _ => hcarries⟩

/-- The active profile is where its name is. -/
theorem active_index_kept {i : Nat} (hs : s.WellFormed) (ht : t.WellFormed)
    (hactive : t.activeProfile = s.activeProfile)
    (hname : (t.profiles[i]?).map Profile.name = (s.profiles[s.activeIndex]?).map Profile.name) :
    t.activeIndex = i := by
  obtain ⟨p, hp, hselected⟩ := hs.active_at
  rw [hp, Option.map_some] at hname
  obtain ⟨q, hq, hsame⟩ := Option.map_eq_some_iff.mp hname
  exact ht.active_index_eq hq (by rw [hsame, hselected, hactive])

/-- An operation that only adds a profile and rearranges the others carries the store. -/
theorem carries_of_contents {op : ProfileOp} (hs : s.WellFormed)
    (hop : ∀ i newName, op ≠ .rename i newName) (hnames : ProperNames t.profiles)
    (hactive : t.activeProfile = s.activeProfile)
    (hcontents : ∀ j < s.profiles.length, t.profiles[op.goes s j]? = s.profiles[j]?) :
    op.Carries s t := by
  obtain ⟨p, hp, hselected⟩ := hs.active_at
  obtain ⟨hlt, -⟩ := List.getElem?_eq_some_iff.mp hp
  have hkept := hcontents _ hlt
  have ht : t.WellFormed := by
    refine ⟨hnames, List.mem_map.mpr ⟨p, ?_, hselected.trans hactive.symm⟩⟩
    exact List.mem_of_getElem? (hkept.trans hp)
  refine ⟨ht, fun j hj _ => by rw [hcontents j hj], fun j hj _ => hcontents j hj,
    fun i newName hrename => absurd hrename (hop i newName), fun _ => ?_⟩
  exact active_index_kept hs ht hactive (by rw [hkept])

/-- Adding appends a profile, or refuses its name. -/
theorem settles_add_named (hs : s.WellFormed) (name : Text) : Settles (.addNamed name) s := by
  cases hcheck : checkName s none name with
  | error problem =>
      exact settles_refused (by simp [apply, OpenNtrip.addNamed, hcheck, Except.toBool])
  | ok stored =>
      obtain ⟨htrimmed, hpresent, hfree⟩ := check_name_new hcheck
      refine settles_accepted
        (t := { s with profiles := s.profiles ++ [{ name := stored }] })
        (by simp [apply, OpenNtrip.addNamed, hcheck, Except.toBool])
        (carries_of_contents hs (by simp) ?_ rfl fun j hj => List.getElem?_append_left hj)
      rw [← List.insertIdx_length_self]
      exact hs.names.inserted (Nat.le_refl _) htrimmed hpresent hfree

/-- A duplicate goes behind its source, or its name is refused. -/
theorem settles_duplicate_named (hs : s.WellFormed) (i : Nat) (name : Text) :
    Settles (.duplicateNamed i name) s := by
  cases hcheck : checkName s none name with
  | error problem =>
      exact settles_refused (by simp [apply, OpenNtrip.duplicateNamed, hcheck, Except.toBool])
  | ok stored =>
      obtain ⟨htrimmed, hpresent, hfree⟩ := check_name_new hcheck
      cases hsrc : s.profiles[i]? with
      | none =>
          exact settles_refused
            (by simp [apply, OpenNtrip.duplicateNamed, hcheck, hsrc, Except.toBool])
      | some src =>
          obtain ⟨hlt, -⟩ := List.getElem?_eq_some_iff.mp hsrc
          exact settles_accepted
            (t := { s with profiles := s.profiles.insertIdx (i + 1) { src with name := stored } })
            (by simp [apply, OpenNtrip.duplicateNamed, hcheck, hsrc, Except.toBool])
            (carries_of_contents hs (by simp) (hs.names.inserted hlt htrimmed hpresent hfree) rfl
              fun j _ => KeyedList.get_inserted _ _ _ _)

/-- A move rearranges the profiles, or refuses its ends. -/
theorem settles_move_profile (hs : s.WellFormed) (source target : Nat) :
    Settles (.moveProfile source target) s := by
  cases hsource : s.profiles[source]? with
  | none => exact settles_refused (by simp [apply, OpenNtrip.moveProfile, hsource])
  | some p =>
      by_cases hrefuse : s.profiles.length ≤ target ∨ source = target
      · exact settles_refused (by simp [apply, OpenNtrip.moveProfile, hsource, hrefuse])
      · have htarget : target < s.profiles.length := by omega
        exact settles_accepted
          (t := { s with profiles := (s.profiles.eraseIdx source).insertIdx target p })
          (by simp [apply, OpenNtrip.moveProfile, hsource, hrefuse])
          (carries_of_contents hs (by simp) (hs.names.moved hsource htarget) rfl
            fun j _ => KeyedList.get_moved hsource htarget j)

/-- The profile that Save As leaves at its source has the name of the current one. -/
theorem restored_name (saved : Settings) (current : Profile) :
    (restored saved current).name = current.name := by
  unfold restored
  split
  · next original hfind =>
      split
      · rfl
      · simpa using List.find?_some hfind
  · rfl

/-- Save As restores the active profile and activates the copy behind it. -/
theorem settles_save_as (hs : s.WellFormed) (saved : Settings) (name : Text) :
    Settles (.saveAs saved name) s := by
  cases hcheck : checkName s none name with
  | error problem =>
      exact settles_refused (by simp [apply, OpenNtrip.saveAs, hcheck, Except.toBool])
  | ok stored =>
      obtain ⟨htrimmed, hpresent, hfree⟩ := check_name_new hcheck
      obtain ⟨current, hcurrent, -⟩ := hs.active_at
      obtain ⟨hlt, -⟩ := List.getElem?_eq_some_iff.mp hcurrent
      let profiles := s.profiles.set s.activeIndex (restored saved current)
      have hsame := restored_name saved current
      have hnames : profiles.map Profile.name = s.profiles.map Profile.name :=
        KeyedList.map_set_same Profile.name hcurrent hsame
      have hlength : s.activeIndex + 1 ≤ profiles.length := by
        rw [List.length_set]
        omega
      refine settles_accepted
        (t := { s with
          profiles := profiles.insertIdx (s.activeIndex + 1) { current with name := stored }
          activeProfile := stored })
        (by simp [apply, OpenNtrip.saveAs, hcheck, hcurrent, Except.toBool, profiles])
        ⟨⟨?_, ?_⟩, fun j hj _ => ?_, fun j hj hedits => ?_, by simp, by simp [reactivates]⟩
      · exact (hs.names.set_same hcurrent hsame).inserted hlength htrimmed hpresent
          (by rw [hnames]; exact hfree)
      · refine List.mem_map.mpr ⟨{ current with name := stored }, ?_, rfl⟩
        exact (List.mem_insertIdx hlength).mpr (.inl rfl)
      · show (((profiles.insertIdx _ _)[KeyedList.inserted _ j]?).map Profile.name) = _
        rw [KeyedList.get_inserted, ← List.getElem?_map, hnames, List.getElem?_map]
      · show (profiles.insertIdx _ _)[KeyedList.inserted _ j]? = _
        have hj : j ≠ s.activeIndex := by
          simpa [edits, relabels] using hedits
        rw [KeyedList.get_inserted, List.getElem?_set_ne (Ne.symm hj)]

/-- Activating another profile moves the pointer alone. -/
theorem settles_activate (hs : s.WellFormed) (i : Nat) : Settles (.activate i) s := by
  cases hp : s.profiles[i]? with
  | none => exact settles_refused (by simp [apply, OpenNtrip.activate, hp])
  | some p =>
      by_cases hsame : s.activeProfile = p.name
      · exact settles_refused (by simp [apply, OpenNtrip.activate, hp, hsame])
      · have hmem : p.name ∈ s.profiles.map Profile.name :=
          List.mem_map_of_mem (List.mem_of_getElem? hp)
        exact settles_accepted (t := { s with activeProfile := p.name })
          (by simp [apply, OpenNtrip.activate, hp, hsame])
          ⟨⟨hs.names, hmem⟩, fun _ _ _ => rfl, fun _ _ _ => rfl, by simp, by simp [reactivates]⟩

/-- A rename keeps the place and the contents, and the pointer follows it. -/
theorem settles_rename (hs : s.WellFormed) {i : Nat} {newName : Text}
    (hdone : (apply s (.rename i newName)).isSome = true) : Settles (.rename i newName) s := by
  cases hp : s.profiles[i]? with
  | none => exact settles_refused (by simp [apply, OpenNtrip.rename, hp])
  | some p =>
      by_cases hblank : newName.trim = []
      · exact settles_refused (by simp [apply, OpenNtrip.rename, hp, hblank])
      · obtain ⟨name, hunique⟩ : ∃ name, uniqueName s newName (some i) = some name := by
          rw [← Option.isSome_iff_exists]
          simpa [apply, OpenNtrip.rename, hp, hblank] using hdone
        obtain ⟨htrimmed, hpresent, hfree⟩ := unique_name_some hunique
        obtain ⟨hlt, -⟩ := List.getElem?_eq_some_iff.mp hp
        have hother : ∀ j q, s.profiles[j]? = some q → j ≠ i → q.name ≠ name := by
          intro j q hq hj hname
          have htaken : s.taken (some i) name = true :=
            Settings.taken_iff.mpr ⟨j, q, hq, by simpa using hj, hname⟩
          simp [htaken] at hfree
        let active := if p.name = s.activeProfile then name else s.activeProfile
        have hkept : ∀ j, j ≠ i →
            (s.profiles.set i { p with name })[j]? = s.profiles[j]? := by
          intro j hj
          exact List.getElem?_set_ne (Ne.symm hj)
        have hself : (s.profiles.set i { p with name })[i]? = some { p with name } :=
          List.getElem?_set_self hlt
        obtain ⟨q, hq, hselected⟩ := hs.active_at
        -- The pointer follows the renamed profile, and the active one is where it was.
        have hactive : ∃ r, (s.profiles.set i { p with name })[s.activeIndex]? = some r ∧
            r.name = active := by
          by_cases hi : s.activeIndex = i
          · obtain rfl : p = q := by
              rw [hi, hp] at hq
              exact Option.some.inj hq
            exact ⟨_, by rw [hi, hself], by simp [active, hselected]⟩
          · have hne : p.name ≠ s.activeProfile := by
              rw [← hselected]
              exact fun heq => hi (hs.names.position_inj hp hq heq).symm
            exact ⟨q, by rw [hkept _ hi, hq], by simp [active, hne, hselected]⟩
        obtain ⟨r, hr, hname⟩ := hactive
        have ht : Settings.WellFormed
            { s with profiles := s.profiles.set i { p with name }, activeProfile := active } :=
          ⟨hs.names.set htrimmed hpresent hother,
            List.mem_map.mpr ⟨r, List.mem_of_getElem? hr, hname⟩⟩
        refine settles_accepted
          (t := { s with
            profiles := s.profiles.set i { p with name }
            activeProfile := active })
          (by simp [apply, OpenNtrip.rename, hp, hblank, hunique, active])
          ⟨ht, fun j _ hj => ?_, fun j _ hj => ?_, ?_, fun _ => ht.active_index_eq hr hname⟩
        · exact congrArg (Option.map Profile.name) (hkept j (by simpa [relabels] using hj))
        · exact hkept j (by simpa [edits, relabels] using hj)
        · rintro _ _ ⟨⟩
          exact ⟨p, name, hp, hself⟩

/-- The last profile stays, and the pointer leaves a removed one. -/
theorem settles_remove (hs : s.WellFormed) (i : Nat) : Settles (.remove i) s := by
  cases hp : s.profiles[i]? with
  | none => exact settles_refused (by simp [apply, OpenNtrip.remove, hp])
  | some p =>
      by_cases hlast : s.profiles.length ≤ 1
      · exact settles_refused (by simp [apply, OpenNtrip.remove, hp, hlast])
      · obtain ⟨hlt, -⟩ := List.getElem?_eq_some_iff.mp hp
        have hlength := List.length_eraseIdx_of_lt hlt
        obtain ⟨q, hq, hselected⟩ := hs.active_at
        let active := if p.name = s.activeProfile then
          ((s.profiles.eraseIdx i).head?.map Profile.name).getD s.activeProfile
          else s.activeProfile
        have hkept : ∀ j, j ≠ i →
            (s.profiles.eraseIdx i)[KeyedList.erased i j]? = s.profiles[j]? :=
          fun j => KeyedList.get_erased
        have hmem : active ∈ (s.profiles.eraseIdx i).map Profile.name := by
          by_cases hremoved : p.name = s.activeProfile
          · -- The first remaining profile becomes the active one.
            obtain ⟨first, rest, hrest⟩ := List.exists_cons_of_length_pos
              (l := s.profiles.eraseIdx i) (by omega)
            simp [active, hremoved, hrest]
          · have hne : s.activeIndex ≠ i := by
              intro hi
              rw [hi, hp] at hq
              exact hremoved (by rw [Option.some.inj hq, hselected])
            simp only [active, hremoved, if_false]
            exact List.mem_map.mpr
              ⟨q, List.mem_of_getElem? ((hkept _ hne).trans hq), hselected⟩
        have ht : Settings.WellFormed
            { s with profiles := s.profiles.eraseIdx i, activeProfile := active } :=
          ⟨hs.names.erased i, hmem⟩
        refine settles_accepted
          (t := { s with profiles := s.profiles.eraseIdx i, activeProfile := active })
          (by simp [apply, OpenNtrip.remove, hp, hlast, active])
          ⟨ht, fun j _ hj => ?_, fun j _ hj => ?_, by simp, fun hstays => ?_⟩
        · exact congrArg (Option.map Profile.name) (hkept j (by simpa [relabels] using hj))
        · exact hkept j (by simpa [edits, relabels] using hj)
        · have hne : s.activeIndex ≠ i := by
            simpa [reactivates, eq_comm] using hstays
          have hremoved : p.name ≠ s.activeProfile := by
            rw [← hselected]
            exact fun heq => hne (hs.names.position_inj hp hq heq).symm
          refine active_index_kept hs ht (by simp [active, hremoved]) ?_
          exact congrArg (Option.map Profile.name) (hkept _ hne)

/-- An import that adds or replaces nothing is a refusal. -/
theorem settles_apply_import (hs : s.WellFormed) (rows : List ImportRow) (busy : Bool) :
    Settles (.applyImport rows busy) s := by
  obtain ⟨htargets, hadded⟩ := importable_targets s rows busy
  have himported := import_rows_imported hs.names htargets hadded
  cases hindices : (OpenNtrip.applyImport s rows busy).2 with
  | nil =>
      have hsame : (OpenNtrip.applyImport s rows busy).1 = s := import_rows_refused hindices
      exact settles_refused (by simp [apply, hindices, hsame])
  | cons index indices =>
      obtain ⟨q, hq, -⟩ := hs.active_at
      obtain ⟨hlt, -⟩ := List.getElem?_eq_some_iff.mp hq
      have ht : Settings.WellFormed (OpenNtrip.applyImport s rows busy).1 :=
        himported.well_formed hs
      refine settles_accepted (t := (OpenNtrip.applyImport s rows busy).1)
        (by simp [apply, hindices])
        ⟨ht, fun j hj _ => himported.kept j hj, fun j hj hedits => ?_, by simp, fun _ => ?_⟩
      · refine himported.contents j hj fun row hrow hreplaces heq => ?_
        have hedited : edits s (.applyImport rows busy) j = true := by
          simp only [edits, relabels, Bool.false_or, List.any_eq_true]
          exact ⟨row, hrow, by simp [hreplaces, heq]⟩
        simp [hedited] at hedits
      · exact active_index_kept hs ht himported.activeProfile (himported.kept _ hlt)

/-- An operation that does not panic settles. -/
theorem settles_of_apply (hs : s.WellFormed) {op : ProfileOp}
    (hdone : (op.apply s).isSome = true) : op.Settles s := by
  cases op with
  | addNamed name => exact settles_add_named hs name
  | duplicateNamed i name => exact settles_duplicate_named hs i name
  | saveAs saved name => exact settles_save_as hs saved name
  | rename i newName => exact settles_rename hs hdone
  | activate i => exact settles_activate hs i
  | remove i => exact settles_remove hs i
  | moveProfile source target => exact settles_move_profile hs source target
  | applyImport rows busy => exact settles_apply_import hs rows busy

/-- With room for a free suffix no operation panics, and every one settles. -/
theorem settles (hs : s.WellFormed) (hfew : s.profiles.length < 2 ^ 32 - 2) (op : ProfileOp) :
    op.Settles s := by
  refine settles_of_apply hs ?_
  cases op with
  | saveAs saved name =>
      obtain ⟨t, accepted, happly, -⟩ := settles_save_as hs saved name
      rw [happly]
      rfl
  | rename i newName =>
      obtain ⟨name, hunique, -⟩ := unique_name_ok hfew newName (some i)
      rw [apply, OpenNtrip.rename, hunique]
      split
      · rfl
      · split
        · rfl
        · rfl
  | addNamed | duplicateNamed | activate | remove | moveProfile | applyImport => rfl

/-- The store takes an operation as its step. -/
def next (s : Settings) (op : ProfileOp) : Option Settings := (op.apply s).map Prod.fst

/-- The store has room for another profile, so that a free suffix is always found. -/
def fewProfiles (s : Settings) (_ : ProfileOp) : Bool := s.profiles.length < 2 ^ 32 - 2

/-- After every sequence of operations the store is well formed, and the next operation either
refuses and changes nothing or succeeds and carries the store: the profiles go where they should,
and so does the active one unless another is activated. -/
theorem store_kept (hs : s.WellFormed) (h : Reachable next fewProfiles s t) :
    t.WellFormed ∧ (t.profiles.length < 2 ^ 32 - 2 → ∀ op : ProfileOp, op.Settles t) := by
  have ht : t.WellFormed := by
    refine h.invariant hs fun u op u' hu hfew hnext => ?_
    obtain ⟨v, accepted, happly, hrefused, haccepted⟩ := settles hu (by
      simpa [fewProfiles] using hfew) op
    rw [next, happly, Option.map_some] at hnext
    obtain rfl := Option.some.inj hnext
    cases accepted with
    | false => exact (hrefused rfl) ▸ hu
    | true => exact (haccepted rfl).wellFormed
  exact ⟨ht, fun hfew op => settles ht hfew op⟩

/-- The default settings, with a second profile that is renamed to the name of the first, activated
and kept while the first is removed. -/
theorem store_kept_example :
    ∃ t, Reachable next fewProfiles {} t ∧ t.activeProfile = "Default 2".toList ∧
      t.WellFormed := by
  obtain ⟨t, hreach, ht⟩ := reachable_of_exec next fewProfiles {}
    [.addNamed " Rig ".toList, .rename 1 "Default".toList, .activate 1, .remove 0]
    (p := fun t => t.activeProfile = "Default 2".toList) (by decide)
  exact ⟨t, hreach, of_decide_eq_true ht, (store_kept .default hreach).1⟩

end ProfileOp
end OpenNtrip
