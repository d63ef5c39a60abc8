import Mathlib.Data.List.InsertIdx
import Mathlib.Data.List.Nodup
import Mathlib.Data.List.Perm.Basic

/-!
# Lists whose entries are told apart by a key

An entry of such a list is addressed by its position or by its key. `inserted`, `erased` and
`moved` say where an edit takes the entry at a position, the `nodup` lemmas which edits keep the
keys distinct, and `position_eq` that with distinct keys the two ways to address an entry agree.
-/

namespace OpenNtrip.KeyedList

universe u v

variable {α : Type u} {κ : Type v}

/-! ## Positions -/

/-- Where the entry at `j` goes when another is inserted at `i`. -/
def inserted (i j : Nat) : Nat := if j < i then j else j + 1

/-- Where the entry at `j` goes when the one at `i` is removed. -/
def erased (i j : Nat) : Nat := if j < i then j else j - 1

/-- Where the entry at `j` goes when the one at `source` is moved to `target`. -/
def moved (source target j : Nat) : Nat :=
  if j = source then target else inserted target (erased source j)

theorem get_inserted (entries : List α) (i : Nat) (a : α) (j : Nat) :
    (entries.insertIdx i a)[inserted i j]? = entries[j]? := by
  unfold inserted
  split
  · next hlt => rw [List.getElem?_insertIdx_of_lt hlt]
  · next hge => rw [List.getElem?_insertIdx_of_gt (by omega), Nat.add_sub_cancel]

theorem get_erased {entries : List α} {i j : Nat} (h : j ≠ i) :
    (entries.eraseIdx i)[erased i j]? = entries[j]? := by
  unfold erased
  split
  · next hlt => rw [List.getElem?_eraseIdx_of_lt hlt]
  · next hge =>
      rw [List.getElem?_eraseIdx_of_ge (by omega)]
      congr 1
      omega

theorem get_moved {entries : List α} {source target : Nat} {a : α}
    (hsource : entries[source]? = some a) (htarget : target < entries.length) (j : Nat) :
    ((entries.eraseIdx source).insertIdx target a)[moved source target j]? = entries[j]? := by
  obtain ⟨hlt, -⟩ := List.getElem?_eq_some_iff.mp hsource
  have hlength := List.length_eraseIdx_of_lt hlt
  have hroom : target ≤ (entries.eraseIdx source).length := by omega
  unfold moved
  split
  · next heq => rw [heq, hsource, List.getElem?_insertIdx_self, if_pos hroom]
  · next hne => rw [get_inserted, get_erased hne]

/-- A move rearranges the list. -/
theorem perm_moved {entries : List α} {source target : Nat} {a : α}
    (hsource : entries[source]? = some a) (htarget : target < entries.length) :
    ((entries.eraseIdx source).insertIdx target a).Perm entries := by
  obtain ⟨hlt, ha⟩ := List.getElem?_eq_some_iff.mp hsource
  have hlength := List.length_eraseIdx_of_lt hlt
  have hroom : target ≤ (entries.eraseIdx source).length := by omega
  have hinsert := List.perm_insertIdx a (entries.eraseIdx source) hroom
  have herase := List.getElem_cons_eraseIdx_perm hlt
  rw [ha] at herase
  exact hinsert.trans herase

/-! ## Keys -/

variable (key : α → κ)

/-- An insertion under a free key keeps the keys distinct. -/
theorem nodup_inserted {entries : List α} {i : Nat} {a : α} (h : (entries.map key).Nodup)
    (hi : i ≤ entries.length) (hfree : key a ∉ entries.map key) :
    ((entries.insertIdx i a).map key).Nodup := by
  rw [((List.perm_insertIdx a entries hi).map key).nodup_iff, List.map_cons, List.nodup_cons]
  exact ⟨hfree, h⟩

theorem nodup_erased {entries : List α} (h : (entries.map key).Nodup) (i : Nat) :
    ((entries.eraseIdx i).map key).Nodup :=
  h.sublist ((List.eraseIdx_sublist entries i).map key)

theorem nodup_moved {entries : List α} {source target : Nat} {a : α}
    (h : (entries.map key).Nodup) (hsource : entries[source]? = some a)
    (htarget : target < entries.length) :
    (((entries.eraseIdx source).insertIdx target a).map key).Nodup :=
  ((perm_moved hsource htarget).map key).nodup_iff.mpr h

/-- An entry can be replaced by one whose key no other entry has. -/
theorem nodup_set {entries : List α} {i : Nat} {a : α} (h : (entries.map key).Nodup)
    (hother : ∀ j b, entries[j]? = some b → j ≠ i → key b ≠ key a) :
    ((entries.set i a).map key).Nodup := by
  rw [List.nodup_iff_getElem?_ne_getElem?] at h ⊢
  intro j k hjk hk
  simp only [List.length_map, List.length_set] at hk
  have hget : ∀ m, m < entries.length → m ≠ i →
      ∃ b, entries[m]? = some b ∧ ((entries.set i a).map key)[m]? = some (key b) := by
    intro m hm hne
    exact ⟨entries[m], List.getElem?_eq_getElem hm, by
      rw [List.getElem?_map, List.getElem?_set_ne (Ne.symm hne), List.getElem?_eq_getElem hm]
      rfl⟩
  have hself : i < entries.length → ((entries.set i a).map key)[i]? = some (key a) := by
    intro hi
    rw [List.getElem?_map, List.getElem?_set_self hi]
    rfl
  by_cases hj : j = i
  · obtain ⟨b, hb, hkb⟩ := hget k hk (by omega)
    rw [hj, hself (by omega), hkb]
    exact fun heq => hother k b hb (by omega) (Option.some.inj heq).symm
  · obtain ⟨b, hb, hjb⟩ := hget j (by omega) hj
    by_cases hki : k = i
    · rw [hjb, hki, hself (by omega)]
      exact fun heq => hother j b hb hj (Option.some.inj heq)
    · obtain ⟨c, hc, hkc⟩ := hget k hk hki
      rw [hjb, hkc]
      have hne := h j k hjk (by simpa using hk)
      rwa [List.getElem?_map, List.getElem?_map, hb, hc] at hne

/-- An entry is replaced by one with the same key. -/
theorem map_set_same {entries : List α} {i : Nat} {a b : α} (hb : entries[i]? = some b)
    (hkey : key a = key b) : (entries.set i a).map key = entries.map key := by
  obtain ⟨hlt, rfl⟩ := List.getElem?_eq_some_iff.mp hb
  refine List.ext_getElem (by simp) fun j hj _ => ?_
  simp only [List.getElem_map, List.getElem_set]
  split
  · next heq =>
      subst heq
      exact hkey
  · rfl

variable [DecidableEq κ]

/-- The position of the first entry with a key, the start of the list if there is none. -/
def position (entries : List α) (k : κ) : Nat := (entries.findIdx? (key · = k)).getD 0

/-- A key of the list is that of the entry at its position. -/
theorem get_position {entries : List α} {k : κ} (h : k ∈ entries.map key) :
    ∃ a, entries[position key entries k]? = some a ∧ key a = k := by
  obtain ⟨a, ha, hk⟩ := List.mem_map.mp h
  have hsome : (entries.findIdx? (key · = k)).isSome := by
    rw [List.findIdx?_isSome, List.any_eq_true]
    exact ⟨a, ha, by simpa using hk⟩
  obtain ⟨i, hi⟩ := Option.isSome_iff_exists.mp hsome
  obtain ⟨hlt, hkey, -⟩ := List.findIdx?_eq_some_iff_getElem.mp hi
  refine ⟨entries[i], ?_, by simpa using hkey⟩
  rw [position, hi, Option.getD_some, List.getElem?_eq_getElem hlt]

/-- With distinct keys, an entry is at the position of its key. -/
theorem position_eq {entries : List α} (h : (entries.map key).Nodup) {i : Nat} {a : α}
    (ha : entries[i]? = some a) : position key entries (key a) = i := by
  obtain ⟨b, hb, hkey⟩ := get_position key (k := key a)
    (List.mem_map.mpr ⟨a, List.mem_of_getElem? ha, rfl⟩)
  obtain ⟨hlt, -⟩ := List.getElem?_eq_some_iff.mp hb
  by_contra hne
  have hget : (entries.map key)[position key entries (key a)]? = (entries.map key)[i]? := by
    rw [List.getElem?_map, List.getElem?_map, ha, hb]
    exact congrArg some hkey
  exact hne (h.getElem_inj_iff.mp (Option.some.inj (by
    rwa [List.getElem?_eq_getElem (by simpa using hlt), List.getElem?_eq_getElem (by
      simpa using (List.getElem?_eq_some_iff.mp ha).1)] at hget)))

/-! ## Lookup -/

/-- The entry of a key stays when one of another key is replaced under its own. -/
theorem find_set_ne {entries : List α} {i : Nat} {a b : α} {k : κ} (ha : entries[i]? = some a)
    (hsame : key b = key a) (hne : key a ≠ k) :
    (entries.set i b).find? (key · = k) = entries.find? (key · = k) := by
  induction entries generalizing i with
  | nil => rfl
  | cons head tail ih =>
      cases i with
      | zero =>
          obtain rfl := Option.some.inj ha
          rw [List.set_cons_zero, List.find?_cons_of_neg (by simpa [hsame] using hne),
            List.find?_cons_of_neg (by simpa using hne)]
      | succ i =>
          rw [List.set_cons_succ, List.find?_cons, List.find?_cons, ih ha]

/-- The entry of a key stays when one of another key is added. -/
theorem find_append_ne {entries : List α} {a : α} {k : κ} (hne : key a ≠ k) :
    (entries ++ [a]).find? (key · = k) = entries.find? (key · = k) := by
  rw [List.find?_append, List.find?_cons_of_neg (by simpa using hne), List.find?_nil,
    Option.or_none]

/-- With distinct keys, the lookup of a key finds the entry that has it. -/
theorem find_eq_some_iff {entries : List α} {k : κ} {a : α} (h : (entries.map key).Nodup) :
    entries.find? (key · = k) = some a ↔ a ∈ entries ∧ key a = k := by
  constructor
  · intro hfind
    exact ⟨List.mem_of_find?_eq_some hfind, by simpa using List.find?_some hfind⟩
  · rintro ⟨hmem, rfl⟩
    obtain ⟨b, hb⟩ : ∃ b, entries.find? (key · = key a) = some b := by
      rw [← Option.isSome_iff_exists, List.find?_isSome]
      exact ⟨a, hmem, by simp⟩
    have hkey : key b = key a := by simpa using List.find?_some hb
    rw [hb, List.inj_on_of_nodup_map h (List.mem_of_find?_eq_some hb) hmem hkey]

end OpenNtrip.KeyedList
