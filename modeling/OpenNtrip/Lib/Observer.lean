import Mathlib.Data.List.Basic
import Mathlib.Order.Basic

/-!
# Observers of a log

An observer reads a log entry by entry: `note` is its next state and `allows` what it demands of an
entry where it occurs. `Accepts` says that a log meets every demand. `Accepts.split` reads one
demand off an accepted log, and `Accepts.simulates` relates the observer to any other reader of the
same log. `Leads` says of a part of a log that it is accepted and where it leads, so that parts can
be put together.
-/

namespace OpenNtrip.Observer

universe u v w

variable {σ : Type u} {ε : Type v} (note : σ → ε → σ) (allows : σ → ε → Prop)

/-- Every entry of the log is allowed where it occurs. -/
def Accepts : σ → List ε → Prop
  | _, [] => True
  | s, e :: rest => allows s e ∧ Accepts (note s e) rest

variable {note allows}

/-- A log is accepted if its first part is, and the rest from where that leads. -/
theorem accepts_append {s : σ} {first second : List ε} :
    Accepts note allows s (first ++ second) ↔
      Accepts note allows s first ∧ Accepts note allows (first.foldl note s) second := by
  induction first generalizing s with
  | nil => simp [Accepts]
  | cons e rest ih => simp only [List.cons_append, Accepts, List.foldl_cons, ih, and_assoc]

/-- An entry of an accepted log is allowed behind the entries before it. -/
theorem Accepts.split {s : σ} {before after : List ε} {e : ε}
    (h : Accepts note allows s (before ++ e :: after)) : allows (before.foldl note s) e :=
  (accepts_append.mp h).2.1

/-- Another reader of an accepted log stays related to the observer if each allowed entry keeps the
relation. -/
theorem Accepts.simulates {τ : Type w} {apply : τ → ε → τ} {related : σ → τ → Prop}
    (hstep : ∀ s t e, related s t → allows s e → related (note s e) (apply t e)) {s : σ} {t : τ}
    {log : List ε} (h : Accepts note allows s log) (hst : related s t) :
    related (log.foldl note s) (log.foldl apply t) := by
  induction log generalizing s t with
  | nil => exact hst
  | cons e rest ih => exact ih h.2 (hstep s t e hst h.1)

/-- The readings of a measure along an accepted log are ordered, if every entry with a reading lies
above the measure before it and sets it, and no entry lowers the measure. -/
theorem Accepts.pairwise_le {ι : Type w} [Preorder ι] {measure : σ → ι} {reading : ε → Option ι}
    (hset : ∀ s e r, allows s e → reading e = some r → measure s ≤ r ∧ measure (note s e) = r)
    (hkeep : ∀ s e, reading e = none → measure s ≤ measure (note s e)) {s : σ} {log : List ε}
    (h : Accepts note allows s log) :
    (∀ r ∈ log.filterMap reading, measure s ≤ r) ∧
      (log.filterMap reading).Pairwise (· ≤ ·) := by
  induction log generalizing s with
  | nil => simp
  | cons e rest ih =>
      obtain ⟨hbound, hpairwise⟩ := ih h.2
      cases hreading : reading e with
      | none =>
          rw [List.filterMap_cons_none hreading]
          exact ⟨fun r hr => (hkeep s e hreading).trans (hbound r hr), hpairwise⟩
      | some r =>
          obtain ⟨hle, heq⟩ := hset s e r h.1 hreading
          rw [List.filterMap_cons_some hreading, List.pairwise_cons]
          rw [heq] at hbound
          refine ⟨?_, hbound, hpairwise⟩
          intro r' hr'
          rcases List.mem_cons.mp hr' with rfl | hr'
          · exact hle
          · exact hle.trans (hbound r' hr')

/-- An observer that looks out for a last entry, and allows nothing behind it. -/
theorem Accepts.pairwise_last {last : ε → Bool} {b : Bool} {log : List ε}
    (h : Accepts (fun b e => b || last e) (fun b _ => b = false) b log) :
    log.Pairwise fun e _ => last e = false := by
  induction log generalizing b with
  | nil => exact List.Pairwise.nil
  | cons e rest ih =>
      refine List.pairwise_cons.mpr ⟨fun e' he' => ?_, ih h.2⟩
      cases rest with
      | nil => exact absurd he' List.not_mem_nil
      | cons next rest => exact (Bool.or_eq_false_iff.mp h.2.1).2

/-! ## Parts of a log -/

/-- The log is accepted and leads to a state with a property. -/
def Leads (note : σ → ε → σ) (allows : σ → ε → Prop) (post : σ → Prop) (s : σ) (log : List ε) :
    Prop :=
  Accepts note allows s log ∧ post (log.foldl note s)

variable {post mid : σ → Prop} {s : σ}

/-- An empty log leads to where it starts. -/
theorem Leads.nil (h : post s) : Leads note allows post s [] := ⟨trivial, h⟩

/-- An entry that is allowed leads to what is noted of it. -/
theorem Leads.cons {e : ε} {rest : List ε} (hallows : allows s e)
    (h : Leads note allows post (note s e) rest) : Leads note allows post s (e :: rest) :=
  ⟨⟨hallows, h.1⟩, h.2⟩

/-- Logs in a row lead from one to the next. -/
theorem Leads.append {first second : List ε} (h : Leads note allows mid s first)
    (h' : ∀ t, mid t → Leads note allows post t second) :
    Leads note allows post s (first ++ second) := by
  obtain ⟨hfirst, hmid⟩ := h
  obtain ⟨hsecond, hpost⟩ := h' _ hmid
  refine ⟨accepts_append.mpr ⟨hfirst, hsecond⟩, ?_⟩
  rw [List.foldl_append]
  exact hpost

/-- What a log leads to may be weakened. -/
theorem Leads.imp {log : List ε} (h : Leads note allows mid s log) (h' : ∀ t, mid t → post t) :
    Leads note allows post s log :=
  ⟨h.1, h' _ h.2⟩

/-- Entries that are allowed and change nothing lead nowhere else. -/
theorem leads_quiet {log : List ε} (hquiet : ∀ e ∈ log, note s e = s ∧ allows s e) (h : post s) :
    Leads note allows post s log := by
  induction log with
  | nil => exact .nil h
  | cons e rest ih =>
      obtain ⟨hnote, hallows⟩ := hquiet e List.mem_cons_self
      refine .cons hallows ?_
      rw [hnote]
      exact ih fun e' he' => hquiet e' (List.mem_cons_of_mem _ he')

end OpenNtrip.Observer
