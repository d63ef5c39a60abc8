import Mathlib.Data.List.Basic
import Mathlib.Logic.Function.Basic

/-!
# One receiver and many senders

Senders put messages into one channel, each in the order of its script, and one receiver takes them
in the order of the channel. `saying` is what a sender says in all: what was taken, what is in the
channel and what is still to be sent. No step changes it (`saying_eq`, `take_saying`), so that a
sender whose last message was taken has nothing left (`finished`).
-/

namespace OpenNtrip

universe u v

/-- A channel with the scripts of its senders, and what was taken from it. -/
structure Mailbox (κ : Type u) (ε : Type v) where
  pending : κ → List ε
  channel : List (κ × ε)
  taken : List (κ × ε)

namespace Mailbox

variable {κ : Type u} {ε : Type v} [DecidableEq κ]

/-- Nothing was sent, and nobody has anything to say. -/
def empty : Mailbox κ ε where
  pending := fun _ => []
  channel := []
  taken := []

/-- The messages of a sender. -/
def sentBy (k : κ) (messages : List (κ × ε)) : List ε :=
  messages.filterMap fun m => if m.1 = k then some m.2 else none

@[simp] theorem sent_by_nil (k : κ) : sentBy k ([] : List (κ × ε)) = [] := rfl

@[simp] theorem sent_by_append (k : κ) (first second : List (κ × ε)) :
    sentBy k (first ++ second) = sentBy k first ++ sentBy k second :=
  List.filterMap_append

@[simp] theorem sent_by_self (k : κ) (e : ε) (rest : List (κ × ε)) :
    sentBy k ((k, e) :: rest) = e :: sentBy k rest := by
  simp [sentBy]

/-- A message of another sender does not count. -/
theorem sent_by_other {k j : κ} (h : j ≠ k) (e : ε) (rest : List (κ × ε)) :
    sentBy k ((j, e) :: rest) = sentBy k rest := by
  simp [sentBy, h]

/-- A sender gets a script. -/
def load (m : Mailbox κ ε) (k : κ) (script : List ε) : Mailbox κ ε :=
  { m with pending := Function.update m.pending k script }

/-- A sender sends the next message of its script. -/
def send (m : Mailbox κ ε) (k : κ) : Mailbox κ ε :=
  match m.pending k with
  | [] => m
  | e :: rest =>
    { m with pending := Function.update m.pending k rest, channel := m.channel ++ [(k, e)] }

/-- A message of a sender that has no script. -/
def post (m : Mailbox κ ε) (k : κ) (e : ε) : Mailbox κ ε :=
  { m with channel := m.channel ++ [(k, e)] }

/-- The receiver takes the next message. -/
def take (m : Mailbox κ ε) : Option ((κ × ε) × Mailbox κ ε) :=
  match m.channel with
  | [] => none
  | e :: rest => some (e, { m with channel := rest, taken := m.taken ++ [e] })

/-- What a sender has left: what is in the channel and what it still has to send. -/
def left (m : Mailbox κ ε) (k : κ) : List ε := sentBy k m.channel ++ m.pending k

/-- All that a sender says. -/
def saying (m : Mailbox κ ε) (k : κ) : List ε := sentBy k m.taken ++ m.left k

variable {m : Mailbox κ ε}

/-- Sending moves a message from the script to the channel, where it is still left. -/
theorem send_left (j k : κ) : (m.send j).left k = m.left k := by
  unfold send left
  cases hpending : m.pending j with
  | nil => rfl
  | cons e rest =>
      by_cases h : j = k
      · subst h
        simp [hpending]
      · simp [sent_by_other h, Function.update_of_ne (Ne.symm h)]

/-- Sending takes nothing. -/
theorem send_taken (j : κ) : (m.send j).taken = m.taken := by
  unfold send
  cases m.pending j with
  | nil => rfl
  | cons e rest => rfl

/-- A message without a script is left to its own sender alone. -/
theorem post_left {j k : κ} (h : j ≠ k) (e : ε) : (m.post j e).left k = m.left k := by
  simp [post, left, sent_by_other h]

/-- A step that takes nothing and leaves a sender what it has left changes nothing that it says. -/
theorem saying_eq {m' : Mailbox κ ε} {k : κ} (hleft : m'.left k = m.left k)
    (htaken : m'.taken = m.taken) : m'.saying k = m.saying k := by
  rw [saying, saying, hleft, htaken]

/-- A sender that had nothing left has its script left. -/
theorem load_left_self (k : κ) (script : List ε) (h : m.left k = []) :
    (m.load k script).left k = script := by
  have hchannel : sentBy k m.channel = [] := (List.append_eq_nil_iff.mp h).1
  simp [load, left, hchannel]

/-- No other sender gets anything from a script. -/
theorem load_left_other {j k : κ} (h : j ≠ k) (script : List ε) :
    (m.load j script).left k = m.left k := by
  simp [load, left, Function.update_of_ne (Ne.symm h)]

omit [DecidableEq κ] in
/-- What is taken is the head of the channel. -/
theorem take_some {m' : Mailbox κ ε} {message : κ × ε} (h : m.take = some (message, m')) :
    m.channel = message :: m'.channel ∧ m'.taken = m.taken ++ [message] ∧
      m'.pending = m.pending := by
  unfold take at h
  cases hchannel : m.channel with
  | nil => simp [hchannel] at h
  | cons e rest =>
      simp only [hchannel, Option.some.injEq, Prod.mk.injEq] at h
      obtain ⟨rfl, rfl⟩ := h
      exact ⟨rfl, rfl, rfl⟩

/-- Taking a message leaves its sender one less, and every other what it had. -/
theorem take_left {m' : Mailbox κ ε} {k : κ} {e : ε} (h : m.take = some ((k, e), m')) :
    m.left k = e :: m'.left k ∧ ∀ j, k ≠ j → m.left j = m'.left j := by
  obtain ⟨hchannel, -, hpending⟩ := take_some h
  refine ⟨?_, fun j hne => ?_⟩
  · rw [left, hchannel, sent_by_self, left, hpending]
    rfl
  · rw [left, hchannel, sent_by_other hne, left, hpending]

/-- Taking a message changes what no sender says. -/
theorem take_saying {m' : Mailbox κ ε} {message : κ × ε} (h : m.take = some (message, m'))
    (k : κ) : m'.saying k = m.saying k := by
  obtain ⟨hchannel, htaken, hpending⟩ := take_some h
  rw [saying, saying, left, left, htaken, hpending, hchannel, sent_by_append, List.append_assoc,
    ← List.append_assoc (sentBy k [message]), ← sent_by_append]
  rfl

/-- A sender that ends with a last message has nothing left once that is taken. -/
theorem finished {m' : Mailbox κ ε} {k : κ} {e : ε} {last : ε → Bool}
    (h : m.take = some ((k, e), m'))
    (hlast : (m.saying k).Pairwise fun first _ => last first = false) (he : last e = true) :
    m'.left k = [] := by
  have hleft := (take_left h).1
  have hpairwise : (m.left k).Pairwise fun first _ => last first = false :=
    hlast.sublist (List.sublist_append_right _ _)
  rw [hleft] at hpairwise
  have hnone := (List.pairwise_cons.mp hpairwise).1
  cases hrest : m'.left k with
  | nil => rfl
  | cons next rest =>
      have hfalse := hnone next (by rw [hrest]; exact List.mem_cons_self)
      rw [he] at hfalse
      exact absurd hfalse (by simp)

end Mailbox
end OpenNtrip
