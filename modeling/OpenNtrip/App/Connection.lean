import OpenNtrip.App.NtripWorker
import OpenNtrip.NtripCore.GgaCadence

/-!
# One connection of the worker

What a dispatch and a turn of the loop do to the session: `dispatch_answers` says which calls a
dispatch makes, `turn_proceeds` which calls a turn makes. `drive_loop_invariant` is the induction
over the loop.
-/

namespace OpenNtrip

open NtripSession

namespace Worker

/-- Make several calls on the session, one after the other. -/
def callAll (w : Worker) (calls : List Call) : Worker × List Output :=
  ({ w with session := (run w.session calls).1, calls := w.calls ++ calls },
    (run w.session calls).2)

theorem call_all_nil (w : Worker) : w.callAll [] = (w, []) := by
  simp [callAll]

theorem call_eq_call_all (w : Worker) (c : Call) : w.call c = w.callAll [c] := by
  simp [call, callAll, run_cons]

/-- Calls in a row are made in a row, and their outputs follow each other. -/
theorem call_all_append (w : Worker) (first second : List Call) :
    w.callAll (first ++ second) =
      (((w.callAll first).1.callAll second).1,
        (w.callAll first).2 ++ ((w.callAll first).1.callAll second).2) := by
  simp [callAll, run_append]

/-! ## Dispatch -/

/-- The call that answers a position request. -/
def acknowledgement (w : Worker) (around : Surroundings) : Call :=
  if (sentence w.cx.job around).isSome && around.written then .ggaSent around.now
  else .ggaMissed around.now

/-- A position request is answered by one call, and concerns nothing but the session and the count
of the positions sent. -/
theorem on_gga_due_spec (w : Worker) (around : Surroundings) :
    ∃ posts ggaSent, w.onGgaDue around =
      ({ w with
          cx := w.cx.post posts
          conn := { w.conn with ggaSent } }.callAll [w.acknowledgement around]).1 := by
  unfold onGgaDue acknowledgement
  cases sentence w.cx.job around with
  | none => exact ⟨[], w.conn.ggaSent, by simp [call_eq_call_all, Cx.post]⟩
  | some sentence =>
      cases around.written with
      | false => exact ⟨[], w.conn.ggaSent, by simp [call_eq_call_all, Cx.post]⟩
      | true => exact ⟨[.gga sentence], w.conn.ggaSent + 1, by simp [call_eq_call_all]⟩

/-- What a worker answers to a due GGA is an acknowledgement. -/
theorem acknowledgement_is (w : Worker) (around : Surroundings) :
    (w.acknowledgement around).isAcknowledgement = true := by
  unfold acknowledgement
  split
  · rfl
  · rfl

/-- Corrections concern nothing but the totals and the deframer. -/
theorem on_corrections_session (w : Worker) (bytes : Bytes) (around : Surroundings) :
    (w.onCorrections bytes around).session = w.session ∧
      (w.onCorrections bytes around).calls = w.calls := by
  simp only [onCorrections, beginStream]
  split
  · exact ⟨rfl, rfl⟩
  · exact ⟨rfl, rfl⟩

/-- From `w` to `w'` the worker made one acknowledgement for each position request in `outs`, and no
other call. -/
def Answers (w w' : Worker) (outs : List Output) : Prop :=
  ∃ acks : List Call, (∀ call ∈ acks, call.isAcknowledgement = true) ∧
    acks.length = outs.count .ggaDue ∧ w'.calls = w.calls ++ acks ∧
    w'.session = (run w.session acks).1

/-- An output that asks for nothing is answered by no call. -/
theorem Answers.quiet {w w' : Worker} {o : Output} (hne : o ≠ .ggaDue)
    (hcalls : w'.calls = w.calls) (hsession : w'.session = w.session) : Answers w w' [o] := by
  refine ⟨[], by simp, ?_, by simp [hcalls], hsession⟩
  rw [List.count_cons_of_ne hne]
  rfl

/-- The answers to outputs in a row follow each other. -/
theorem Answers.append {w w' w'' : Worker} {first second : List Output} (h : Answers w w' first)
    (h' : Answers w' w'' second) : Answers w w'' (first ++ second) := by
  obtain ⟨acks, hacks, hcount, hcalls, hsession⟩ := h
  obtain ⟨acks', hacks', hcount', hcalls', hsession'⟩ := h'
  refine ⟨acks ++ acks', ?_, ?_, ?_, ?_⟩
  · intro call hcall
    rcases List.mem_append.mp hcall with hcall | hcall
    · exact hacks call hcall
    · exact hacks' call hcall
  · rw [List.length_append, hcount, hcount', List.count_append]
  · rw [hcalls', hcalls, List.append_assoc]
  · rw [hsession', hsession, run_append]

/-- Every output is answered as it asks to be. -/
theorem dispatch_one_answers (w : Worker) (o : Output) (around : Surroundings) :
    Answers w (w.dispatchOne o around) [o] := by
  cases o with
  | ggaDue =>
      obtain ⟨posts, ggaSent, hgga⟩ := on_gga_due_spec w around
      show Answers w (w.onGgaDue around) [.ggaDue]
      rw [hgga]
      refine ⟨[w.acknowledgement around], ?_, rfl, rfl, rfl⟩
      intro call hcall
      obtain rfl := List.mem_singleton.mp hcall
      exact acknowledgement_is w around
  | corrections bytes =>
      obtain ⟨hsession, hcalls⟩ := on_corrections_session w bytes around
      exact .quiet (by simp) hcalls hsession
  | protocolTx line => exact .quiet (by simp) rfl rfl
  | protocolRx line => exact .quiet (by simp) rfl rfl
  | sourcetable body => exact .quiet (by simp) rfl rfl
  | close reason => exact .quiet (by simp) rfl rfl

/-- A dispatch answers every position request once. -/
theorem dispatch_answers (w : Worker) (outs : List Output) (around : Nat → Surroundings) :
    Answers w (w.dispatch outs around) outs := by
  induction outs generalizing w around with
  | nil => exact ⟨[], by simp, rfl, by simp [dispatch], rfl⟩
  | cons o rest ih =>
      have hone := dispatch_one_answers w o (around 0)
      exact hone.append (ih (w.dispatchOne o (around 0)) fun i => around (i + 1))

/-! ## A turn of the loop -/

/-- A cancel that was seen once is seen. -/
theorem observe_or (cx : Cx) (first second : Bool) :
    (cx.observe first).observe second = cx.observe (first || second) := by
  simp [Cx.observe, Bool.or_assoc]

/-- A flag that is down changes nothing. -/
theorem observe_false (cx : Cx) : cx.observe false = cx := by
  simp [Cx.observe]

/-- The worker went from `w` to `answer` by reading the cancel flag and making calls that are no
acknowledgements. It cancelled the session only when the flag was set. -/
def Proceeds (w : Worker) (answer : Worker × List Output) : Prop :=
  ∃ flag calls, answer = { w with cx := w.cx.observe flag }.callAll calls ∧
    (.cancel ∈ calls → (w.cx.observe flag).cancel = true) ∧
    ∀ call ∈ calls, call.isAcknowledgement = false

/-- A turn that makes one call, which acknowledges nothing, proceeds. -/
theorem Proceeds.one {w : Worker} {flag : Bool} {c : Call} (hack : c.isAcknowledgement = false)
    (hcancel : c = .cancel → (w.cx.observe flag).cancel = true) :
    Proceeds w ({ w with cx := w.cx.observe flag }.call c) := by
  refine ⟨flag, [c], call_eq_call_all _ _, ?_, ?_⟩
  · intro hmem
    exact hcancel (List.mem_singleton.mp hmem).symm
  · intro call hcall
    obtain rfl := List.mem_singleton.mp hcall
    exact hack

/-- A call for which the flag is not read. -/
theorem Proceeds.plain {w : Worker} {c : Call} (hack : c.isAcknowledgement = false)
    (hne : c ≠ .cancel) : Proceeds w (w.call c) := by
  have hone : Proceeds w ({ w with cx := w.cx.observe false }.call c) :=
    .one hack fun hc => absurd hc hne
  rw [observe_false] at hone
  exact hone

/-- What a read leads to proceeds. -/
theorem on_read_proceeds (w : Worker) (next : LoopTurn) : Proceeds w (w.onRead next) := by
  have hclosed : Proceeds w
      (if (w.cx.observe next.cancelledRead).cancel then
        { w with cx := w.cx.observe next.cancelledRead }.call .cancel
      else { w with cx := w.cx.observe next.cancelledRead }.call .onRemoteClose) := by
    split
    · next hcancel => exact .one rfl fun _ => hcancel
    · exact .one rfl fun hc => absurd hc (by simp)
  unfold onRead
  cases next.read with
  | bytes data => exact .plain rfl (by simp)
  | wouldBlock => exact ⟨false, [], by rw [observe_false, call_all_nil], by simp, by simp⟩
  | eof => exact hclosed
  | unexpectedEof => exact hclosed
  | error => exact hclosed

/-- Every turn proceeds. -/
theorem turn_proceeds (w : Worker) (next : LoopTurn) : Proceeds w (w.turn next) := by
  unfold turn
  simp only
  split
  · next hcancel => exact .one rfl fun _ => hcancel
  · obtain ⟨flag, calls, hread, hcancel, hacks⟩ :=
      on_read_proceeds { w with cx := w.cx.observe next.cancelled } next
    simp only [observe_or] at hread hcancel
    refine ⟨next.cancelled || flag, calls ++ [.onTick next.tickAt], ?_, ?_, ?_⟩
    · rw [call_all_append, ← hread, ← call_eq_call_all]
    · intro hmem
      refine hcancel ?_
      simpa using hmem
    · intro call hcall
      rcases List.mem_append.mp hcall with hcall | hcall
      · exact hacks call hcall
      · obtain rfl := List.mem_singleton.mp hcall
        rfl

/-! ## The loop -/

/-- The loop stops once the session has ended. -/
theorem drive_loop_ended {w : Worker} {outs : List Output} {around : Nat → Surroundings}
    {ended : SessionEnd} (h : (w.dispatch outs around).conn.terminal = some ended)
    (turns : List LoopTurn) :
    w.driveLoop outs around turns = ((w.dispatch outs around).disconnect, some ended) := by
  unfold driveLoop
  simp only [h]

/-- The loop stops without another turn. -/
theorem drive_loop_nil {w : Worker} {outs : List Output} {around : Nat → Surroundings}
    (h : (w.dispatch outs around).conn.terminal = none) :
    w.driveLoop outs around [] = (w.dispatch outs around, none) := by
  unfold driveLoop
  simp only [h]

/-- Else it takes the turn and goes on with what the turn put out. -/
theorem drive_loop_cons {w : Worker} {outs : List Output} {around : Nat → Surroundings}
    (h : (w.dispatch outs around).conn.terminal = none) (next : LoopTurn) (rest : List LoopTurn) :
    w.driveLoop outs around (next :: rest) =
      ((w.dispatch outs around).turn next).1.driveLoop ((w.dispatch outs around).turn next).2
        next.around rest := by
  show driveLoop _ _ _ _ = _
  rw [driveLoop]
  simp only [h]

/-- The loop returns the first ending that was dispatched. -/
theorem drive_loop_terminal (w : Worker) (outs : List Output) (around : Nat → Surroundings)
    (turns : List LoopTurn) :
    (w.driveLoop outs around turns).2 = (w.driveLoop outs around turns).1.conn.terminal := by
  induction turns generalizing w outs around with
  | nil =>
      cases hterminal : (w.dispatch outs around).conn.terminal with
      | some ended => rw [drive_loop_ended hterminal, disconnect, hterminal]
      | none => rw [drive_loop_nil hterminal, hterminal]
  | cons next rest ih =>
      cases hterminal : (w.dispatch outs around).conn.terminal with
      | some ended => rw [drive_loop_ended hterminal, disconnect, hterminal]
      | none =>
          rw [drive_loop_cons hterminal]
          exact ih _ _ _

/-- The induction over the loop. `before` holds of a worker and the outputs it has to dispatch, and
`after` once they are dispatched. -/
theorem drive_loop_invariant {before : Worker → List Output → Prop} {after : Worker → Prop}
    (hdispatch : ∀ w outs around, before w outs → after (w.dispatch outs around))
    (hturn : ∀ w next, after w → w.conn.terminal = none →
      before (w.turn next).1 (w.turn next).2)
    (hdisconnect : ∀ w, after w → after w.disconnect) {w : Worker} {outs : List Output}
    (h : before w outs) (around : Nat → Surroundings) (turns : List LoopTurn) :
    after (w.driveLoop outs around turns).1 := by
  induction turns generalizing w outs around with
  | nil =>
      have hafter := hdispatch w outs around h
      cases hterminal : (w.dispatch outs around).conn.terminal with
      | some ended =>
          rw [drive_loop_ended hterminal]
          exact hdisconnect _ hafter
      | none =>
          rw [drive_loop_nil hterminal]
          exact hafter
  | cons next rest ih =>
      have hafter := hdispatch w outs around h
      cases hterminal : (w.dispatch outs around).conn.terminal with
      | some ended =>
          rw [drive_loop_ended hterminal]
          exact hdisconnect _ hafter
      | none =>
          rw [drive_loop_cons hterminal]
          exact ih (hturn _ next hafter hterminal) next.around

/-- The session is the run of the calls made on it. -/
def OnRecord (cfg : SessionConfig) (t0 : Instant) (w : Worker) : Prop :=
  w.session = (run (new cfg t0).1 w.calls).1

variable {cfg : SessionConfig} {t0 : Instant}

/-- Answers keep the session the run of its recorded calls. -/
theorem OnRecord.answers {w w' : Worker} {outs : List Output} (h : OnRecord cfg t0 w)
    (hanswers : Answers w w' outs) : OnRecord cfg t0 w' := by
  obtain ⟨acks, -, -, hcalls, hsession⟩ := hanswers
  rw [OnRecord, hcalls, hsession, run_append, ← h]

/-- So does a turn. -/
theorem OnRecord.proceeds {w : Worker} {answer : Worker × List Output} (h : OnRecord cfg t0 w)
    (hproceeds : Proceeds w answer) : OnRecord cfg t0 answer.1 := by
  obtain ⟨flag, calls, rfl, -⟩ := hproceeds
  show (run w.session calls).1 = (run (new cfg t0).1 (w.calls ++ calls)).1
  rw [run_append, ← h]

/-- Only request lines are pending in the session of a worker. -/
theorem OnRecord.pending_tx {w : Worker} (h : OnRecord cfg t0 w) : PendingTx w.session := by
  rw [h]
  exact run_pending_tx cfg t0 w.calls

end Worker
end OpenNtrip
