import OpenNtrip.App.Connection
import OpenNtrip.NtripCore.Endings

/-!
# The reconnect ladder

`Delivery` follows one connection: whether correction bytes were delivered decides what becomes of
the attempt budget and the drop alert. `attempt_once_attempted` says what one attempt does to the
worker's run, and `reconnect_ladder` what the runs of `supervise` look like.
-/

namespace OpenNtrip

open NtripSession

/-- What a connection made at `cx` has done to the worker's run: the budget is restored and the
alert armed when correction bytes were delivered, and all is as it was when none were. -/
structure RunLedger (cx cx' : Cx) (delivered : Bool) : Prop where
  job : cx'.job = cx.job
  drops : cx'.drops = cx.drops
  some : delivered = true →
    cx.totalBytes < cx'.totalBytes ∧ cx'.attemptsDone = 0 ∧ cx'.alertArmed = true
  none : delivered = false → cx'.totalBytes = cx.totalBytes ∧
    cx'.attemptsDone = cx.attemptsDone ∧ cx'.alertArmed = cx.alertArmed

theorem RunLedger.refl (cx : Cx) : RunLedger cx cx false :=
  ⟨rfl, rfl, by simp, fun _ => ⟨rfl, rfl, rfl⟩⟩

theorem RunLedger.observe {cx cx' : Cx} {delivered : Bool} (h : RunLedger cx cx' delivered)
    (flag : Bool) : RunLedger cx (cx'.observe flag) delivered :=
  ⟨h.job, h.drops, h.some, h.none⟩

theorem RunLedger.post {cx cx' : Cx} {delivered : Bool} (h : RunLedger cx cx' delivered)
    (posts : List Post) : RunLedger cx (cx'.post posts) delivered :=
  ⟨h.job, h.drops, h.some, h.none⟩

/-- The record says whether correction bytes were delivered. -/
theorem RunLedger.delivered_eq {cx cx' : Cx} {delivered : Bool} (h : RunLedger cx cx' delivered) :
    decide (cx.totalBytes < cx'.totalBytes) = delivered := by
  cases delivered with
  | true => exact decide_eq_true (h.some rfl).1
  | false =>
      refine decide_eq_false ?_
      rw [(h.none rfl).1]
      exact Nat.lt_irrefl _

/-- The alert is armed by the connection or not at all. -/
theorem RunLedger.armed {cx cx' : Cx} {delivered : Bool} (h : RunLedger cx cx' delivered)
    (harmed : cx.alertArmed = false) : cx'.alertArmed = delivered := by
  cases delivered with
  | true => exact (h.some rfl).2.2
  | false => exact (h.none rfl).2.2.trans harmed

theorem RunLedger.attempts {cx cx' : Cx} {delivered : Bool} (h : RunLedger cx cx' delivered) :
    cx'.attemptsDone = if delivered then 0 else cx.attemptsDone := by
  cases delivered with
  | true => exact (h.some rfl).2.1
  | false => exact (h.none rfl).2.1

namespace Worker

/-- A connection made at `cx`, with `outs` still to be dispatched. -/
structure Delivery (cx : Cx) (w : Worker) (outs : List Output) : Prop where
  ledger : RunLedger cx w.cx w.conn.streaming
  past : (w.conn.streaming = true ∨ ∃ payload, .corrections payload ∈ outs) → Past w.session
  nonempty : ∀ payload, .corrections payload ∈ outs → payload ≠ []
  table : (w.conn.terminal = some .tableDone ∨ ∃ body, .sourcetable body ∈ outs) →
    w.conn.streaming = false ∧ ∀ payload, .corrections payload ∉ outs
  cancelled : (w.conn.terminal = some (.closed .cancelled) ∨ .close .cancelled ∈ outs) →
    w.cx.cancel = true

/-- Correction bytes restore the budget and arm the alert. -/
theorem on_corrections_ledger {cx : Cx} {w : Worker} (h : RunLedger cx w.cx w.conn.streaming)
    {bytes : Bytes} (hne : bytes ≠ []) (around : Surroundings) :
    RunLedger cx (w.onCorrections bytes around).cx true ∧
      (w.onCorrections bytes around).conn.streaming = true ∧
      (w.onCorrections bytes around).conn.terminal = w.conn.terminal ∧
      (w.onCorrections bytes around).cx.cancel = w.cx.cancel := by
  have hpos : 0 < bytes.length := List.length_pos_of_ne_nil hne
  cases hstreaming : w.conn.streaming with
  | true =>
      rw [hstreaming] at h
      obtain ⟨htotal, hattempts, harmed⟩ := h.some rfl
      simp only [onCorrections, beginStream, hstreaming, if_true]
      refine ⟨⟨h.job, h.drops, ?_, by simp⟩, trivial, trivial, rfl⟩
      intro _
      refine ⟨?_, hattempts, harmed⟩
      show cx.totalBytes < w.cx.totalBytes + bytes.length
      omega
  | false =>
      rw [hstreaming] at h
      obtain ⟨htotal, -, -⟩ := h.none rfl
      simp only [onCorrections, beginStream, hstreaming, Bool.false_eq_true, if_false]
      refine ⟨⟨h.job, h.drops, ?_, by simp⟩, trivial, trivial, rfl⟩
      intro _
      refine ⟨?_, rfl, rfl⟩
      show cx.totalBytes < w.cx.totalBytes + bytes.length
      omega

/-- The ending that counts is the one that was there, or the new one. -/
theorem finish_terminal (w : Worker) (ended other : SessionEnd)
    (h : (w.finish ended).conn.terminal = some other) :
    w.conn.terminal = some other ∨ ended = other := by
  simp only [finish] at h
  cases hterminal : w.conn.terminal with
  | some first =>
      rw [hterminal] at h
      exact .inl h
  | none =>
      rw [hterminal] at h
      exact .inr (Option.some.inj h)

/-- What holds with one more output to be dispatched holds without it. -/
theorem Delivery.tail {cx : Cx} {w : Worker} {o : Output} {rest : List Output}
    (h : Delivery cx w (o :: rest)) : Delivery cx w rest := by
  have hlater : ∀ {o' : Output}, o' ∈ rest → o' ∈ o :: rest := List.mem_cons_of_mem o
  refine ⟨h.ledger, ?_, fun payload hmem => h.nonempty payload (hlater hmem), ?_, ?_⟩
  · intro hcase
    refine h.past (hcase.imp_right ?_)
    rintro ⟨payload, hmem⟩
    exact ⟨payload, hlater hmem⟩
  · intro hcase
    obtain ⟨hnot, hnone⟩ := h.table (hcase.imp_right fun hbody =>
      hbody.imp fun body hmem => hlater hmem)
    exact ⟨hnot, fun payload hmem => hnone payload (hlater hmem)⟩
  · exact fun hcase => h.cancelled (hcase.imp_right hlater)

/-- Ending a connection keeps what holds of it, if the ending is not the first to come for nothing:
a table has been dispatched, and a cancellation has been asked for. -/
theorem Delivery.finish {cx : Cx} {w : Worker} {rest : List Output} (h : Delivery cx w rest)
    {ended : SessionEnd}
    (htable : ended = .tableDone →
      w.conn.streaming = false ∧ ∀ payload, .corrections payload ∉ rest)
    (hcancelled : ended = .closed .cancelled → w.cx.cancel = true) :
    Delivery cx (w.finish ended) rest := by
  refine ⟨h.ledger, h.past, h.nonempty, ?_, ?_⟩
  · rintro (hterminal | hmem)
    · exact (finish_terminal w _ _ hterminal).elim (fun hbefore => h.table (.inl hbefore)) htable
    · exact h.table (.inr hmem)
  · rintro (hterminal | hmem)
    · exact (finish_terminal w _ _ hterminal).elim (fun hbefore => h.cancelled (.inl hbefore))
        hcancelled
    · exact h.cancelled (.inr hmem)

theorem dispatch_one_delivery {cx : Cx} {w : Worker} {o : Output} {rest : List Output}
    (h : Delivery cx w (o :: rest)) (around : Surroundings) :
    Delivery cx (w.dispatchOne o around) rest := by
  have hrest := h.tail
  cases o with
  | protocolTx line => exact ⟨h.ledger, hrest.past, hrest.nonempty, hrest.table, hrest.cancelled⟩
  | protocolRx line => exact ⟨h.ledger, hrest.past, hrest.nonempty, hrest.table, hrest.cancelled⟩
  | ggaDue =>
      obtain ⟨posts, ggaSent, hgga⟩ := on_gga_due_spec w around
      show Delivery cx (w.onGgaDue around) rest
      rw [hgga]
      have hflushes : (w.acknowledgement around).flushes = false := by
        unfold acknowledgement
        split
        · rfl
        · rfl
      obtain ⟨gga, hstep⟩ := step_acknowledge w.session _ hflushes
      refine ⟨h.ledger.post posts, ?_, hrest.nonempty, hrest.table, hrest.cancelled⟩
      intro hcase
      simp only [callAll, run_cons, run_nil, hstep]
      exact hrest.past hcase
  | corrections bytes =>
      obtain ⟨hledger, hstreaming, hterminal, hcancel⟩ :=
        on_corrections_ledger h.ledger (h.nonempty bytes (by simp)) around
      obtain ⟨hsession, -⟩ := on_corrections_session w bytes around
      show Delivery cx (w.onCorrections bytes around) rest
      refine ⟨by rw [hstreaming]; exact hledger, ?_, hrest.nonempty, ?_, ?_⟩
      · intro _
        rw [hsession]
        exact h.past (.inr ⟨bytes, by simp⟩)
      · -- a table leaves no corrections to be dispatched
        intro hcase
        rw [hterminal] at hcase
        have hnone := (h.table (hcase.imp_right fun hbody =>
          hbody.imp fun body hmem => List.mem_cons_of_mem _ hmem)).2
        exact absurd (by simp) (hnone bytes)
      · rw [hterminal, hcancel]
        exact hrest.cancelled
  | sourcetable body =>
      show Delivery cx (w.finish .tableDone) rest
      refine hrest.finish ?_ (by simp)
      intro _
      obtain ⟨hnot, hnone⟩ := h.table (.inr ⟨body, by simp⟩)
      exact ⟨hnot, fun payload hmem => hnone payload (List.mem_cons_of_mem _ hmem)⟩
  | close reason =>
      show Delivery cx (w.finish (.closed reason)) rest
      refine hrest.finish (by simp) ?_
      intro hclosed
      obtain rfl : reason = .cancelled := by simpa using hclosed
      exact h.cancelled (.inr (by simp))

theorem dispatch_delivery {cx : Cx} {w : Worker} {outs : List Output} (h : Delivery cx w outs)
    (around : Nat → Surroundings) : Delivery cx (w.dispatch outs around) [] := by
  induction outs generalizing w around with
  | nil => exact h
  | cons o rest ih => exact ih (dispatch_one_delivery h (around 0)) _

/-- The calls of a turn on a connection that is open. -/
theorem Proceeds.delivery {cx : Cx} {w : Worker} {answer : Worker × List Output}
    (hproceeds : Proceeds w answer) (hpending : PendingTx w.session) (h : Delivery cx w [])
    (hopen : w.conn.terminal = none) : Delivery cx answer.1 answer.2 := by
  obtain ⟨flag, calls, rfl, hcancel, -⟩ := hproceeds
  refine ⟨h.ledger.observe flag, ?_, ?_, ?_, ?_⟩
  · rintro (hstreaming | ⟨payload, hpayload⟩)
    · exact past_run (h.past (.inl hstreaming)) hpending calls
    · exact (run_corrections hpending hpayload).2
  · intro payload hpayload
    exact (run_corrections hpending hpayload).1
  · rintro (hterminal | ⟨body, hbody⟩)
    · exact absurd (hopen.symm.trans hterminal) (by simp)
    · obtain ⟨hnot, hnone⟩ := run_table_alone hpending hbody
      refine ⟨?_, hnone⟩
      cases hstreaming : w.conn.streaming with
      | false => exact hstreaming
      | true => exact absurd (h.past (.inl hstreaming)) hnot
  · rintro (hterminal | hclosed)
    · exact absurd (hopen.symm.trans hterminal) (by simp)
    · exact hcancel (run_cancelled hpending hclosed)

/-- The totals of the deframer are not on the ledger. -/
theorem Delivery.disconnect {cx : Cx} {w : Worker} (h : Delivery cx w []) :
    Delivery cx w.disconnect [] :=
  ⟨⟨h.ledger.job, h.ledger.drops, h.ledger.some, h.ledger.none⟩, h.past, h.nonempty, h.table,
    h.cancelled⟩

/-- A connection made at `cx` whose session is on record. -/
def Delivers (cfg : SessionConfig) (t0 : Instant) (cx : Cx) (outs : List Output) (w : Worker) :
    Prop :=
  OnRecord cfg t0 w ∧ Delivery cx w outs

/-- The whole loop of a connection. -/
theorem drive_loop_delivers {cx : Cx} {cfg : SessionConfig} {t0 : Instant} {w : Worker}
    {outs : List Output} (h : Delivers cfg t0 cx outs w) (around : Nat → Surroundings)
    (turns : List LoopTurn) : Delivers cfg t0 cx [] (w.driveLoop outs around turns).1 := by
  have hdispatch : ∀ w outs around, Delivers cfg t0 cx outs w →
      Delivers cfg t0 cx [] (w.dispatch outs around) := by
    rintro w outs around ⟨hrecord, h⟩
    exact ⟨hrecord.answers (dispatch_answers w outs around), dispatch_delivery h around⟩
  refine drive_loop_invariant hdispatch ?_ ?_ h around turns
  · rintro w next ⟨hrecord, h⟩ hopen
    have hproceeds := turn_proceeds w next
    exact ⟨hrecord.proceeds hproceeds, hproceeds.delivery hrecord.pending_tx h hopen⟩
  · rintro w ⟨hrecord, h⟩
    exact ⟨hrecord, h.disconnect⟩

end Worker
namespace Cx

/-! ## One attempt -/

/-- A connection made at `cx` left `cx'` and ended with `ended`, if it ended. A table is delivered
without corrections, and a connection is cancelled only when the flag was set. -/
def Connects (cx cx' : Cx) (ended : Option SessionEnd) : Prop :=
  ∃ delivered, RunLedger cx cx' delivered ∧ (ended = some .tableDone → delivered = false) ∧
    (ended = some (.closed .cancelled) → cx'.cancel = true)

theorem Connects.without {cx : Cx} {ended : Option SessionEnd}
    (h : ended ≠ some (.closed .cancelled)) : Connects cx cx ended :=
  ⟨false, RunLedger.refl cx, fun _ => rfl, fun hended => absurd hended h⟩

theorem drive_connection_connects (cx : Cx) (script : ConnectionScript) :
    Connects cx (cx.driveConnection script).1 (cx.driveConnection script).2 := by
  unfold driveConnection
  split
  · exact .without (by simp)
  · have hestablish : Connects cx (cx.establish script.tls).1 (cx.establish script.tls).2 ∧
        ((cx.establish script.tls).2 = none → (cx.establish script.tls).1 = cx) := by
      unfold establish
      split
      · exact ⟨.without (by simp), fun _ => rfl⟩
      · cases script.tls with
        | established => exact ⟨.without (by simp), fun _ => rfl⟩
        | cancelled =>
            refine ⟨⟨false, (RunLedger.refl cx).observe true, fun _ => rfl, ?_⟩, by simp⟩
            intro _
            simp [observe]
        | rejected => exact ⟨.without (by simp), by simp⟩
        | io => exact ⟨.without (by simp), by simp⟩
    generalize cx.establish script.tls = answer at hestablish
    obtain ⟨cx', ended⟩ := answer
    cases ended with
    | some ended => exact hestablish.1
    | none =>
        obtain rfl : cx' = cx := hestablish.2 rfl
        simp only
        split
        · exact .without (by simp)
        · -- the loop starts behind the tick that flushes the request lines
          have hproceeds : Worker.Proceeds (cx'.connected script.openedAt)
              ((cx'.connected script.openedAt).call (.onTick script.firstTick)) :=
            .plain rfl (by simp)
          have hrecord : Worker.OnRecord cx'.job.sessionConfig script.openedAt
              (cx'.connected script.openedAt) := rfl
          have hstart : Worker.Delivery cx' (cx'.connected script.openedAt) [] :=
            ⟨(RunLedger.refl cx').post _, by simp [connected], by simp, by simp [connected],
              by simp [connected]⟩
          have hdelivers := Worker.drive_loop_delivers
            ⟨hrecord.proceeds hproceeds, hproceeds.delivery hrecord.pending_tx hstart rfl⟩
            script.around script.turns
          have hterminal := Worker.drive_loop_terminal
            ((cx'.connected script.openedAt).call (.onTick script.firstTick)).1
            ((cx'.connected script.openedAt).call (.onTick script.firstTick)).2
            script.around script.turns
          refine ⟨_, hdelivers.2.ledger, ?_, ?_⟩
          · intro htable
            exact (hdelivers.2.table (.inl (hterminal.symm.trans htable))).1
          · intro hcancelled
            exact hdelivers.2.cancelled (.inl (hterminal.symm.trans hcancelled))

/-- Another attempt may follow a connection that ended so. -/
def Rides (job : NtripJob) (attemptsDone : Nat) (ended : SessionEnd) : Prop :=
  transientEnd ended = true ∧ job.reconnect = .auto ∧ attemptsDone < job.maxAttempts

/-- The ends that may pass: a failure to connect, a time-out, a broken stream, and a connection that
the caster closed, also before the first line of its answer was complete. -/
inductive Passing : SessionEnd → Prop where
  | failed : Passing .failed
  | noResponse : Passing (.closed .firstResponseTimeout)
  | noTable : Passing (.closed .sourcetableTimeout)
  | silence : Passing (.closed .streamSilence)
  | corrupt (detail : Text) : Passing (.closed (.streamCorrupt detail))
  | remote : Passing (.closed .remoteClosed)
  | noLine (raw : Bytes) (h : LF ∉ raw) : Passing (.closed (.unknownResponse raw))

/-- These are the transient ones. -/
theorem transient_end_iff (ended : SessionEnd) : transientEnd ended = true ↔ Passing ended := by
  constructor
  · intro h
    cases ended with
    | tableDone => simp [transientEnd] at h
    | failedPermanent => simp [transientEnd] at h
    | failed => exact .failed
    | closed reason =>
        cases reason with
        | firstResponseTimeout => exact .noResponse
        | sourcetableTimeout => exact .noTable
        | streamSilence => exact .silence
        | streamCorrupt detail => exact .corrupt detail
        | remoteClosed => exact .remote
        | unknownResponse raw => exact .noLine raw (by simpa [transientEnd, transient] using h)
        | unauthorized | mountpointNotFound | cancelled =>
            simp [transientEnd, transient, CloseReason.autoReconnect] at h
  · intro h
    cases h with
    | noLine raw h => simpa [transientEnd, transient] using h
    | _ => rfl

theorem reconnectable_iff (cx : Cx) (ended : SessionEnd) :
    cx.reconnectable ended = true ↔ Rides cx.job cx.attemptsDone ended := by
  have hauto : cx.job.reconnect.enabled = true ↔ cx.job.reconnect = .auto := by
    cases cx.job.reconnect with
    | _ => simp [ReconnectPolicy.enabled]
  cases ended with
  | tableDone => simp [reconnectable, Rides, transientEnd]
  | failedPermanent => simp [reconnectable, Rides, transientEnd]
  | failed => simp [reconnectable, Rides, transientEnd, hauto]
  | closed reason =>
      simp [reconnectable, Rides, transientEnd, shouldReconnect, hauto, and_assoc]

/-- What the supervisor makes of a connection that ended: it counts the drop unless a cancellation
was requested by then, and goes on as `Rides` says unless one was requested by the end of the wait.
-/
structure Decides (cx : Cx) (ended : SessionEnd) (attempt : Attempt) (answer : Cx × Course) :
    Prop where
  job : answer.1.job = cx.job
  attempts : answer.1.attemptsDone = cx.attemptsDone
  drops : answer.1.drops =
    cx.drops + if cx.alertArmed && !(cx.cancel || attempt.cancelledAfter) then 1 else 0
  again : answer.2 = .again → answer.1.alertArmed = false ∧
    (cx.cancel || attempt.cancelledAfter || attempt.cancelledWait) = false ∧
    Rides cx.job cx.attemptsDone ended
  gaveUp : answer.2 = .stopped true → (cx.cancel || attempt.cancelledAfter) = false ∧
    ¬ Rides cx.job cx.attemptsDone ended
  quiet : answer.2 = .stopped false → answer.1.cancel = true ∨ ended = .tableDone
  closed : answer.2 ≠ .connected

/-- Counting a drop disarms the alert and leaves the rest of the decision alone. -/
theorem count_drop_spec (cx : Cx) :
    cx.countDrop.drops = cx.drops + (if cx.alertArmed then 1 else 0) ∧
      cx.countDrop.alertArmed = false ∧ cx.countDrop.cancel = cx.cancel ∧
      cx.countDrop.job = cx.job ∧ cx.countDrop.attemptsDone = cx.attemptsDone := by
  unfold countDrop
  split
  · simp
  · next harmed => simp [harmed]

theorem after_connection_decides {cx : Cx} {ended : SessionEnd} (attempt : Attempt)
    (htable : ended = .tableDone → cx.alertArmed = false)
    (hcancelled : ended = .closed .cancelled → cx.cancel = true) :
    Decides cx ended attempt (cx.afterConnection ended attempt) := by
  unfold afterConnection
  split
  · exact ⟨rfl, rfl, by simp [htable rfl], by simp, by simp, fun _ => .inr rfl, by simp⟩
  · exact ⟨rfl, rfl, by simp [hcancelled rfl], by simp, by simp,
      fun _ => .inl (hcancelled rfl), by simp⟩
  · have hrides := reconnectable_iff cx ended
    cases hthen : (cx.cancel || attempt.cancelledAfter) with
    | true =>
        simp only [observe, hthen, if_true]
        exact ⟨rfl, rfl, by simp [hthen], by simp, by simp, fun _ => .inl rfl, by simp⟩
    | false =>
        obtain ⟨hdrops, harmed, hcancel, hjob, hattempts⟩ :=
          count_drop_spec (cx.observe attempt.cancelledAfter)
        have hnot : (cx.observe attempt.cancelledAfter).cancel = false := hthen
        rw [hnot] at hcancel
        have hdrops' : (cx.observe attempt.cancelledAfter).countDrop.drops =
            cx.drops +
              if cx.alertArmed && !(cx.cancel || attempt.cancelledAfter) then 1 else 0 := by
          rw [hdrops, hthen, Bool.not_false, Bool.and_true]
          rfl
        simp only [hnot, Bool.false_eq_true, if_false]
        generalize (cx.observe attempt.cancelledAfter).countDrop = cx' at *
        cases hreconnect : cx.reconnectable ended with
        | false =>
            rw [hreconnect] at hrides
            simp only [Bool.not_false, if_true]
            exact ⟨hjob, hattempts, hthen ▸ hdrops', by simp,
              fun _ => ⟨hthen, by simpa using hrides⟩, by simp, by simp⟩
        | true =>
            simp only [Bool.not_true, Bool.false_eq_true, if_false]
            cases hwait : attempt.cancelledWait with
            | true =>
                simp only [observe, post, Bool.or_true, if_true]
                exact ⟨hjob, hattempts, hthen ▸ hdrops', by simp, by simp,
                  fun _ => .inl rfl, by simp⟩
            | false =>
                simp only [observe, post, hcancel, Bool.or_false, Bool.false_eq_true, if_false]
                exact ⟨hjob, hattempts, hthen ▸ hdrops',
                  fun _ => ⟨harmed, by simp [hthen, hwait], hrides.mp hreconnect⟩, by simp,
                  by simp, by simp⟩

/-- How far an attempt came, as the end of its connection. -/
def Reached.ended? : Reached → Option SessionEnd
  | .ended last => some last
  | _ => none

theorem connect_once_connects (cx : Cx) (outcome : ConnectOutcome) :
    Connects cx (cx.connectOnce outcome).1 (Reached.ended? (cx.connectOnce outcome).2) ∧
      ((cx.connectOnce outcome).2 = .cancelled → (cx.connectOnce outcome).1 = cx) := by
  cases outcome with
  | cancelled => exact ⟨.without (by simp [connectOnce, Reached.ended?]), fun _ => rfl⟩
  | failed => exact ⟨.without (by simp [connectOnce, Reached.ended?]), by simp [connectOnce]⟩
  | connected script =>
      have hdrive := drive_connection_connects cx script
      simp only [connectOnce]
      generalize cx.driveConnection script = answer at hdrive
      obtain ⟨cx', ended⟩ := answer
      cases ended with
      | none => exact ⟨hdrive, by simp⟩
      | some ended => exact ⟨hdrive, by simp⟩

/-- No cancellation was requested before the next attempt, and the end is one to ride out. -/
def AttemptRecord.RidesOut (job : NtripJob) (attemptsDone : Nat) (r : AttemptRecord) : Prop :=
  r.cancelledThen = false ∧ r.cancelledWait = false ∧
    ∃ ended, r.reached = .ended ended ∧ Rides job attemptsDone ended

/-- What one attempt does to the worker's run, by its record. -/
structure Attempted (cx : Cx) (answer : Cx × AttemptRecord × Course) : Prop where
  before : answer.2.1.cancelledBefore = cx.cancel
  job : answer.1.job = cx.job
  budget : answer.1.attemptsDone = if answer.2.1.delivered then 0 else cx.attemptsDone + 1
  drops : answer.2.2 ≠ .connected → answer.1.drops =
    cx.drops + if answer.2.1.delivered && !answer.2.1.cancelledThen then 1 else 0
  again : answer.2.2 = .again →
    answer.1.alertArmed = false ∧ answer.2.1.RidesOut cx.job answer.1.attemptsDone
  gaveUp : answer.2.2 = .stopped true → answer.2.1.cancelledThen = false ∧
    ∃ ended, answer.2.1.reached = .ended ended ∧ ¬ Rides cx.job answer.1.attemptsDone ended
  quiet : answer.2.2 = .stopped false → answer.1.cancel = true ∨
    answer.2.1.reached = .cancelled ∨ answer.2.1.reached = .ended .tableDone

theorem attempt_once_attempted {cx : Cx} (harmed : cx.alertArmed = false) (attempt : Attempt) :
    Attempted cx (cx.attemptOnce attempt) := by
  obtain ⟨start, hstart⟩ : ∃ start : Cx, start =
      { cx with attemptsDone := cx.attemptsDone + 1 }.post
        [.status (.connecting (cx.attemptsDone + 1))] := ⟨_, rfl⟩
  have hjob : start.job = cx.job := by rw [hstart]; rfl
  have hdrops : start.drops = cx.drops := by rw [hstart]; rfl
  have hattempts : start.attemptsDone = cx.attemptsDone + 1 := by rw [hstart]; rfl
  have hcancel : start.cancel = cx.cancel := by rw [hstart]; rfl
  have harmed' : start.alertArmed = false := by rw [hstart]; exact harmed
  obtain ⟨⟨delivered, hledger, htable, hcancelled⟩, hsame⟩ :=
    connect_once_connects start attempt.connect
  unfold attemptOnce
  simp only [← hstart]
  generalize start.connectOnce attempt.connect = answer at *
  obtain ⟨next, reached⟩ := answer
  have hbudget : next.attemptsDone = if delivered then 0 else cx.attemptsDone + 1 := by
    rw [hledger.attempts, hattempts]
  simp only [hledger.delivered_eq]
  cases reached with
  | cancelled =>
      obtain rfl : next = start := hsame rfl
      have hnot : delivered = false := by
        rw [← hledger.delivered_eq]
        exact decide_eq_false (Nat.lt_irrefl _)
      exact ⟨hcancel, hjob, hbudget, by simp [hnot, hdrops], by simp, by simp,
        fun _ => .inr (.inl rfl)⟩
  | connected =>
      exact ⟨hcancel, hledger.job.trans hjob, hbudget, by simp, by simp, by simp, by simp⟩
  | ended ended =>
      have hdecides : Decides next ended attempt (next.afterConnection ended attempt) := by
        refine after_connection_decides attempt ?_ ?_
        · rintro rfl
          rw [hledger.armed harmed']
          exact htable rfl
        · rintro rfl
          exact hcancelled rfl
      simp only
      generalize next.afterConnection ended attempt = decision at hdecides
      obtain ⟨last, course⟩ := decision
      have hjob' : next.job = cx.job := hledger.job.trans hjob
      have hattempts' : last.attemptsDone = next.attemptsDone := hdecides.attempts
      refine ⟨hcancel, hdecides.job.trans hjob', hattempts'.trans hbudget, ?_, ?_, ?_, ?_⟩
      · intro _
        rw [hdecides.drops, hledger.drops, hdrops, hledger.armed harmed']
      · intro hagain
        obtain ⟨hdisarmed, hwait, hrides⟩ := hdecides.again hagain
        rw [hjob', ← hattempts'] at hrides
        refine ⟨hdisarmed, ?_, hwait, ended, rfl, hrides⟩
        exact (Bool.or_eq_false_iff.mp hwait).1
      · intro hgaveUp
        obtain ⟨hthen, hrides⟩ := hdecides.gaveUp hgaveUp
        rw [hjob', ← hattempts'] at hrides
        exact ⟨hthen, ended, rfl, hrides⟩
      · intro hquiet
        rcases hdecides.quiet hquiet with hflag | rfl
        · exact .inl hflag
        · exact .inr (.inr rfl)

/-! ## The ladder -/

/-- The attempts since correction bytes were last delivered, after `start` attempts without. -/
def sinceDelivery (start : Nat) (records : List AttemptRecord) : Nat :=
  records.foldl (fun n r => if r.delivered then 0 else n + 1) start

/-- What the supervisor does from a state with no alert armed on: the records of its attempts, and
where it stands. -/
structure Climbs (job : NtripJob) (start drops : Nat)
    (outcome : Cx × List AttemptRecord × Course) : Prop where
  fresh : ∀ r ∈ outcome.2.1, r.cancelledBefore = false
  again : ∀ before r next after, outcome.2.1 = before ++ r :: next :: after →
    r.RidesOut job (sinceDelivery start (before ++ [r]))
  gaveUp : outcome.2.2 = .stopped true → ∃ before r, outcome.2.1 = before ++ [r] ∧
    r.cancelledThen = false ∧ ∃ ended, r.reached = .ended ended ∧
      ¬ Rides job (sinceDelivery start outcome.2.1) ended
  quiet : outcome.2.2 = .stopped false → outcome.1.cancel = true ∨
    ∃ before r, outcome.2.1 = before ++ [r] ∧
      (r.reached = .cancelled ∨ r.reached = .ended .tableDone)
  drops : outcome.2.2 ≠ .connected → outcome.1.drops =
    drops + outcome.2.1.countP fun r => r.delivered && !r.cancelledThen

/-- A run that does not go on after an attempt. -/
theorem Attempted.climbs_last {cx : Cx} {answer : Cx × AttemptRecord × Course}
    (h : Attempted cx answer) (hfresh : cx.cancel = false) :
    Climbs cx.job cx.attemptsDone cx.drops (answer.1, [answer.2.1], answer.2.2) := by
  obtain ⟨next, record, course⟩ := answer
  have hsince : sinceDelivery cx.attemptsDone [record] = next.attemptsDone := h.budget.symm
  refine ⟨?_, ?_, ?_, ?_, ?_⟩
  · intro r hr
    obtain rfl := List.mem_singleton.mp hr
    exact h.before.trans hfresh
  · intro before r next after hrecords
    have hlen := congrArg List.length hrecords
    simp only [List.length_append, List.length_cons, List.length_nil] at hlen
    omega
  · intro hgaveUp
    obtain ⟨hthen, ended, hreached, hrides⟩ := h.gaveUp hgaveUp
    exact ⟨[], record, rfl, hthen, ended, hreached, by rw [hsince]; exact hrides⟩
  · intro hquiet
    exact (h.quiet hquiet).imp_right fun hreached => ⟨[], record, rfl, hreached⟩
  · intro hcourse
    have hdrops := h.drops hcourse
    simp only at hdrops ⊢
    rw [hdrops, List.countP_singleton]

/-- A run that goes on after an attempt. -/
theorem Attempted.climbs_again {cx next : Cx} {record : AttemptRecord}
    (h : Attempted cx (next, record, .again)) (hfresh : cx.cancel = false)
    {outcome : Cx × List AttemptRecord × Course}
    (hclimbs : Climbs next.job next.attemptsDone next.drops outcome) :
    Climbs cx.job cx.attemptsDone cx.drops (outcome.1, record :: outcome.2.1, outcome.2.2) := by
  obtain ⟨-, hrides⟩ := h.again rfl
  have hjob : next.job = cx.job := h.job
  have hbudget : next.attemptsDone = if record.delivered then 0 else cx.attemptsDone + 1 := h.budget
  have hsince : ∀ records, sinceDelivery next.attemptsDone records =
      sinceDelivery cx.attemptsDone (record :: records) := by
    intro records
    rw [hbudget]
    rfl
  rw [hjob] at hclimbs
  refine ⟨?_, ?_, ?_, ?_, ?_⟩
  · intro r hr
    rcases List.mem_cons.mp hr with rfl | hr
    · exact h.before.trans hfresh
    · exact hclimbs.fresh r hr
  · intro before r later after hrecords
    cases before with
    | nil =>
        obtain ⟨rfl, -⟩ := List.cons.inj hrecords
        show record.RidesOut cx.job (sinceDelivery cx.attemptsDone [record])
        rw [← hsince []]
        exact hrides
    | cons first before =>
        obtain ⟨rfl, hrest⟩ := List.cons.inj hrecords
        show r.RidesOut cx.job (sinceDelivery cx.attemptsDone (record :: (before ++ [r])))
        rw [← hsince]
        exact hclimbs.again before r later after hrest
  · intro hgaveUp
    obtain ⟨before, r, hlast, hthen, ended, hreached, hnot⟩ := hclimbs.gaveUp hgaveUp
    rw [hsince] at hnot
    exact ⟨record :: before, r, by rw [hlast]; rfl, hthen, ended, hreached, hnot⟩
  · intro hquiet
    refine (hclimbs.quiet hquiet).imp_right ?_
    rintro ⟨before, r, hlast, hreached⟩
    exact ⟨record :: before, r, by rw [hlast]; rfl, hreached⟩
  · intro hcourse
    have hdrops : next.drops =
        cx.drops + if record.delivered && !record.cancelledThen then 1 else 0 := h.drops (by simp)
    have hrest := hclimbs.drops hcourse
    simp only at hrest ⊢
    rw [hrest, hdrops, List.countP_cons]
    omega

theorem supervise_climbs {cx : Cx} (harmed : cx.alertArmed = false) (attempts : List Attempt) :
    Climbs cx.job cx.attemptsDone cx.drops (cx.supervise attempts) := by
  induction attempts generalizing cx with
  | nil => exact ⟨by simp [supervise], by simp [supervise], by simp [supervise],
      by simp [supervise], by simp [supervise]⟩
  | cons attempt rest ih =>
      -- reading the flag changes neither the budget nor the drops
      obtain ⟨start, hstart⟩ : ∃ start, start = cx.observe attempt.cancelledTop := ⟨_, rfl⟩
      have hsame : start.job = cx.job ∧ start.attemptsDone = cx.attemptsDone ∧
          start.drops = cx.drops ∧ start.alertArmed = false := by
        rw [hstart]
        exact ⟨rfl, rfl, rfl, harmed⟩
      obtain ⟨hjob, hattempts, hdrops, harmed'⟩ := hsame
      rw [← hjob, ← hattempts, ← hdrops]
      unfold supervise
      simp only [← hstart]
      cases hcancel : start.cancel with
      | true =>
          simp only [if_true]
          exact ⟨by simp, by simp, by simp, fun _ => .inl hcancel, by simp⟩
      | false =>
          simp only [Bool.false_eq_true, if_false]
          have hattempted := attempt_once_attempted harmed' attempt
          generalize start.attemptOnce attempt = answer at hattempted
          obtain ⟨next, record, course⟩ := answer
          cases course with
          | again => exact hattempted.climbs_again hcancel (ih (hattempted.again rfl).1)
          | stopped failed => exact hattempted.climbs_last hcancel
          | connected => exact hattempted.climbs_last hcancel

/-- The attempts without a delivery in between are at most those since the last delivery. -/
theorem length_le_since (start : Nat) (first : List AttemptRecord) {window : List AttemptRecord}
    (h : ∀ r ∈ window, r.delivered = false) :
    window.length ≤ sinceDelivery start (first ++ window) := by
  have hwindow : ∀ n, sinceDelivery n window = n + window.length := by
    clear first
    induction window with
    | nil => intro n; rfl
    | cons r rest ih =>
        intro n
        have hr := h r (by simp)
        have hrest := ih (fun r' hr' => h r' (List.mem_cons_of_mem _ hr')) (n + 1)
        show sinceDelivery (if r.delivered then 0 else n + 1) rest = _
        rw [hr, List.length_cons]
        simp only [Bool.false_eq_true, if_false]
        rw [hrest]
        omega
  have hsplit : sinceDelivery start (first ++ window) =
      sinceDelivery (sinceDelivery start first) window := by
    simp only [sinceDelivery, List.foldl_append]
  rw [hsplit, hwindow]
  omega

/-- The records of a run of the supervisor, and where it ended. -/
structure Ladder (job : NtripJob) (outcome : Cx × List AttemptRecord × Course) : Prop where
  /-- Attempts without a delivery in between: the last one of them may deliver. -/
  window : ∀ first window later, outcome.2.1 = first ++ window ++ later →
    (∀ r ∈ window.dropLast, r.delivered = false) → window.length ≤ max 1 job.maxAttempts
  /-- Another attempt is made only when no cancellation was requested, the end of the connection can
  be ridden out, the policy is `auto` and the attempts since the last delivery leave a budget. -/
  again : ∀ before r next after, outcome.2.1 = before ++ r :: next :: after →
    next.cancelledBefore = false ∧ r.RidesOut job (sinceDelivery 0 (before ++ [r]))
  /-- Which ends can be ridden out. -/
  rides : ∀ attemptsDone ended, Rides job attemptsDone ended ↔
    Passing ended ∧ job.reconnect = .auto ∧ attemptsDone < job.maxAttempts
  /-- The run gives up only when one of these is missing. -/
  gaveUp : outcome.2.2 = .stopped true → ∃ before r, outcome.2.1 = before ++ [r] ∧
    r.cancelledThen = false ∧ ∃ ended, r.reached = .ended ended ∧
      ¬ Rides job (sinceDelivery 0 outcome.2.1) ended
  /-- It ends without a failure only when it was cancelled or a table was delivered. -/
  quiet : outcome.2.2 = .stopped false → outcome.1.cancel = true ∨
    ∃ before r, outcome.2.1 = before ++ [r] ∧
      (r.reached = .cancelled ∨ r.reached = .ended .tableDone)
  /-- The drop counter of a run that ended. -/
  drops : ∀ failed, outcome.2.2 = .stopped failed → outcome.1.drops =
    outcome.2.1.countP fun r => r.delivered && !r.cancelledThen

/-- The reconnect ladder, for every job and every sequence of attempts. -/
theorem reconnect_ladder (job : NtripJob) (attempts : List Attempt) :
    Ladder job (({ job } : Cx).supervise attempts) := by
  have hdisarmed : ({ job } : Cx).alertArmed = false := rfl
  have hclimbs : Climbs job 0 0 (({ job } : Cx).supervise attempts) :=
    supervise_climbs hdisarmed attempts
  refine ⟨?_, ?_, fun attemptsDone ended => ?_, hclimbs.gaveUp, hclimbs.quiet, ?_⟩
  · intro first window later hrecords hsilent
    -- the last attempt of the window was still allowed after the others
    rcases List.eq_nil_or_concat window with rfl | ⟨front, last, rfl⟩
    · simp
    · rw [List.concat_eq_append] at hrecords hsilent ⊢
      rw [List.dropLast_concat] at hsilent
      rcases List.eq_nil_or_concat front with rfl | ⟨front, r, rfl⟩
      · simp
      · rw [List.concat_eq_append] at hrecords hsilent ⊢
        have hsplit : (({ job } : Cx).supervise attempts).2.1 =
            (first ++ front) ++ r :: last :: later := by
          rw [hrecords]
          simp
        obtain ⟨-, -, ended, -, -, -, hbudget⟩ := hclimbs.again _ _ _ _ hsplit
        have hlength := length_le_since 0 first hsilent
        rw [← List.append_assoc] at hlength
        simp only [List.length_append, List.length_singleton] at hlength ⊢
        omega
  · intro before r next after hrecords
    exact ⟨hclimbs.fresh next (by rw [hrecords]; simp), hclimbs.again before r next after hrecords⟩
  · rw [Rides, transient_end_iff]
  · intro failed hstopped
    have hdrops := hclimbs.drops (by rw [hstopped]; simp)
    rw [hdrops, Nat.zero_add]

end Cx
end OpenNtrip
