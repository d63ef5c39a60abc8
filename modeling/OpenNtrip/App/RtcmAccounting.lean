import OpenNtrip.App.Connection
import OpenNtrip.App.State
import OpenNtrip.Gnss.FrameResync
import OpenNtrip.Lib.Observer

/-!
# The books of the RTCM stream

`Audit` reads what a run of the worker hands out and keeps books of its own: a fresh deframer for
each connection, fed every block that is pushed, with the events found but not reported yet kept
apart. `Audit.Allows` says what a post must agree with. `Balanced` relates the worker's own totals
to those books, and `rtcm_accounting` says so of every run, up to the numbers the interface shows.
-/

namespace OpenNtrip

/-! ## The deframers of a run -/

/-- The frames of a type among the events. -/
def framesOf (ty : UInt16) (events : List FrameEvent) : Nat :=
  events.countP fun event =>
    match event with
    | .frame msgType _ => msgType = ty
    | _ => false

/-- The CRC failures and the garbage bytes of the deframers. -/
def totals (deframers : List Deframer) : Nat × Nat :=
  ((deframers.map (·.crcFailures)).sum, (deframers.map (·.garbageBytes)).sum)

/-- The totals a batch states. -/
def RtcmBatch.health (batch : RtcmBatch) : Nat × Nat := (batch.crcFailures, batch.garbageBytes)

theorem frames_of_append (ty : UInt16) (first second : List FrameEvent) :
    framesOf ty (first ++ second) = framesOf ty first + framesOf ty second :=
  List.countP_append

theorem totals_cons (d : Deframer) (earlier : List Deframer) :
    totals (d :: earlier) =
      (d.crcFailures + (totals earlier).1, d.garbageBytes + (totals earlier).2) := by
  simp [totals]

/-- The counters of a deframer only grow. -/
theorem Deframer.feed_grows (d : Deframer) (bytes : Bytes) :
    d.crcFailures ≤ (d.feed bytes).1.crcFailures ∧
      d.garbageBytes ≤ (d.feed bytes).1.garbageBytes := by
  rw [Deframer.feed, Deframer.scan_eq]
  simp only
  omega

theorem totals_feed (d : Deframer) (bytes : Bytes) (earlier : List Deframer) :
    totals (d :: earlier) ≤ totals ((d.feed bytes).1 :: earlier) := by
  obtain ⟨hcrc, hgarbage⟩ := d.feed_grows bytes
  rw [totals_cons, totals_cons, Prod.mk_le_mk]
  omega

/-! ## The entries of a batch -/

namespace Worker

theorem count_frame_entries (frames : List (UInt16 × Nat × Nat)) (msgType ty : UInt16)
    (wireLen : Nat) :
    frameEntries (countFrame frames msgType wireLen) ty =
      frameEntries frames ty + if msgType = ty then 1 else 0 := by
  induction frames with
  | nil =>
      rw [countFrame, frame_entries_cons]
      exact Nat.add_comm _ _
  | cons entry rest ih =>
      obtain ⟨t, n, last⟩ := entry
      rw [countFrame]
      split
      · next heq =>
          subst heq
          simp only [frame_entries_cons]
          split
          · omega
          · omega
      · simp only [frame_entries_cons, ih]
        omega

/-- `deframe` counts every frame of the block under its type. -/
theorem deframe_entries (d : Deframer) (bytes : Bytes) (ty : UInt16) :
    frameEntries (deframe d bytes).2 ty = framesOf ty (d.feed bytes).2 := by
  have hfold : ∀ (events : List FrameEvent) (frames : List (UInt16 × Nat × Nat)),
      frameEntries (events.foldl (fun frames event =>
        match event with
        | .frame msgType payload => countFrame frames msgType (payload.length + 6)
        | _ => frames) frames) ty = frameEntries frames ty + framesOf ty events := by
    intro events
    induction events with
    | nil => exact fun _ => rfl
    | cons event rest ih =>
        intro frames
        rw [List.foldl_cons, ih]
        cases event with
        | crcError => simp [framesOf]
        | garbage n => simp [framesOf]
        | frame msgType payload =>
            simp only [count_frame_entries, framesOf, List.countP_cons]
            simp only [decide_eq_true_eq]
            omega
  have hentries := hfold (d.feed bytes).2 []
  rw [show frameEntries [] ty = 0 from rfl, Nat.zero_add] at hentries
  exact hentries

end Worker

/-! ## The audit -/

/-- The books: the deframers of the connections so far, the last one first, the events that are
reported and those that are not, and the totals reported last. -/
structure Audit where
  deframers : List Deframer := []
  reported : List FrameEvent := []
  unreported : List FrameEvent := []
  posted : Nat × Nat := (0, 0)
  deriving DecidableEq, Repr

namespace Audit

/-- Every event so far. -/
def events (a : Audit) : List FrameEvent := a.reported ++ a.unreported

/-- Enter a post. A connection waits for data when it begins. -/
def note (a : Audit) : Post → Audit
  | .status .waitingForData => { a with deframers := {} :: a.deframers }
  | .push block =>
    match a.deframers with
    | [] => a
    | d :: earlier =>
      { a with
        deframers := (d.feed block).1 :: earlier
        unreported := a.unreported ++ (d.feed block).2 }
  | .rtcm batch =>
    { a with reported := a.events, unreported := [], posted := batch.health }
  | _ => a

/-- Nothing is left to report. -/
def Settled (a : Audit) : Prop :=
  (∀ ty, framesOf ty a.unreported = 0) ∧ a.posted = totals a.deframers

/-- A batch reports the totals of the deframers, which are not below those reported before, and
all that is unreported. A block is pushed on a connection. Nothing is unreported when it is, and
when its handling ends. -/
def Allows (a : Audit) : Post → Prop
  | .push _ => a.deframers ≠ [] ∧ a.Settled
  | .rxBytes _ => a.Settled
  | .rtcm batch => a.posted ≤ batch.health ∧ batch.health = totals a.deframers ∧
      ∀ ty, frameEntries batch.frames ty = framesOf ty a.unreported
  | _ => True

/-- The books after the posts. -/
def after (posts : List Post) : Audit := posts.foldl note {}

theorem after_append (posts more : List Post) :
    after (posts ++ more) = more.foldl note (after posts) := List.foldl_append

/-- A post that is no block, no batch and no new connection changes nothing in the books. -/
def quiet : Post → Bool
  | .status .waitingForData | .push _ | .rtcm _ => false
  | _ => true

theorem note_quiet (a : Audit) {p : Post} (h : quiet p = true) : a.note p = a := by
  cases p with
  | status status =>
      cases status with
      | waitingForData => simp [quiet] at h
      | connecting attempt => rfl
      | streaming => rfl
      | reconnectWait next => rfl
  | push block => simp [quiet] at h
  | rtcm batch => simp [quiet] at h
  | gga sentence => rfl
  | overruns total => rfl
  | rxBytes total => rfl

end Audit

namespace Cx

/-! ## The worker's totals -/

/-- The worker's totals agree with the books. The deframers of `live` are the ones that are not in
the base totals yet. -/
structure Balanced (cx : Cx) (live : List Deframer) : Prop where
  accepted : Observer.Accepts Audit.note Audit.Allows {} cx.posts
  settled : (Audit.after cx.posts).Settled
  health : cx.lastHealthPosted = (Audit.after cx.posts).posted
  base : ∃ earlier, (Audit.after cx.posts).deframers = live ++ earlier ∧
    (cx.crcBase, cx.garbageBase) = totals earlier

/-- Only the totals and the posts are in the balance. -/
theorem Balanced.congr {cx cx' : Cx} {live : List Deframer} (h : Balanced cx live)
    (hposts : cx'.posts = cx.posts) (hhealth : cx'.lastHealthPosted = cx.lastHealthPosted)
    (hcrc : cx'.crcBase = cx.crcBase) (hgarbage : cx'.garbageBase = cx.garbageBase) :
    Balanced cx' live := by
  obtain ⟨haccepted, hsettled, hposted, hbase⟩ := h
  rw [← hposts] at haccepted hsettled hposted hbase
  rw [← hhealth] at hposted
  rw [← hcrc, ← hgarbage] at hbase
  exact ⟨haccepted, hsettled, hposted, hbase⟩

theorem Balanced.post_quiet {cx : Cx} {live : List Deframer} (h : Balanced cx live) {p : Post}
    (hquiet : Audit.quiet p = true) : Balanced (cx.post [p]) live := by
  have hafter : Audit.after (cx.posts ++ [p]) = Audit.after cx.posts := by
    rw [Audit.after_append]
    exact Audit.note_quiet _ hquiet
  have hallowed : (Audit.after cx.posts).Allows p := by
    cases p with
    | rxBytes total => exact h.settled
    | push block => simp [Audit.quiet] at hquiet
    | rtcm batch => simp [Audit.quiet] at hquiet
    | status status => trivial
    | gga sentence => trivial
    | overruns total => trivial
  refine ⟨?_, ?_, ?_, ?_⟩
  · exact Observer.accepts_append.mpr ⟨h.accepted, hallowed, trivial⟩
  · show (Audit.after (cx.posts ++ [p])).Settled
    rw [hafter]
    exact h.settled
  · show cx.lastHealthPosted = (Audit.after (cx.posts ++ [p])).posted
    rw [hafter]
    exact h.health
  · show ∃ earlier, (Audit.after (cx.posts ++ [p])).deframers = live ++ earlier ∧ _
    rw [hafter]
    exact h.base

/-- A connection begins with a fresh deframer. -/
theorem Balanced.connected {cx : Cx} (h : Balanced cx []) (openedAt : Instant) :
    Balanced (cx.connected openedAt).cx [{}] := by
  obtain ⟨earlier, hdeframers, hbase⟩ := h.base
  have hafter : Audit.after (cx.posts ++ [.status .waitingForData]) =
      { Audit.after cx.posts with deframers := {} :: earlier } := by
    rw [Audit.after_append]
    show { Audit.after cx.posts with deframers := {} :: (Audit.after cx.posts).deframers } = _
    rw [hdeframers, List.nil_append]
  have htotals : totals ({} :: earlier) = totals (Audit.after cx.posts).deframers := by
    rw [hdeframers, totals_cons]
    simp
  refine ⟨Observer.accepts_append.mpr ⟨h.accepted, trivial, trivial⟩, ?_, ?_, earlier, ?_, hbase⟩
  · show (Audit.after (cx.posts ++ [.status .waitingForData])).Settled
    rw [hafter]
    exact ⟨h.settled.1, h.settled.2.trans htotals.symm⟩
  · show cx.lastHealthPosted = (Audit.after (cx.posts ++ [.status .waitingForData])).posted
    rw [hafter]
    exact h.health
  · show (Audit.after (cx.posts ++ [.status .waitingForData])).deframers = _
    rw [hafter]
    rfl

end Cx

namespace Audit

/-- What `on_corrections` hands out for a block: the block, what the queue dropped, the batch when
it is due, and the bytes received. -/
def blockPosts (block : Bytes) (overruns : List Post) (due : Bool) (batch : RtcmBatch)
    (total : Nat) : List Post :=
  [.push block] ++ overruns ++ (if due then [.rtcm batch] else []) ++ [.rxBytes total]

theorem accepts_overruns (a : Audit) {overruns : List Post}
    (h : ∀ p ∈ overruns, ∃ n, p = .overruns n) :
    Observer.Accepts note Allows a overruns ∧ overruns.foldl note a = a := by
  induction overruns with
  | nil => exact ⟨trivial, rfl⟩
  | cons p rest ih =>
      obtain ⟨n, rfl⟩ := h p (List.mem_cons_self ..)
      obtain ⟨haccepted, hfold⟩ := ih fun q hq => h q (List.mem_cons_of_mem _ hq)
      exact ⟨⟨trivial, haccepted⟩, hfold⟩

/-- The handling of a block, in the books: the block is pushed, and what it changes is reported
before the handling ends. -/
theorem block_accepted {a : Audit} (h : a.Settled) {d : Deframer} {earlier : List Deframer}
    (hdeframers : a.deframers = d :: earlier) (block : Bytes) {overruns : List Post}
    (hoverruns : ∀ p ∈ overruns, ∃ n, p = .overruns n) {batch : RtcmBatch}
    (hbatch : batch.health = totals ((d.feed block).1 :: earlier))
    (hframes : ∀ ty, frameEntries batch.frames ty = framesOf ty (d.feed block).2) {due : Bool}
    (hdue : due = false → batch.frames = [] ∧ batch.health = a.posted) (total : Nat) :
    Observer.Accepts note Allows a (blockPosts block overruns due batch total) ∧
      ((blockPosts block overruns due batch total).foldl note a).Settled ∧
      ((blockPosts block overruns due batch total).foldl note a).posted = batch.health ∧
      ((blockPosts block overruns due batch total).foldl note a).deframers =
        (d.feed block).1 :: earlier := by
  -- the books once the block is pushed, which the overruns leave alone
  let pushed : Audit := { a with
    deframers := (d.feed block).1 :: earlier
    unreported := a.unreported ++ (d.feed block).2 }
  have hnote : a.note (.push block) = pushed := by
    simp only [note, hdeframers, pushed]
  have hunreported : ∀ ty, framesOf ty pushed.unreported = framesOf ty (d.feed block).2 := by
    intro ty
    show framesOf ty (a.unreported ++ (d.feed block).2) = _
    rw [frames_of_append, h.1 ty, Nat.zero_add]
  obtain ⟨hover, hfold⟩ := accepts_overruns pushed hoverruns
  have hfirst : Observer.Accepts note Allows a ([.push block] ++ overruns) := by
    refine ⟨⟨by simp [hdeframers], h⟩, ?_⟩
    show Observer.Accepts note Allows (a.note (.push block)) overruns
    rw [hnote]
    exact hover
  have hpush : ([Post.push block] ++ overruns).foldl note a = pushed := by
    show overruns.foldl note (a.note (.push block)) = pushed
    rw [hnote, hfold]
  have hrest : ∀ more : List Post,
      ([Post.push block] ++ overruns ++ more).foldl note a = more.foldl note pushed := by
    intro more
    rw [List.foldl_append, hpush]
  unfold blockPosts
  cases due with
  | true =>
      have hgrows : pushed.posted ≤ batch.health := by
        show a.posted ≤ batch.health
        rw [h.2, hdeframers, hbatch]
        exact totals_feed d block earlier
      have hsettled : (pushed.note (.rtcm batch)).Settled := ⟨fun ty => rfl, hbatch⟩
      have hallowed : pushed.Allows (.rtcm batch) :=
        ⟨hgrows, hbatch, fun ty => (hframes ty).trans (hunreported ty).symm⟩
      simp only [if_true]
      rw [List.append_assoc, Observer.accepts_append, hpush, hrest]
      exact ⟨⟨hfirst, hallowed, hsettled, trivial⟩, hsettled, rfl, rfl⟩
  | false =>
      obtain ⟨hempty, hhealth⟩ := hdue rfl
      have hsettled : pushed.Settled := by
        refine ⟨?_, hhealth.symm.trans hbatch⟩
        intro ty
        rw [hunreported, ← hframes, hempty]
        rfl
      simp only [Bool.false_eq_true, if_false, List.append_nil]
      rw [Observer.accepts_append, hpush, hrest]
      exact ⟨⟨hfirst, hsettled, trivial⟩, hsettled, hhealth.symm, rfl⟩

end Audit

namespace Worker

theorem begin_stream_balanced {w : Worker} {live : List Deframer} (h : w.cx.Balanced live) :
    w.beginStream.cx.Balanced live ∧ w.beginStream.conn.deframer = w.conn.deframer := by
  unfold beginStream
  split
  · exact ⟨h, rfl⟩
  · have hcx : ({ w.cx with attemptsDone := 0, alertArmed := true } : Cx).Balanced live :=
      h.congr rfl rfl rfl rfl
    exact ⟨hcx.post_quiet rfl, rfl⟩

/-- What the handling of a block hands out and what becomes of the totals, once the stream has
begun. -/
theorem on_corrections_spec {w begun : Worker} (hbegun : w.beginStream = begun) (bytes : Bytes)
    (around : Surroundings) :
    ∃ overruns due batch total,
      (∀ p ∈ overruns, ∃ n, p = Post.overruns n) ∧
      batch.health = (begun.cx.crcBase + (begun.conn.deframer.feed bytes).1.crcFailures,
        begun.cx.garbageBase + (begun.conn.deframer.feed bytes).1.garbageBytes) ∧
      batch.frames = (deframe begun.conn.deframer bytes).2 ∧
      (due = false → batch.frames = [] ∧ batch.health = begun.cx.lastHealthPosted) ∧
      (w.onCorrections bytes around).cx.posts =
        begun.cx.posts ++ Audit.blockPosts bytes overruns due batch total ∧
      (w.onCorrections bytes around).cx.lastHealthPosted = batch.health ∧
      (w.onCorrections bytes around).cx.crcBase = begun.cx.crcBase ∧
      (w.onCorrections bytes around).cx.garbageBase = begun.cx.garbageBase ∧
      (w.onCorrections bytes around).conn.deframer = (begun.conn.deframer.feed bytes).1 := by
  unfold onCorrections
  rw [hbegun]
  let batch : RtcmBatch :=
    { frames := (deframe begun.conn.deframer bytes).2
      crcFailures := begun.cx.crcBase + (begun.conn.deframer.feed bytes).1.crcFailures
      garbageBytes := begun.cx.garbageBase + (begun.conn.deframer.feed bytes).1.garbageBytes }
  let due := !batch.frames.isEmpty || batch.health != begun.cx.lastHealthPosted
  have hquiet : due = false → batch.frames = [] ∧ batch.health = begun.cx.lastHealthPosted := by
    intro hdue
    obtain ⟨hframes, hsame⟩ := Bool.or_eq_false_iff.mp hdue
    refine ⟨?_, ?_⟩
    · simpa using hframes
    · simpa using hsame
  refine ⟨_, due, batch, _, ?_, rfl, rfl, hquiet, rfl, ?_, rfl, rfl, rfl⟩
  · intro p hp
    cases hpushed : around.pushed with
    | inactive => simp [hpushed] at hp
    | queued => simp [hpushed] at hp
    | droppedOldest n =>
        simp only [hpushed, List.mem_singleton] at hp
        exact ⟨n, hp⟩
  · show (if due then batch.health else begun.cx.lastHealthPosted) = batch.health
    cases hdue : due with
    | true => rfl
    | false => exact (hquiet hdue).2.symm

/-- The handling of a block keeps the balance. -/
theorem on_corrections_balanced {w : Worker} (h : w.cx.Balanced [w.conn.deframer])
    (bytes : Bytes) (around : Surroundings) :
    (w.onCorrections bytes around).cx.Balanced [(w.onCorrections bytes around).conn.deframer] := by
  obtain ⟨begun, hbegin⟩ : ∃ begun, w.beginStream = begun := ⟨_, rfl⟩
  obtain ⟨hbalanced, hsame⟩ := begin_stream_balanced h
  rw [hbegin] at hbalanced hsame
  rw [← hsame] at hbalanced
  obtain ⟨overruns, due, batch, total, hoverruns, hbatch, hframes, hdue, hposts, hposted, hcrc,
    hgarbage, hdeframer⟩ := on_corrections_spec hbegin bytes around
  obtain ⟨earlier, hdeframers, hbase⟩ := hbalanced.base
  obtain ⟨hcrcBase, hgarbageBase⟩ := Prod.mk.inj hbase
  have hhealth : batch.health = totals ((begun.conn.deframer.feed bytes).1 :: earlier) := by
    rw [hbatch, totals_cons, hcrcBase, hgarbageBase]
    exact Prod.ext (Nat.add_comm _ _) (Nat.add_comm _ _)
  have hentries : ∀ ty, frameEntries batch.frames ty =
      framesOf ty (begun.conn.deframer.feed bytes).2 := by
    intro ty
    rw [hframes, deframe_entries]
  rw [hbalanced.health] at hdue
  obtain ⟨haccepted, hsettled, hlast, hlive⟩ := Audit.block_accepted hbalanced.settled hdeframers
    bytes hoverruns hhealth hentries hdue total
  rw [← Audit.after_append, ← hposts] at hsettled hlast hlive
  refine ⟨?_, hsettled, hposted.trans hlast.symm, earlier, ?_, ?_⟩
  · rw [hposts]
    exact Observer.accepts_append.mpr ⟨hbalanced.accepted, haccepted⟩
  · rw [hlive, hdeframer]
    rfl
  · rw [hcrc, hgarbage, hbase]

theorem dispatch_one_balanced {w : Worker} (h : w.cx.Balanced [w.conn.deframer]) (o : Output)
    (around : Surroundings) :
    (w.dispatchOne o around).cx.Balanced [(w.dispatchOne o around).conn.deframer] := by
  cases o with
  | ggaDue =>
      -- a position that was sent is all that can be posted
      show (w.onGgaDue around).cx.Balanced [(w.onGgaDue around).conn.deframer]
      unfold onGgaDue
      cases sentence w.cx.job around with
      | none => exact h
      | some sentence =>
          cases around.written with
          | false => exact h
          | true => exact h.post_quiet rfl
  | corrections bytes => exact on_corrections_balanced h bytes around
  | protocolTx line => exact h
  | protocolRx line => exact h
  | sourcetable body => exact h
  | close reason => exact h

theorem dispatch_balanced {w : Worker} (h : w.cx.Balanced [w.conn.deframer]) (outs : List Output)
    (around : Nat → Surroundings) :
    (w.dispatch outs around).cx.Balanced [(w.dispatch outs around).conn.deframer] := by
  induction outs generalizing w around with
  | nil => exact h
  | cons o rest ih => exact ih (dispatch_one_balanced h o (around 0)) fun i => around (i + 1)

/-- The totals of a deframer leave the live ones for the base when its connection ends. -/
theorem disconnect_balanced {w : Worker} (h : w.cx.Balanced [w.conn.deframer]) :
    w.disconnect.cx.Balanced [] := by
  obtain ⟨earlier, hdeframers, hbase⟩ := h.base
  obtain ⟨hcrcBase, hgarbageBase⟩ := Prod.mk.inj hbase
  refine ⟨h.accepted, h.settled, h.health, w.conn.deframer :: earlier, hdeframers, ?_⟩
  show (w.cx.crcBase + w.conn.deframer.crcFailures,
    w.cx.garbageBase + w.conn.deframer.garbageBytes) = _
  rw [totals_cons, hcrcBase, hgarbageBase]
  exact Prod.ext (Nat.add_comm _ _) (Nat.add_comm _ _)

/-- A connection leaves no deframer behind when it has ended, and one while it is open. -/
theorem drive_loop_balanced {w : Worker} (h : w.cx.Balanced [w.conn.deframer])
    (outs : List Output) (around : Nat → Surroundings) (turns : List LoopTurn) :
    ∃ live, (w.driveLoop outs around turns).1.cx.Balanced live ∧
      ((w.driveLoop outs around turns).2 ≠ none → live = []) := by
  induction turns generalizing w outs around with
  | nil =>
      have hdispatch := dispatch_balanced h outs around
      cases hterminal : (w.dispatch outs around).conn.terminal with
      | some ended =>
          rw [drive_loop_ended hterminal]
          exact ⟨[], disconnect_balanced hdispatch, fun _ => rfl⟩
      | none =>
          rw [drive_loop_nil hterminal]
          exact ⟨_, hdispatch, fun hended => absurd rfl hended⟩
  | cons next rest ih =>
      have hdispatch := dispatch_balanced h outs around
      cases hterminal : (w.dispatch outs around).conn.terminal with
      | some ended =>
          rw [drive_loop_ended hterminal]
          exact ⟨[], disconnect_balanced hdispatch, fun _ => rfl⟩
      | none =>
          rw [drive_loop_cons hterminal]
          obtain ⟨flag, calls, hturn, -⟩ := turn_proceeds (w.dispatch outs around) next
          refine ih ?_ _ _
          rw [hturn]
          exact hdispatch.congr rfl rfl rfl rfl

end Worker

namespace Cx

/-! ## The run -/

/-- The worker's totals agree with the books, and no deframer is missing from the base totals once
the last connection has ended. -/
def Kept (cx : Cx) (ended : Prop) : Prop :=
  ∃ live, cx.Balanced live ∧ (ended → live = [])

theorem drive_connection_kept {cx : Cx} (h : cx.Balanced []) (script : ConnectionScript) :
    (cx.driveConnection script).1.Kept ((cx.driveConnection script).2 ≠ none) := by
  unfold driveConnection
  split
  · exact ⟨[], h, fun _ => rfl⟩
  · have hestablish : (cx.establish script.tls).1.Balanced [] := by
      unfold establish
      split
      · exact h
      · cases script.tls with
        | established => exact h
        | cancelled => exact h.congr rfl rfl rfl rfl
        | rejected => exact h
        | io => exact h
    generalize cx.establish script.tls = answer at hestablish
    obtain ⟨cx', ended⟩ := answer
    cases ended with
    | some ended => exact ⟨[], hestablish, fun _ => rfl⟩
    | none =>
        simp only
        split
        · exact ⟨[], hestablish, fun _ => rfl⟩
        · have hstart :
              ((cx'.connected script.openedAt).call (.onTick script.firstTick)).1.cx.Balanced
              [((cx'.connected script.openedAt).call (.onTick script.firstTick)).1.conn.deframer] :=
            hestablish.connected script.openedAt
          exact Worker.drive_loop_balanced hstart
            ((cx'.connected script.openedAt).call (.onTick script.firstTick)).2
            script.around script.turns

theorem after_connection_kept {cx : Cx} (h : cx.Balanced []) (ended : SessionEnd)
    (attempt : Attempt) :
    (cx.afterConnection ended attempt).1.Balanced [] ∧
      (cx.afterConnection ended attempt).2 ≠ .connected := by
  have hdropped : (cx.observe attempt.cancelledAfter).countDrop.Balanced [] := by
    unfold countDrop
    split
    · exact h.congr rfl rfl rfl rfl
    · exact h.congr rfl rfl rfl rfl
  unfold afterConnection
  split
  · exact ⟨h, by simp⟩
  · exact ⟨h, by simp⟩
  · simp only
    split
    · exact ⟨h.congr rfl rfl rfl rfl, by simp⟩
    · split
      · exact ⟨hdropped, by simp⟩
      · have hwaiting := hdropped.post_quiet (p := .status (.reconnectWait
          ((cx.observe attempt.cancelledAfter).countDrop.attemptsDone + 1))) rfl
        split
        · exact ⟨hwaiting.congr rfl rfl rfl rfl, by simp⟩
        · exact ⟨hwaiting.congr rfl rfl rfl rfl, by simp⟩

theorem connect_once_kept {cx : Cx} (h : cx.Balanced []) (outcome : ConnectOutcome) :
    (cx.connectOnce outcome).1.Kept ((cx.connectOnce outcome).2 ≠ .connected) := by
  cases outcome with
  | cancelled => exact ⟨[], h, fun _ => rfl⟩
  | failed => exact ⟨[], h, fun _ => rfl⟩
  | connected script =>
      have hdrive := drive_connection_kept h script
      simp only [connectOnce]
      generalize cx.driveConnection script = answer at hdrive
      obtain ⟨cx', ended⟩ := answer
      obtain ⟨live, hlive, hended⟩ := hdrive
      cases ended with
      | none => exact ⟨live, hlive, fun hopen => absurd rfl hopen⟩
      | some ended => exact ⟨live, hlive, fun _ => hended (by simp)⟩

theorem attempt_once_kept {cx : Cx} (h : cx.Balanced []) (attempt : Attempt) :
    (cx.attemptOnce attempt).1.Kept ((cx.attemptOnce attempt).2.2 ≠ .connected) := by
  unfold attemptOnce
  have hcounted : ({ cx with attemptsDone := cx.attemptsDone + 1 } : Cx).Balanced [] :=
    h.congr rfl rfl rfl rfl
  have hconnecting := hcounted.post_quiet (p := .status (.connecting (cx.attemptsDone + 1))) rfl
  have honce := connect_once_kept hconnecting attempt.connect
  simp only
  generalize Cx.connectOnce _ attempt.connect = answer at honce
  obtain ⟨next, reached⟩ := answer
  obtain ⟨live, hlive, hended⟩ := honce
  cases reached with
  | cancelled => exact ⟨live, hlive, fun _ => hended (by simp)⟩
  | connected => exact ⟨live, hlive, fun hopen => absurd rfl hopen⟩
  | ended ended =>
      obtain rfl : live = [] := hended (by simp)
      obtain ⟨hafter, -⟩ := after_connection_kept hlive ended attempt
      exact ⟨[], hafter, fun _ => rfl⟩

/-- Every run of the supervisor keeps the balance. -/
theorem supervise_kept {cx : Cx} (h : cx.Balanced []) (attempts : List Attempt) :
    (cx.supervise attempts).1.Kept ((cx.supervise attempts).2.2 ≠ .connected) := by
  induction attempts generalizing cx with
  | nil => exact ⟨[], h, fun _ => rfl⟩
  | cons attempt rest ih =>
      have hobserved : (cx.observe attempt.cancelledTop).Balanced [] := h.congr rfl rfl rfl rfl
      have honce := attempt_once_kept hobserved attempt
      unfold supervise
      simp only
      split
      · exact ⟨[], hobserved, fun _ => rfl⟩
      · generalize (cx.observe attempt.cancelledTop).attemptOnce attempt = answer at honce
        obtain ⟨next, record, course⟩ := answer
        cases course with
        | stopped failed => exact honce
        | connected => exact honce
        | again =>
            obtain ⟨live, hlive, hended⟩ := honce
            obtain rfl : live = [] := hended (by simp)
            exact ih hlive

end Cx

/-! ## What is pushed -/

/-- The blocks that are pushed, in order. -/
def pushedBlocks (posts : List Post) : List Bytes :=
  posts.filterMap fun p =>
    match p with
    | .push block => some block
    | _ => none

/-- The blocks of corrections among the outputs of a session, in order. -/
def correctionBlocks (outs : List Output) : List Bytes :=
  outs.filterMap fun o =>
    match o with
    | .corrections block => some block
    | _ => none

theorem pushed_blocks_append (first second : List Post) :
    pushedBlocks (first ++ second) = pushedBlocks first ++ pushedBlocks second :=
  List.filterMap_append

theorem correction_blocks_append (first second : List Output) :
    correctionBlocks (first ++ second) = correctionBlocks first ++ correctionBlocks second :=
  List.filterMap_append

namespace Worker

theorem on_corrections_pushed (w : Worker) (bytes : Bytes) (around : Surroundings) :
    pushedBlocks (w.onCorrections bytes around).cx.posts =
      pushedBlocks w.cx.posts ++ [bytes] := by
  obtain ⟨begun, hbegin⟩ : ∃ begun, w.beginStream = begun := ⟨_, rfl⟩
  have hbegun : pushedBlocks begun.cx.posts = pushedBlocks w.cx.posts := by
    rw [← hbegin, beginStream]
    split
    · rfl
    · show pushedBlocks (w.cx.posts ++ [.status .streaming]) = _
      rw [pushed_blocks_append]
      exact List.append_nil _
  obtain ⟨overruns, due, batch, total, hoverruns, -, -, -, hposts, -⟩ :=
    on_corrections_spec hbegin bytes around
  have hnone : pushedBlocks overruns = [] := by
    refine List.filterMap_eq_nil_iff.mpr fun p hp => ?_
    obtain ⟨n, rfl⟩ := hoverruns p hp
    rfl
  have hbatch : pushedBlocks (if due then [Post.rtcm batch] else []) = [] := by
    cases due with
    | true => rfl
    | false => rfl
  rw [hposts, pushed_blocks_append, hbegun, Audit.blockPosts, pushed_blocks_append,
    pushed_blocks_append, pushed_blocks_append, hnone, hbatch]
  rfl

/-- One output pushes its corrections, if it is some. -/
theorem dispatch_one_pushed (w : Worker) (o : Output) (around : Surroundings) :
    pushedBlocks (w.dispatchOne o around).cx.posts =
      pushedBlocks w.cx.posts ++ correctionBlocks [o] := by
  have hquiet : pushedBlocks w.cx.posts = pushedBlocks w.cx.posts ++ [] :=
    (List.append_nil _).symm
  cases o with
  | ggaDue =>
      show pushedBlocks (w.onGgaDue around).cx.posts = _ ++ []
      unfold onGgaDue
      cases sentence w.cx.job around with
      | none => exact hquiet
      | some sentence =>
          cases around.written with
          | false => exact hquiet
          | true => exact pushed_blocks_append w.cx.posts [.gga sentence]
  | corrections bytes => exact on_corrections_pushed w bytes around
  | protocolTx line => exact hquiet
  | protocolRx line => exact hquiet
  | sourcetable body => exact hquiet
  | close reason => exact hquiet

theorem dispatch_pushed (w : Worker) (outs : List Output) (around : Nat → Surroundings) :
    pushedBlocks (w.dispatch outs around).cx.posts =
      pushedBlocks w.cx.posts ++ correctionBlocks outs := by
  induction outs generalizing w around with
  | nil => exact (List.append_nil _).symm
  | cons o rest ih =>
      refine (ih (w.dispatchOne o (around 0)) fun i => around (i + 1)).trans ?_
      rw [dispatch_one_pushed, List.append_assoc, ← correction_blocks_append]
      rfl

/-- An acknowledgement yields no output. -/
theorem run_acknowledgements (s : NtripSession) {acks : List NtripSession.Call}
    (h : ∀ call ∈ acks, call.isAcknowledgement = true) : (s.run acks).2 = [] := by
  induction acks generalizing s with
  | nil => rfl
  | cons call rest ih =>
      have hone : (s.step call).2 = [] := by
        have hack := h call List.mem_cons_self
        cases call with
        | ggaSent now => rfl
        | ggaMissed now => rfl
        | _ => simp [NtripSession.Call.isAcknowledgement] at hack
      rw [NtripSession.run_cons]
      show (s.step call).2 ++ ((s.step call).1.run rest).2 = []
      rw [hone, ih _ fun call' hmem => h call' (List.mem_cons_of_mem _ hmem)]
      rfl

/-- The corrections that the session has put out so far on the calls on record. -/
def produced (cfg : SessionConfig) (t0 : Instant) (w : Worker) : List Bytes :=
  correctionBlocks (NtripSession.run (NtripSession.new cfg t0).1 w.calls).2

/-- What was pushed before, and the corrections that the session has put out, are what is pushed
and what is still to be dispatched. -/
structure Pushes (cfg : SessionConfig) (t0 : Instant) (before : List Bytes) (w : Worker)
    (outs : List Output) : Prop where
  onRecord : OnRecord cfg t0 w
  pushed : pushedBlocks w.cx.posts ++ correctionBlocks outs = before ++ w.produced cfg t0

variable {cfg : SessionConfig} {t0 : Instant} {before : List Bytes}

theorem Pushes.dispatch {w : Worker} {outs : List Output} (h : Pushes cfg t0 before w outs)
    (around : Nat → Surroundings) : Pushes cfg t0 before (w.dispatch outs around) [] := by
  have hanswers := dispatch_answers w outs around
  refine ⟨h.onRecord.answers hanswers, ?_⟩
  obtain ⟨acks, hacks, -, hcalls, -⟩ := hanswers
  have hproduced : (w.dispatch outs around).produced cfg t0 = w.produced cfg t0 := by
    unfold produced
    rw [hcalls, NtripSession.run_append]
    show correctionBlocks (_ ++ (NtripSession.run _ acks).2) = _
    rw [run_acknowledgements _ hacks, List.append_nil]
  rw [hproduced, dispatch_pushed, ← h.pushed]
  exact List.append_nil _

theorem Pushes.proceeds {w : Worker} {answer : Worker × List Output}
    (h : Pushes cfg t0 before w []) (hproceeds : Proceeds w answer) :
    Pushes cfg t0 before answer.1 answer.2 := by
  refine ⟨h.onRecord.proceeds hproceeds, ?_⟩
  have hrecord := h.onRecord
  obtain ⟨flag, calls, rfl, -⟩ := hproceeds
  have hproduced : ({ w with cx := w.cx.observe flag }.callAll calls).1.produced cfg t0 =
      w.produced cfg t0 ++ correctionBlocks (w.session.run calls).2 := by
    show correctionBlocks (NtripSession.run _ (w.calls ++ calls)).2 = _
    rw [NtripSession.run_append, hrecord]
    exact correction_blocks_append _ _
  have hpushed := h.pushed
  rw [show correctionBlocks [] = [] from rfl, List.append_nil] at hpushed
  rw [hproduced, ← List.append_assoc, ← hpushed]
  rfl

/-- Over the loop of a connection. -/
theorem drive_loop_pushed {w : Worker} {outs : List Output} (h : Pushes cfg t0 before w outs)
    (around : Nat → Surroundings) (turns : List LoopTurn) :
    Pushes cfg t0 before (w.driveLoop outs around turns).1 [] := by
  let dispatched : Worker → Prop := fun w => Pushes cfg t0 before w []
  have hdispatch : ∀ w outs around, Pushes cfg t0 before w outs →
      dispatched (w.dispatch outs around) := fun w outs around hw => hw.dispatch around
  refine drive_loop_invariant hdispatch ?_ ?_ h around turns
  · intro w next hw _
    exact hw.proceeds (turn_proceeds w next)
  · intro w hw
    exact ⟨hw.onRecord, hw.pushed⟩

end Worker

/-! ## The interface -/

namespace NtripUi

/-- The interface agrees with the books on what is reported. -/
def Tracks (a : Audit) (ui : NtripUi) : Prop :=
  (∀ ty, ui.frameCount ty = framesOf ty a.reported) ∧
    (ui.rtcmCrcFailures, ui.rtcmGarbageBytes) = a.posted

/-- Consume a post, if it goes to the bus. -/
def consume (state : NtripUi × (Nat → Instant)) (p : Post) : NtripUi × (Nat → Instant) :=
  match p.event with
  | none => state
  | some event => (state.1.apply event (state.2 0), fun i => state.2 (i + 1))

theorem apply_all_eq (ui : NtripUi) (posts : List Post) (clock : Nat → Instant) :
    ui.applyAll (posts.filterMap Post.event) clock = (posts.foldl consume (ui, clock)).1 := by
  induction posts generalizing ui clock with
  | nil => rfl
  | cons p rest ih =>
      rw [List.foldl_cons, consume]
      cases hevent : p.event with
      | none =>
          rw [List.filterMap_cons_none hevent]
          exact ih ui clock
      | some event =>
          rw [List.filterMap_cons_some hevent]
          exact ih _ _

/-- A post that the books allow keeps the interface in agreement with them. -/
theorem Tracks.consume {a : Audit} {state : NtripUi × (Nat → Instant)} {p : Post}
    (h : Tracks a state.1) (hallowed : a.Allows p) : Tracks (a.note p) (consume state p).1 := by
  cases p with
  | status status =>
      cases status with
      | _ => exact h
  | gga sentence => exact h
  | overruns total => exact h
  | rxBytes total => exact h
  | push block =>
      simp only [Audit.note]
      split
      · exact h
      · exact h
  | rtcm batch =>
      obtain ⟨-, -, hentries⟩ := hallowed
      obtain ⟨hcounts, hcrc, hgarbage⟩ := state.1.apply_rtcm_spec batch (state.2 0)
      refine ⟨?_, Prod.ext hcrc hgarbage⟩
      intro ty
      refine (hcounts ty).trans ?_
      rw [h.1 ty, hentries ty]
      exact (frames_of_append ty a.reported a.unreported).symm

end NtripUi

/-! ## Every run -/

/-- The totals of a post that is a batch. -/
def Post.health : Post → Option (Nat × Nat)
  | .rtcm batch => some batch.health
  | _ => none

/-- The posts agree with the books: the totals of the batches do not fall, each batch states the
totals of the deframers and all frames that no batch before it has counted, by type, and nothing
is left to report when the handling of a block ends, when the next one is pushed on a connection,
and in the end. -/
structure Accounted (posts : List Post) : Prop where
  ordered : (posts.filterMap Post.health).Pairwise (· ≤ ·)
  batch : ∀ before batch after, posts = before ++ .rtcm batch :: after →
    batch.health = totals (Audit.after before).deframers ∧
      ∀ ty, frameEntries batch.frames ty = framesOf ty (Audit.after before).unreported
  handled : ∀ before total after, posts = before ++ .rxBytes total :: after →
    (Audit.after before).Settled
  pushed : ∀ before block after, posts = before ++ .push block :: after →
    (Audit.after before).deframers ≠ [] ∧ (Audit.after before).Settled
  settled : (Audit.after posts).Settled

/-- Only a batch reports totals. -/
theorem posted_kept (a : Audit) (p : Post) (h : p.health = none) :
    a.posted ≤ (a.note p).posted := by
  cases p with
  | rtcm batch => simp [Post.health] at h
  | push block =>
      simp only [Audit.note]
      split
      · exact le_refl _
      · exact le_refl _
  | status status =>
      cases status with
      | _ => exact le_refl _
  | _ => exact le_refl _

theorem accounted_of_accepted {posts : List Post}
    (h : Observer.Accepts Audit.note Audit.Allows {} posts)
    (hsettled : (Audit.after posts).Settled) : Accounted posts := by
  refine ⟨?_, ?_, ?_, ?_, hsettled⟩
  · have hset : ∀ (a : Audit) (p : Post) (r : Nat × Nat), a.Allows p → p.health = some r →
        a.posted ≤ r ∧ (a.note p).posted = r := by
      intro a p r hallowed hreading
      cases p with
      | rtcm batch =>
          obtain rfl := Option.some.inj hreading
          exact ⟨hallowed.1, rfl⟩
      | _ => simp [Post.health] at hreading
    exact (Observer.Accepts.pairwise_le hset posted_kept h).2
  · rintro before batch after rfl
    exact h.split.2
  · rintro before total after rfl
    exact h.split
  · rintro before block after rfl
    exact h.split

/-- **RTCM accounting.** In every run of the worker the batches agree with the deframers of its
connections, the base totals are those of all deframers unless a connection is still open, and an
interface that has consumed the events of the run shows the frames of all deframers by type and
their totals. The blocks that the deframers are fed are those that the sessions put out: what a
connection pushes is, in order, the corrections of its session. -/
theorem rtcm_accounting (job : NtripJob) (attempts : List Cx.Attempt) (ui : NtripUi)
    (clock : Nat → Instant) :
    Accounted (({ job } : Cx).supervise attempts).1.posts ∧
      ((({ job } : Cx).supervise attempts).2.2 ≠ .connected →
        ((({ job } : Cx).supervise attempts).1.crcBase,
          (({ job } : Cx).supervise attempts).1.garbageBase) =
          totals (Audit.after (({ job } : Cx).supervise attempts).1.posts).deframers) ∧
      (∀ ty, (ui.resetStreamStats.applyAll
          ((({ job } : Cx).supervise attempts).1.posts.filterMap Post.event) clock).frameCount ty =
        framesOf ty (Audit.after (({ job } : Cx).supervise attempts).1.posts).events) ∧
      ((ui.resetStreamStats.applyAll
          ((({ job } : Cx).supervise attempts).1.posts.filterMap Post.event)
          clock).rtcmCrcFailures,
        (ui.resetStreamStats.applyAll
          ((({ job } : Cx).supervise attempts).1.posts.filterMap Post.event)
          clock).rtcmGarbageBytes) =
        totals (Audit.after (({ job } : Cx).supervise attempts).1.posts).deframers ∧
      ∀ (cx : Cx) (openedAt firstTick : Instant) (around : Nat → Worker.Surroundings)
        (turns : List Worker.LoopTurn),
        let opened := (cx.connected openedAt).call (.onTick firstTick)
        let w := (opened.1.driveLoop opened.2 around turns).1
        pushedBlocks w.cx.posts = pushedBlocks cx.posts ++ correctionBlocks
          (NtripSession.run (NtripSession.new cx.job.sessionConfig openedAt).1 w.calls).2 := by
  have hstart : ({ job } : Cx).Balanced [] :=
    ⟨trivial, ⟨fun _ => rfl, rfl⟩, rfl, [], rfl, rfl⟩
  obtain ⟨live, hlive, hopen⟩ := Cx.supervise_kept hstart attempts
  generalize ({ job } : Cx).supervise attempts = run at hlive hopen
  obtain ⟨haccepted, hsettled, -, earlier, hdeframers, hbase⟩ := hlive
  refine ⟨accounted_of_accepted haccepted hsettled, ?_, ?_⟩
  · intro hended
    rw [hbase, hdeframers, hopen (by simpa using hended), List.nil_append]
  · rw [NtripUi.apply_all_eq]
    have htracks : NtripUi.Tracks (Audit.after run.1.posts)
        (run.1.posts.foldl NtripUi.consume (ui.resetStreamStats, clock)).1 := by
      have hstep : ∀ (a : Audit) (state : NtripUi × (Nat → Instant)) (p : Post),
          NtripUi.Tracks a state.1 → a.Allows p →
          NtripUi.Tracks (a.note p) (NtripUi.consume state p).1 :=
        fun a state p h hallowed => h.consume hallowed
      exact haccepted.simulates hstep ⟨fun _ => rfl, rfl⟩
    obtain ⟨hcounts, hposted⟩ := htracks
    refine ⟨?_, hposted.trans hsettled.2, ?_⟩
    · intro ty
      rw [hcounts ty, Audit.events, frames_of_append, hsettled.1 ty, Nat.add_zero]
    · intro cx openedAt firstTick turnsAround turns opened w
      have hconnected : Worker.Pushes cx.job.sessionConfig openedAt (pushedBlocks cx.posts)
          (cx.connected openedAt) [] := by
        refine ⟨rfl, ?_⟩
        show pushedBlocks (cx.posts ++ [.status .waitingForData]) ++ [] = _ ++ []
        rw [pushed_blocks_append]
        exact List.append_assoc _ _ _
      have hopened : Worker.Proceeds (cx.connected openedAt) opened := .plain rfl (by simp)
      have hw := (Worker.drive_loop_pushed (hconnected.proceeds hopened) turnsAround turns).pushed
      exact (List.append_nil _).symm.trans hw

end OpenNtrip
