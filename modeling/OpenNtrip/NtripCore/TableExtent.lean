import OpenNtrip.NtripCore.Conservation
import OpenNtrip.NtripCore.Lifecycle
import OpenNtrip.NtripCore.Sourcetable

/-!
# The extent of a table body

A table response announces how its body is delimited. `TableFraming.extent` says, from the bytes
received alone, when the table is complete and what it is; `Tabled` is the invariant that the
tables a session has delivered so far are those of the bytes it has received, and `run_tabled`
carries it through every run.
-/

namespace OpenNtrip

open Sourcetable (CompleteLines)

/-! ## The shortest part that ends with an end line -/

/-- Complete lines, the last of which is an end line. -/
def EndsTable (bytes : Bytes) : Prop :=
  ∃ front line, bytes = front ++ (line ++ [LF]) ∧ CompleteLines front ∧ LF ∉ line ∧
    isEndLine line = true

/-- The shortest start of a body that ends with an end line. -/
structure ShortestEnd (body table : Bytes) : Prop where
  starts : table <+: body
  ends : EndsTable table
  shortest : ∀ other, other <+: body → EndsTable other → table.length ≤ other.length

theorem ShortestEnd.unique {body table table' : Bytes} (h : ShortestEnd body table)
    (h' : ShortestEnd body table') : table = table' := by
  have hlength : table.length = table'.length :=
    Nat.le_antisymm (h.shortest _ h'.starts h'.ends) (h'.shortest _ h.starts h.ends)
  exact (List.prefix_of_prefix_length_le h.starts h'.starts hlength.le).eq_of_length hlength

/-- The last of some complete lines is determined. -/
theorem last_line_unique {front line front' line' : Bytes} (hfront : CompleteLines front)
    (hfront' : CompleteLines front') (hline : LF ∉ line) (hline' : LF ∉ line')
    (h : front ++ line = front' ++ line') : line = line' := by
  -- a front that is longer would end inside the other's line
  have hinside : ∀ {front front' line line' more : Bytes}, CompleteLines front' → LF ∉ line →
      front' = front ++ more → line = more ++ line' → line = line' := by
    intro front front' line line' more hcomplete hnot hfront hline
    cases hmore : more with
    | nil => rw [hline, hmore, List.nil_append]
    | cons b rest =>
        have hne : more ≠ [] := by rw [hmore]; exact List.cons_ne_nil _ _
        refine absurd ?_ hnot
        rcases hcomplete with hnil | ⟨first, hfirst⟩
        · rw [hnil] at hfront
          exact absurd (List.append_eq_nil_iff.mp hfront.symm).2 hne
        · have hlast : more.getLast? = some LF := by
            rw [← List.getLast?_append_of_ne_nil front hne, ← hfront, hfirst]
            exact List.getLast?_concat
          rw [hline]
          exact List.mem_append_left _ (List.mem_of_getLast? hlast)
  rcases List.append_eq_append_iff.mp h with ⟨more, hmore, hrest⟩ | ⟨more, hmore, hrest⟩
  · exact hinside hfront' hline hmore hrest
  · exact (hinside hfront hline' hmore hrest).symm

/-- What ends with a line feed past some position reaches the first line feed from there on. -/
theorem first_line_le {body line rest other : Bytes} {scan : Nat}
    (h : splitLine (body.drop scan) = some (line, rest)) (hother : other ++ [LF] <+: body)
    (hlt : scan ≤ other.length) : scan + line.length ≤ other.length := by
  obtain ⟨hdrop, hnot⟩ := split_line_eq_some.mp h
  obtain ⟨more, hmore⟩ := hother
  have hafter : other.drop scan ++ LF :: more = line ++ LF :: rest := by
    rw [← hdrop, ← hmore, List.append_assoc, List.drop_append_of_le_length hlt]
    rfl
  by_contra hshort
  -- otherwise the line feed would be inside the line
  have hlen : (other.drop scan).length < line.length := by
    rw [List.length_drop]
    omega
  have hget : (line ++ LF :: rest)[(other.drop scan).length]? = some LF := by
    rw [← hafter, List.getElem?_append_right (Nat.le_refl _), Nat.sub_self,
      List.getElem?_cons_zero]
  rw [List.getElem?_append_left hlen] at hget
  exact hnot (List.mem_of_getElem? hget)

/-- A line that was split off extends what was scanned before it. -/
theorem take_line {body line rest : Bytes} {scan : Nat} (hle : scan ≤ body.length)
    (h : splitLine (body.drop scan) = some (line, rest)) :
    body.take (scan + line.length + 1) = body.take scan ++ (line ++ [LF]) := by
  obtain ⟨hdrop, -⟩ := split_line_eq_some.mp h
  have hlength : (body.take scan).length = scan := List.length_take_of_le hle
  have hbody : body = body.take scan ++ (line ++ [LF] ++ rest) := by
    rw [List.append_assoc, List.singleton_append, ← hdrop, List.take_append_drop]
  generalize body.take scan = front at hlength hbody ⊢
  rw [hbody, ← List.append_assoc]
  refine List.take_left' ?_
  simp only [List.length_append, List.length_singleton, hlength]
  omega

/-- No end line ends before the first line from the cursor does. -/
theorem EndsTable.line_le {body line rest other : Bytes} {scan : Nat} (hends : EndsTable other)
    (hother : other <+: body) (hlt : scan < other.length)
    (hsplit : splitLine (body.drop scan) = some (line, rest)) :
    scan + line.length + 1 ≤ other.length := by
  obtain ⟨front, last, rfl, -, -, -⟩ := hends
  rw [← List.append_assoc] at hother hlt ⊢
  rw [List.length_append, List.length_singleton] at hlt ⊢
  exact Nat.succ_le_succ (first_line_le hsplit hother (Nat.le_of_lt_succ hlt))

/-- The scan finds the shortest end, unless one ends before the cursor. -/
theorem scan_end_line_shortest {body : Bytes} {scan : Nat} (hle : scan ≤ body.length)
    (hcomplete : CompleteLines (body.take scan))
    (hbefore : ∀ other, other <+: body → EndsTable other → scan < other.length) :
    match (scanEndLine body scan).1 with
    | some stop => ShortestEnd body (body.take stop)
    | none => ∀ other, other <+: body → ¬ EndsTable other := by
  fun_induction scanEndLine body scan with
  | case1 scan hsplit =>
      -- the line feed at the end would be in the unfinished line
      intro other hother hends
      have hlt := hbefore other hother hends
      obtain ⟨front, line, rfl, -, -, -⟩ := hends
      obtain ⟨more, rfl⟩ := hother
      rw [← List.append_assoc front, List.length_append, List.length_singleton] at hlt
      refine split_line_eq_none.mp hsplit ?_
      rw [← List.append_assoc front, List.append_assoc (front ++ line),
        List.drop_append_of_le_length (Nat.le_of_lt_succ hlt)]
      exact List.mem_append_right _ List.mem_cons_self
  | case2 scan line rest hsplit hend =>
      have hnot := (split_line_eq_some.mp hsplit).2
      have htake := take_line hle hsplit
      refine ⟨List.take_prefix _ _, ⟨_, line, htake, hcomplete, hnot, hend⟩, ?_⟩
      intro other hother hends
      have hline := hends.line_le hother (hbefore other hother hends) hsplit
      exact Nat.le_trans (List.length_take_le _ _) hline
  | case3 scan line rest hsplit hend ih =>
      have hnot := (split_line_eq_some.mp hsplit).2
      have htake := take_line hle hsplit
      have hlength := split_line_length hsplit
      rw [List.length_drop] at hlength
      refine ih (by omega) ?_ ?_
      · rw [htake, ← List.append_assoc]
        exact .inr ⟨_, rfl⟩
      · intro other hother hends
        have hline := hends.line_le hother (hbefore other hother hends) hsplit
        refine Nat.lt_of_le_of_ne hline fun heq => hend ?_
        -- an end line there would be this line
        obtain ⟨front, last, rfl, hfront, hlast, hlastend⟩ := hends
        have hsame : front ++ (last ++ [LF]) = body.take scan ++ (line ++ [LF]) := by
          rw [← htake, heq]
          exact List.prefix_iff_eq_take.mp hother
        rw [← List.append_assoc, ← List.append_assoc] at hsame
        have hlines := List.append_cancel_right hsame
        rw [← last_line_unique hfront hcomplete hlast hnot hlines]
        exact hlastend

/-- The shortest start of a body that ends with an end line, if there is one. -/
def shortestEnd (body : Bytes) : Option Bytes := (scanEndLine body 0).1.map body.take

theorem shortest_end_some {body table : Bytes} :
    shortestEnd body = some table ↔ ShortestEnd body table := by
  have hnonempty : ∀ other, other <+: body → EndsTable other → 0 < other.length := by
    rintro other - ⟨front, line, rfl, -⟩
    simp only [List.length_append, List.length_singleton]
    omega
  have hscan := scan_end_line_shortest (Nat.zero_le body.length) (.inl rfl) hnonempty
  rw [shortestEnd, Option.map_eq_some_iff]
  cases hstop : (scanEndLine body 0).1 with
  | none =>
      rw [hstop] at hscan
      constructor
      · rintro ⟨stop, hnone, -⟩
        exact absurd hnone (Option.some_ne_none stop).symm
      · intro hends
        exact absurd hends.ends (hscan table hends.starts)
  | some stop =>
      rw [hstop] at hscan
      constructor
      · rintro ⟨stop', hstop', rfl⟩
        rw [← Option.some.inj hstop']
        exact hscan
      · intro hends
        exact ⟨stop, rfl, hscan.unique hends⟩

theorem shortest_end_none {body : Bytes} :
    shortestEnd body = none ↔ ∀ table, ¬ ShortestEnd body table := by
  rw [Option.eq_none_iff_forall_ne_some]
  exact forall_congr' fun table => not_congr shortest_end_some

/-! ## Table responses -/

/-- How a table response delimits its body, besides the end line. -/
inductive TableFraming where
  | untilClose
  | length (n : Nat)
  | chunked
  deriving DecidableEq, Repr

/-- The framing of the table that an answer announces. A Content-Length outranks chunking. -/
def tableFraming (cfg : SessionConfig) : Answer → Option TableFraming
  | .sourcetable => some .untilClose
  | .http info =>
    let status := Text.toAsciiUppercase (Text.trimAscii info.status)
    if !Text.contains status " 401".toList && Text.contains status " 200".toList &&
        (cfg.mountpoint.isEmpty ||
          Text.contains info.contentType "gnss/sourcetable".toList) then
      some (match info.contentLength with
        | some n => .length n
        | none => if info.chunked then .chunked else .untilClose)
    else none
  | _ => none

/-- The table response among the bytes received: its framing and the bytes behind its header. -/
def tableResponse (cfg : SessionConfig) (received : Bytes) : Option (TableFraming × Bytes) :=
  match cfg.transport with
  | .rawTcp => none
  | .ntrip =>
    let header := parseHeader received
    match header.outcome with
    | .complete answer =>
      (tableFraming cfg answer).map fun framing => (framing, received.drop header.used)
    | .more _ => none

namespace TableFraming

/-- The body decoded: no more than its length, and out of its chunks. -/
def decoded : TableFraming → Bytes → Bytes
  | untilClose, body => body
  | length n, body => body.take n
  | chunked, body => dechunk body

/-- All of the body has arrived: as many bytes as announced, or the terminal chunk. -/
def arrived : TableFraming → Bytes → Bool
  | untilClose, _ => false
  | length n, body => decide (n ≤ body.length)
  | chunked, body =>
    match (Chunked.Decoder.feed {} body).2 with
    | .ok dec => dec.isDone
    | .error _ => false

/-- The table that is complete, if one is, whatever may follow. -/
def extent (framing : TableFraming) (body : Bytes) : Option Bytes :=
  match shortestEnd (framing.decoded body) with
  | some table => some table
  | none => if framing.arrived body then some (framing.decoded body) else none

/-- The table phase before its first byte. -/
def fresh (framing : TableFraming) (deadline : Instant) : TableState where
  mode := match framing with
    | untilClose => .direct none
    | length n => .direct (some n)
    | chunked => .chunked {}
  deadline := deadline

/-- A fresh table absorbs up to the shortest end. -/
theorem absorb_fresh (framing : TableFraming) (deadline : Instant) (data : Bytes)
    (mode : TableMode) :
    ((framing.fresh deadline).absorb data mode).2 = (shortestEnd data).isSome ∧
      ((framing.fresh deadline).absorb data mode).1.body = (shortestEnd data).getD data := by
  obtain ⟨hfound, hbody, -⟩ := (framing.fresh deadline).absorb_spec data mode
  have hdata : (framing.fresh deadline).body ++ data = data := rfl
  have hscan : (framing.fresh deadline).scan = 0 := rfl
  rw [hdata, hscan] at hfound hbody
  rw [hfound, hbody, shortestEnd]
  cases (scanEndLine data 0).1 with
  | none => exact ⟨rfl, rfl⟩
  | some stop => exact ⟨rfl, rfl⟩

/-- Fed its whole body at once, a table absorbs what was decoded. It is complete if an end line is
found or everything has arrived. -/
theorem feed_fresh_eq (framing : TableFraming) (deadline : Instant) (body : Bytes) :
    ∃ mode otherwise, (otherwise = .none ∨ ∃ detail, otherwise = .corrupt detail) ∧
      feedTable (framing.fresh deadline) body =
        (((framing.fresh deadline).absorb (framing.decoded body) mode).1,
          completeIf (((framing.fresh deadline).absorb (framing.decoded body) mode).2 ||
            framing.arrived body) otherwise) := by
  cases framing with
  | untilClose =>
      refine ⟨.direct none, .none, .inl rfl, ?_⟩
      have hmode : (untilClose.fresh deadline).mode = .direct none := rfl
      rw [feed_table_direct hmode]
      simp only [tableTake, List.take_length, decoded, arrived, Option.map_none]
      rfl
  | length n =>
      refine ⟨.direct (some (n - min n body.length)), .none, .inl rfl, ?_⟩
      have hmode : ((length n).fresh deadline).mode = .direct (some n) := rfl
      have hleft : (some (n - min n body.length) == some 0) = decide (n ≤ body.length) := by
        rw [Bool.eq_iff_iff, beq_iff_eq, decide_eq_true_iff, Option.some.injEq]
        omega
      have htake : body.take (min n body.length) = body.take n := List.take_eq_take_min.symm
      rw [feed_table_direct hmode]
      simp only [tableTake, decoded, arrived, Option.map_some, hleft, htake]
  | chunked =>
      have hdecoded : (Chunked.Decoder.feed {} body).1 = dechunk body :=
        Chunked.Decoder.feed_reference body
      have hmode : (chunked.fresh deadline).mode = .chunked {} := rfl
      rw [feed_table_chunked hmode, chunkedAnswer, hdecoded]
      cases hresult : (Chunked.Decoder.feed {} body).2 with
      | error detail =>
          refine ⟨(chunked.fresh deadline).mode, .corrupt detail, .inr ⟨detail, rfl⟩, ?_⟩
          simp only [decoded, arrived, hresult, Bool.or_false]
      | ok dec =>
          refine ⟨.chunked dec, .none, .inl rfl, ?_⟩
          simp only [decoded, arrived, hresult]

/-- Fed its whole body at once, a table is complete when its extent is; otherwise it holds what was
decoded, unless the chunks are malformed. -/
theorem feed_fresh (framing : TableFraming) (deadline : Instant) (body : Bytes) :
    match framing.extent body with
    | some table => (feedTable (framing.fresh deadline) body).2 = .tableComplete ∧
        (feedTable (framing.fresh deadline) body).1.body = table
    | none => (feedTable (framing.fresh deadline) body).1.body = framing.decoded body ∧
        ((feedTable (framing.fresh deadline) body).2 = .none ∨
          ∃ detail, (feedTable (framing.fresh deadline) body).2 = .corrupt detail) := by
  obtain ⟨mode, otherwise, hotherwise, hfeed⟩ := framing.feed_fresh_eq deadline body
  obtain ⟨hfound, hbody⟩ := framing.absorb_fresh deadline (framing.decoded body) mode
  rw [hfeed, extent]
  simp only [hfound, hbody]
  cases hend : shortestEnd (framing.decoded body) with
  | some table => exact ⟨rfl, rfl⟩
  | none =>
      cases harrived : framing.arrived body with
      | true => exact ⟨rfl, rfl⟩
      | false => exact ⟨rfl, hotherwise⟩

end TableFraming

/-- The tables that a session may have delivered: one that is complete, or when none is the one
that the remote close cut off. -/
def Delivered (cfg : SessionConfig) (received : Bytes) (remote : Prop) (tables : List Bytes) :
    Prop :=
  match tableResponse cfg received with
  | none => tables = []
  | some (framing, body) =>
    match framing.extent body with
    | some table => tables = [table]
    | none => tables = [] ∨ remote ∧ tables = [framing.decoded body]

/-! ## Reading outputs -/

/-- The tables delivered, in order. -/
def tablesIn (out : List Output) : List Bytes :=
  out.filterMap fun
    | .sourcetable body => some body
    | .close (.mountpointNotFound body) => some body
    | _ => none

@[simp] theorem tables_append (left right : List Output) :
    tablesIn (left ++ right) = tablesIn left ++ tablesIn right :=
  List.filterMap_append

/-- Only the end of a session delivers a table. -/
theorem tables_midway {terms : Terms} {out : List Output}
    (h : ∀ o ∈ out, o.midway terms = true) : tablesIn out = [] := by
  rw [tablesIn, List.filterMap_eq_nil_iff]
  intro o ho
  have hending := (Output.midway_not (h o ho)).1
  cases o with
  | sourcetable body => exact absurd hending (by simp [Output.isEnding])
  | close reason => exact absurd hending (by simp [Output.isEnding])
  | _ => rfl

namespace NtripSession

@[simp] theorem tables_rx_lines (lines : List Text) : tablesIn (rxLines lines) = [] := by
  simp [tablesIn, rxLines, List.filterMap_map]

/-- A close that says anything but that the mountpoint is missing delivers no table. -/
theorem tables_emit_close (s : NtripSession) {reason : CloseReason}
    (h : ∀ body, reason ≠ .mountpointNotFound body) : tablesIn (s.emitClose reason).2 = [] := by
  have hclose : tablesIn [.close reason] = [] := by
    cases reason with
    | mountpointNotFound body => exact absurd rfl (h body)
    | _ => rfl
  rw [emitClose, tables_append, hclose]
  split
  · rfl
  · rfl

/-- A table that is complete, or cut off by the remote close, is delivered once. -/
theorem tables_finalize {s : NtripSession} {t : TableState} (h : s.phase = .table t)
    {closeAfter : Option CloseReason}
    (hclose : closeAfter = none ∨ closeAfter = some .remoteClosed) :
    tablesIn (s.finalizeTable closeAfter).2 = [t.body] := by
  simp only [finalizeTable, h]
  split
  · rfl
  · rcases hclose with rfl | rfl
    · rfl
    · rfl

theorem apply_table_pending (s : NtripSession) (answer : TableState × BodyEvent) :
    (s.applyTable answer).1.pending = s.pending := by
  obtain ⟨t, event⟩ := answer
  cases event with
  | tableComplete =>
      simp only [applyTable, applyBodyEvent, finalizeTable]
      split
      · rfl
      · rfl
  | _ => rfl

theorem tables_remote_close {s : NtripSession} {t : TableState} (h : s.phase = .table t)
    (hpending : tablesIn s.pending = []) : tablesIn s.onRemoteClose.2 = [t.body] := by
  have htables := tables_finalize (s := s.flushPending.1) h (.inr rfl)
  unfold onRemoteClose
  simp only [flushPending, h] at htables ⊢
  rw [tables_append, hpending, htables]
  rfl

theorem on_remote_close_pending (s : NtripSession) : s.onRemoteClose.1.pending = [] := by
  obtain ⟨buf, closed, hstate⟩ := on_remote_close_state s
  rw [hstate]

theorem tables_refuse (s : NtripSession) : tablesIn (s.refuse []).2.2 = [] :=
  tables_emit_close _ (by simp)

/-- A stream delivers no table. -/
theorem tables_apply_stream (s : NtripSession) (st : StreamState) (data : Bytes) :
    tablesIn (s.applyStream (feedStream st data)).2 = [] := by
  have hstreaming : (⟨false, true, false, false, false, false⟩ : Terms).streaming = true := rfl
  have hmid := tables_midway (feed_stream_midway hstreaming st data)
  by_cases hopen : (feedStream st data).2.1 = .none
  · rw [apply_stream_open s hopen]
    exact hmid
  · rw [apply_stream_ended s (feed_stream_ended st data) hopen, tables_append, hmid]
    cases (feedStream st data).2.1 <;> rfl

/-- Body bytes of a stream deliver no table, and do not lead to one. -/
theorem ingest_stream_tables {s : NtripSession} {st : StreamState} (h : s.phase = .streaming st)
    (data : Bytes) :
    tablesIn (s.ingestBody data).2 = [] ∧
      ((s.ingestBody data).1.phase = .done ∨
        ∃ st', (s.ingestBody data).1.phase = .streaming st') := by
  rw [ingest_body_streaming h]
  refine ⟨tables_apply_stream s st data, ?_⟩
  by_cases hopen : (feedStream st data).2.1 = .none
  · rw [apply_stream_open s hopen]
    exact .inr ⟨_, rfl⟩
  · rw [apply_stream_ended s (feed_stream_ended st data) hopen]
    exact .inl rfl

/-! ## The answer to a complete header -/

/-- A table response puts the session into the table phase, and what follows the header is its
body. -/
theorem take_answer_table {cfg : SessionConfig} {s : NtripSession} {answer : Answer}
    {framing : TableFraming} (hmount : s.mountpointRequested = !cfg.mountpoint.isEmpty)
    (h : tableFraming cfg answer = some framing) (now : Instant) :
    ∃ s' : NtripSession, s'.phase = .table (framing.fresh (now + TABLE_TIMEOUT)) ∧
      s'.pending = s.pending ∧
      enterBody (takeAnswer s now ⟨.complete answer, [], 0⟩) = s'.ingestBody s.buf.unparsed := by
  cases answer with
  | icy => exact absurd h (by simp [tableFraming])
  | unknown => exact absurd h (by simp [tableFraming])
  | sourcetable =>
      obtain rfl : TableFraming.untilClose = framing := Option.some.inj h
      refine ⟨enterTable { s with phase := .statusLine, buf := {} } now (.direct none), rfl, rfl,
        ?_⟩
      simp only [takeAnswer, HdrBuf.advance_zero, enterBody]
      rfl
  | http info =>
      simp only [tableFraming] at h
      split at h
      · next haccepted =>
          simp only [Bool.and_eq_true, Bool.not_eq_true'] at haccepted
          obtain ⟨⟨hauthorized, hok⟩, htable⟩ := haccepted
          simp only [takeAnswer, HdrBuf.advance_zero, classifyHttp, hauthorized, hok, hmount,
            Bool.not_not, htable, Bool.false_eq_true, if_false, Bool.not_true, if_true]
          rw [← Option.some.inj h]
          generalize hentered : enterTable _ now _ = s'
          refine ⟨s', ?_, ?_, rfl⟩
          · rw [← hentered, enterTable]
            cases info.contentLength with
            | some n => rfl
            | none =>
                cases info.chunked with
                | true => rfl
                | false => rfl
          · rw [← hentered]
            rfl
      · exact absurd h.symm (Option.some_ne_none _)

/-- Any other response leads to no table. -/
theorem take_answer_other {cfg : SessionConfig} {s : NtripSession} {answer : Answer}
    (hmount : s.mountpointRequested = !cfg.mountpoint.isEmpty)
    (h : tableFraming cfg answer = none) (now : Instant) :
    tablesIn (enterBody (takeAnswer s now ⟨.complete answer, [], 0⟩)).2 = [] ∧
      ((enterBody (takeAnswer s now ⟨.complete answer, [], 0⟩)).1.phase = .done ∨
        ∃ st, (enterBody (takeAnswer s now ⟨.complete answer, [], 0⟩)).1.phase =
          .streaming st) := by
  have hstream : ∀ (s : NtripSession) prelude chunked (body : Bytes),
      let entered := enterBody (s.enterStreaming now prelude chunked, some body, [])
      tablesIn entered.2 = [] ∧
        (entered.1.phase = .done ∨ ∃ st, entered.1.phase = .streaming st) :=
    fun s prelude chunked body =>
      ingest_stream_tables (s := s.enterStreaming now prelude chunked) rfl body
  cases answer with
  | sourcetable => exact absurd h (by simp [tableFraming])
  | unknown => exact ⟨tables_refuse _, .inl rfl⟩
  | icy =>
      simp only [takeAnswer]
      split
      · exact hstream _ _ _ _
      · exact ⟨tables_refuse _, .inl rfl⟩
  | http info =>
      simp only [takeAnswer, HdrBuf.advance_zero, classifyHttp, hmount, Bool.not_not]
      split
      · exact ⟨tables_emit_close _ (by simp), .inl rfl⟩
      · next hauthorized =>
          split
          · exact ⟨tables_emit_close _ (by simp), .inl rfl⟩
          · next hok =>
              split
              · next htable =>
                  refine absurd h ?_
                  simp only [Bool.not_eq_true', Bool.not_eq_false] at hok
                  rw [Bool.not_eq_true] at hauthorized
                  simp only [tableFraming, hauthorized, hok, htable]
                  exact Option.some_ne_none _
              · exact hstream _ _ _ _

/-! ## The invariant -/

/-- The session waits for the header of a table response, receives a table, streams without one, or
is done, and the tables delivered so far are those of the bytes received. -/
inductive Tabled (cfg : SessionConfig) (remote : Prop) : NtripSession → Bytes → List Output → Prop
  where
  | header {s received out} (hpending : tablesIn s.pending = []) (hawaits : AwaitsHeader s received)
      (hntrip : cfg.transport = .ntrip) (hmount : s.mountpointRequested = !cfg.mountpoint.isEmpty)
      (hnone : tablesIn out = []) : Tabled cfg remote s received out
  | table {s received out framing deadline body} (hpending : tablesIn s.pending = [])
      (hphase : s.phase = .table (feedTable (framing.fresh deadline) body).1)
      (hopen : (feedTable (framing.fresh deadline) body).2 = .none)
      (hresponse : ∀ more, tableResponse cfg (received ++ more) = some (framing, body ++ more))
      (hnone : tablesIn out = []) : Tabled cfg remote s received out
  | streaming {s received out st} (hpending : tablesIn s.pending = [])
      (hphase : s.phase = .streaming st)
      (hresponse : ∀ more, tableResponse cfg (received ++ more) = none)
      (hnone : tablesIn out = []) : Tabled cfg remote s received out
  | done {s received out} (hpending : tablesIn s.pending = []) (hphase : s.phase = .done)
      (hdelivered : Delivered cfg received remote (tablesIn out)) : Tabled cfg remote s received out

/-- Behind a complete header the response is the one that the header announces. -/
theorem table_response_complete {cfg : SessionConfig} (hntrip : cfg.transport = .ntrip)
    {received : Bytes} {answer : Answer} (h : (parseHeader received).outcome = .complete answer)
    (more : Bytes) :
    tableResponse cfg (received ++ more) = (tableFraming cfg answer).map fun framing =>
      (framing, received.drop (parseHeader received).used ++ more) := by
  have hdrop : (received ++ more).drop (parseHeader received).used =
      received.drop (parseHeader received).used ++ more :=
    List.drop_append_of_le_length (parse_header_used_le received)
  rw [tableResponse, hntrip]
  simp only [parse_header_append_of_complete h, h, hdrop]

namespace Tabled

variable {cfg : SessionConfig} {remote : Prop} {s : NtripSession} {received : Bytes}
  {out : List Output}

theorem pending (h : Tabled cfg remote s received out) : tablesIn s.pending = [] := by
  cases h with
  | header hpending => exact hpending
  | table hpending => exact hpending
  | streaming hpending => exact hpending
  | done hpending => exact hpending

/-- While the session receives a table the table is not complete. -/
theorem extent_of_open {framing : TableFraming} {deadline : Instant} {body : Bytes}
    (hopen : (feedTable (framing.fresh deadline) body).2 = .none) :
    framing.extent body = none ∧
      (feedTable (framing.fresh deadline) body).1.body = framing.decoded body := by
  have hfeed := framing.feed_fresh deadline body
  cases hextent : framing.extent body with
  | some table =>
      rw [hextent] at hfeed
      exact absurd (hopen.symm.trans hfeed.1) (by simp)
  | none =>
      rw [hextent] at hfeed
      exact ⟨rfl, hfeed.1⟩

/-- Up to any point the tables are those of the bytes received. -/
theorem delivered (h : Tabled cfg remote s received out) :
    Delivered cfg received remote (tablesIn out) := by
  cases h with
  | header hpending hawaits hntrip hmount hnone =>
      rw [Delivered, tableResponse, hntrip]
      simp only [hawaits.phase]
      exact hnone
  | table hpending hphase hopen hresponse hnone =>
      have hnow := hresponse []
      rw [List.append_nil, List.append_nil] at hnow
      simp only [Delivered, hnow, (extent_of_open hopen).1]
      exact .inl hnone
  | streaming hpending hphase hresponse hnone =>
      have hnow := hresponse []
      rw [List.append_nil] at hnow
      simp only [Delivered, hnow]
      exact hnone
  | done hpending hphase hdelivered => exact hdelivered

/-- A session that is open has delivered nothing. -/
theorem none_yet (h : Tabled cfg remote s received out) (hopen : s.phase ≠ .done) :
    tablesIn out = [] := by
  cases h with
  | header hpending hawaits hntrip hmount hnone => exact hnone
  | table hpending hphase hmore hresponse hnone => exact hnone
  | streaming hpending hphase hresponse hnone => exact hnone
  | done hpending hphase => exact absurd hphase hopen

/-- Outputs that are no tables change nothing while the phase stays. -/
theorem frame (h : Tabled cfg remote s received out) {s' : NtripSession}
    (hphase : s'.phase = s.phase) (hbuf : s'.buf = s.buf)
    (hmount : s'.mountpointRequested = s.mountpointRequested)
    (hpending : tablesIn s'.pending = []) {more : List Output} (hmore : tablesIn more = []) :
    Tabled cfg remote s' received (out ++ more) := by
  have hsame : tablesIn (out ++ more) = tablesIn out := by
    rw [tables_append, hmore, List.append_nil]
  cases h with
  | header _ hawaits hntrip hrequested hnone =>
      exact .header hpending (hawaits.congr hbuf hphase) hntrip (hmount.trans hrequested)
        (hsame.trans hnone)
  | table _ htable hopen hresponse hnone =>
      exact .table hpending (hphase.trans htable) hopen hresponse (hsame.trans hnone)
  | streaming _ hstream hresponse hnone =>
      exact .streaming hpending (hphase.trans hstream) hresponse (hsame.trans hnone)
  | done _ hdone hdelivered => exact .done hpending (hphase.trans hdone) (hsame ▸ hdelivered)

/-- A session may end without a table. -/
theorem finish (h : Tabled cfg remote s received out) {s' : NtripSession}
    (hdone : s'.phase = .done) (hpending : tablesIn s'.pending = []) {more : List Output}
    (hmore : tablesIn more = []) : Tabled cfg remote s' received (out ++ more) := by
  refine .done hpending hdone ?_
  rw [tables_append, hmore, List.append_nil]
  exact h.delivered

theorem flush (h : Tabled cfg remote s received out) :
    Tabled cfg remote s.flushPending.1 received (out ++ s.pending) :=
  h.frame (by rfl) (by rfl) (by rfl) (by rfl) h.pending

/-- That the remote closed is only remembered. -/
theorem mono (h : Tabled cfg remote s received out) {remote' : Prop} (himp : remote → remote') :
    Tabled cfg remote' s received out := by
  cases h with
  | header hpending hawaits hntrip hmount hnone =>
      exact .header hpending hawaits hntrip hmount hnone
  | table hpending hphase hopen hresponse hnone =>
      exact .table hpending hphase hopen hresponse hnone
  | streaming hpending hphase hresponse hnone =>
      exact .streaming hpending hphase hresponse hnone
  | done hpending hphase hdelivered =>
      refine .done hpending hphase ?_
      unfold Delivered at hdelivered ⊢
      split
      · next hresponse =>
          rw [hresponse] at hdelivered
          exact hdelivered
      · next framing body hresponse =>
          rw [hresponse] at hdelivered
          simp only at hdelivered ⊢
          cases hextent : framing.extent body with
          | some table =>
              rw [hextent] at hdelivered
              exact hdelivered
          | none =>
              rw [hextent] at hdelivered
              exact hdelivered.imp_right (And.imp_left himp)

/-! ### Body bytes -/

/-- A table takes its whole body so far. -/
theorem applyTable {framing : TableFraming} {deadline : Instant} {body : Bytes}
    (hpending : tablesIn s.pending = [])
    (hresponse : ∀ more, tableResponse cfg (received ++ more) = some (framing, body ++ more))
    (hnone : tablesIn out = []) :
    Tabled cfg remote (s.applyTable (feedTable (framing.fresh deadline) body)).1 received
      (out ++ (s.applyTable (feedTable (framing.fresh deadline) body)).2) := by
  have hkept := apply_table_pending s (feedTable (framing.fresh deadline) body)
  have hfeed := framing.feed_fresh deadline body
  have hnow := hresponse []
  rw [List.append_nil, List.append_nil] at hnow
  by_cases hopen : (feedTable (framing.fresh deadline) body).2 = .none
  · rw [apply_table_open s hopen, List.append_nil]
    exact .table hpending rfl hopen hresponse hnone
  · have hdone := apply_table_done s hopen
    refine .done (hkept ▸ hpending) hdone ?_
    rw [tables_append, hnone, List.nil_append]
    simp only [Delivered, hnow]
    cases hextent : framing.extent body with
    | some table =>
        rw [hextent] at hfeed
        obtain ⟨hevent, hbody⟩ := hfeed
        rw [NtripSession.applyTable, hevent, ← hbody]
        exact tables_finalize rfl (.inl rfl)
    | none =>
        rw [hextent] at hfeed
        obtain ⟨detail, hevent⟩ := hfeed.2.resolve_left hopen
        rw [NtripSession.applyTable, hevent]
        exact .inl (tables_emit_close _ (by simp))

/-- A session that leads to no table. -/
theorem other (hpending : tablesIn s.pending = [])
    (hphase : s.phase = .done ∨ ∃ st, s.phase = .streaming st)
    (hresponse : ∀ more, tableResponse cfg (received ++ more) = none)
    (hnone : tablesIn out = []) : Tabled cfg remote s received out := by
  rcases hphase with hdone | ⟨st, hstream⟩
  · refine .done hpending hdone ?_
    have hnow := hresponse []
    rw [List.append_nil] at hnow
    simp only [Delivered, hnow]
    exact hnone
  · exact .streaming hpending hstream hresponse hnone

/-- The header is complete: what follows it is a table, or leads to none. -/
theorem answer {received data : Bytes} (hawaits : AwaitsHeader s received)
    (hntrip : cfg.transport = .ntrip) (hmount : s.mountpointRequested = !cfg.mountpoint.isEmpty)
    (hpending : tablesIn s.pending = []) (hnone : tablesIn out = []) {answer : Answer}
    (hanswer : (parseHeader (received ++ data)).outcome = .complete answer) (now : Instant) :
    Tabled cfg remote (absorb now s data).1 (received ++ data)
      (out ++ (absorb now s data).2) := by
  have hresponse := table_response_complete hntrip hanswer
  have hkept := (absorb_frame now s data).1
  obtain ⟨s', lines, hphase, hpend, hmount', hbody, -, habsorb⟩ :=
    hawaits.absorb_complete hanswer now
  rw [hmount] at hmount'
  have hbefore : tablesIn (out ++ rxLines lines) = [] := by
    rw [tables_append, hnone, tables_rx_lines]
    rfl
  rw [habsorb] at hkept ⊢
  rw [← List.append_assoc]
  cases hframing : tableFraming cfg answer with
  | none =>
      obtain ⟨htables, hended⟩ := take_answer_other hmount' hframing now
      simp only [hframing, Option.map_none] at hresponse
      refine other (hkept ▸ hpending) hended hresponse ?_
      rw [tables_append, hbefore, htables]
      rfl
  | some framing =>
      obtain ⟨s'', htable, hpend', henter⟩ := take_answer_table hmount' hframing now
      simp only [hframing, Option.map_some] at hresponse
      rw [henter, ingest_body_table htable, hbody]
      refine applyTable ?_ hresponse hbefore
      rw [hpend', hpend]
      exact hpending

/-- A block that leaves the header unfinished delivers no table, even if it trips the cap. -/
theorem unfinished {received data : Bytes} (hawaits : AwaitsHeader s received)
    (hntrip : cfg.transport = .ntrip) (hmount : s.mountpointRequested = !cfg.mountpoint.isEmpty)
    (hpending : tablesIn s.pending = []) (hnone : tablesIn out = [])
    (hlen : headerLength (received ++ data) = none) (now : Instant) :
    Tabled cfg remote (capClose (absorb now s data)).1 (received ++ data)
      (out ++ (capClose (absorb now s data)).2) := by
  obtain ⟨phase, buf, lines, habsorb, -, hnext⟩ := hawaits.absorb_unfinished hlen now
  rw [habsorb] at hnext ⊢
  generalize hs' : ({ s with lastRx := now, phase, buf } : NtripSession) = s' at hnext ⊢
  have hpending' : tablesIn s'.pending = [] := by rw [← hs']; exact hpending
  have hmount' : s'.mountpointRequested = !cfg.mountpoint.isEmpty := by rw [← hs']; exact hmount
  have hnone' : tablesIn (out ++ rxLines lines) = [] := by
    rw [tables_append, hnone, tables_rx_lines]
    rfl
  have htabled : Tabled cfg remote s' (received ++ data) (out ++ rxLines lines) :=
    .header hpending' hnext hntrip hmount' hnone'
  cases hcap : s'.overCap with
  | false => rw [cap_close_of_not hcap]; exact htabled
  | true =>
      simp only [capClose, hcap, if_true]
      rw [← List.append_assoc]
      refine htabled.finish ?_ ?_ ?_
      · rfl
      · exact hpending'
      · exact tables_emit_close _ (by simp)

/-- A block received while the session is open. -/
theorem onBytes (h : Tabled cfg remote s received out) (hopen : s.phase ≠ .done)
    (hpending : s.pending = []) (data : Bytes) (now : Instant) :
    Tabled cfg remote (s.onBytes data now).1 (received ++ data)
      (out ++ (s.onBytes data now).2) := by
  have hflush : s.flushPending.1 = s := by rw [flushPending, ← hpending]
  cases h with
  | header hpend hawaits hntrip hmount hnone =>
      rw [on_bytes_eq, hflush, hpending, List.nil_append]
      cases hlen : headerLength (received ++ data) with
      | some n =>
          have hnot := hawaits.absorb_finished hlen now
          obtain ⟨⟨answer, hanswer⟩, -⟩ := header_length_eq_some.mp hlen
          rw [cap_close_of_not (over_cap_of_not_header hnot)]
          exact Tabled.answer hawaits hntrip hmount hpend hnone hanswer now
      | none => exact unfinished hawaits hntrip hmount hpend hnone hlen now
  | @table framing deadline body hpend hphase hmore hresponse hnone =>
      have hbody : s.phase.isBody = true := by rw [hphase]; rfl
      have hphase' : ({ s with lastRx := now } : NtripSession).phase = .table _ := hphase
      rw [on_bytes_body hpending hbody, ingest_body_table hphase',
        ← apply_table_congr _ (feed_table_append_of_open _ body data hmore)]
      refine applyTable hpend ?_ hnone
      intro more
      rw [List.append_assoc, List.append_assoc]
      exact hresponse (data ++ more)
  | @streaming st hpend hphase hresponse hnone =>
      have hbody : s.phase.isBody = true := by rw [hphase]; rfl
      have hphase' : ({ s with lastRx := now } : NtripSession).phase = .streaming st := hphase
      obtain ⟨htables, hended⟩ := ingest_stream_tables hphase' data
      obtain ⟨phase, closed, hspec, -⟩ := ingest_body_spec { s with lastRx := now } data
      have hkept : ({ s with lastRx := now }.ingestBody data).1.pending = s.pending := by
        rw [hspec]
      rw [on_bytes_body hpending hbody]
      refine other (by rw [hkept]; exact hpend) hended ?_ ?_
      · intro more
        rw [List.append_assoc]
        exact hresponse (data ++ more)
      · rw [tables_append, hnone, htables]
        rfl
  | done hpend hphase => exact absurd hphase hopen

/-! ### Other calls -/

/-- What a call emits after the request lines delivers the tables of the call. -/
theorem tables_flushed (h : Tabled cfg remote s received out) (more : List Output) :
    tablesIn (s.pending ++ more) = tablesIn more := by
  rw [tables_append, h.pending, List.nil_append]

/-- A tick delivers no table. -/
theorem onTick (h : Tabled cfg remote s received out) (now : Instant) :
    Tabled cfg remote (s.onTick now).1 received (out ++ (s.onTick now).2) := by
  have hpending := h.pending
  have hclose : ∀ reason, (∀ body, reason ≠ .mountpointNotFound body) →
      tablesIn (s.pending ++ (s.flushPending.1.emitClose reason).2) = [] := by
    intro reason hreason
    rw [h.tables_flushed, tables_emit_close _ hreason]
  have htables : tablesIn (s.onTick now).2 = [] := by
    unfold NtripSession.onTick
    cases hphase : s.phase with
    | done => simpa only [flushPending, hphase] using hpending
    | statusLine =>
        simp only [flushPending, hphase] at hclose ⊢
        split
        · exact hclose _ (by simp)
        · exact hpending
    | httpHeaders info =>
        simp only [flushPending, hphase] at hclose ⊢
        split
        · exact hclose _ (by simp)
        · exact hpending
    | table t =>
        simp only [flushPending, hphase] at hclose ⊢
        split
        · exact hclose _ (by simp)
        · exact hpending
    | streaming st =>
        simp only [flushPending, hphase] at hclose ⊢
        split
        · exact hclose _ (by simp)
        · split
          · split
            · exact h.tables_flushed [.ggaDue]
            · exact hpending
          · exact hpending
  obtain ⟨phase, closed, gga, hspec, hphase⟩ := on_tick_spec s now
  rw [hspec]
  rcases hphase with hdone | ⟨hsame, -⟩
  · exact h.finish hdone rfl htables
  · exact h.frame hsame (by rfl) (by rfl) (by rfl) htables

/-- A cancellation delivers no table. -/
theorem cancel (h : Tabled cfg remote s received out) :
    Tabled cfg remote s.cancel.1 received (out ++ s.cancel.2) := by
  by_cases hdone : s.phase = .done
  · simp only [NtripSession.cancel, flushPending, hdone, ne_eq, not_true_eq_false, if_false]
    exact h.frame hdone.symm (by rfl) (by rfl) (by rfl) h.pending
  · have hopen : s.flushPending.1.phase ≠ .done := hdone
    simp only [NtripSession.cancel, hopen, ne_eq, not_false_eq_true, if_true]
    refine h.finish (by rfl) (by rfl) ?_
    exact (h.tables_flushed _).trans (tables_emit_close _ (by simp))

/-- What a session in the table phase has received is not complete. -/
theorem cut_off (h : Tabled cfg remote s received out) {t : TableState}
    (hphase : s.phase = .table t) :
    ∃ framing body, tableResponse cfg received = some (framing, body) ∧
      framing.extent body = none ∧ framing.decoded body = t.body := by
  cases h with
  | header hpending hawaits =>
      have hheader := hawaits.isHeader
      simp [hphase, Phase.isHeader] at hheader
  | @table framing deadline body hpending htable hopen hresponse hnone =>
      have hnow := hresponse []
      rw [List.append_nil, List.append_nil] at hnow
      obtain ⟨hextent, hbody⟩ := extent_of_open hopen
      obtain rfl : t = _ := Phase.table.inj (hphase.symm.trans htable)
      exact ⟨framing, body, hnow, hextent, hbody.symm⟩
  | streaming hpending hstream => simp [hphase] at hstream
  | done hpending hdone => simp [hphase] at hdone

/-- An open session that has received a table response is in the table phase. -/
theorem table_of_open (h : Tabled cfg remote s received out) (hopen : s.phase ≠ .done)
    {response : TableFraming × Bytes} (hresponse : tableResponse cfg received = some response) :
    ∃ t, s.phase = .table t := by
  cases h with
  | header hpending hawaits hntrip =>
      rw [tableResponse, hntrip] at hresponse
      simp only [hawaits.phase] at hresponse
      exact absurd hresponse.symm (Option.some_ne_none _)
  | table hpending hphase => exact ⟨_, hphase⟩
  | streaming hpending hphase hnever =>
      have hnow := hnever []
      rw [List.append_nil, hresponse] at hnow
      exact absurd hnow (Option.some_ne_none _)
  | done hpending hphase => exact absurd hphase hopen

/-- The remote close delivers the table that it cuts off. -/
theorem onRemoteClose (h : Tabled cfg remote s received out) :
    Tabled cfg True s.onRemoteClose.1 received (out ++ s.onRemoteClose.2) := by
  have hopen : ∀ (buf : HdrBuf) reason, (∀ body, reason ≠ .mountpointNotFound body) →
      Tabled cfg True ({ s.flushPending.1 with buf }.emitClose reason).1 received
        (out ++ (s.pending ++ ({ s.flushPending.1 with buf }.emitClose reason).2)) := by
    intro buf reason hreason
    refine (h.mono fun _ => trivial).finish (by rfl) (by rfl) ?_
    rw [h.tables_flushed, tables_emit_close _ hreason]
  unfold NtripSession.onRemoteClose
  cases hphase : s.phase with
  | done =>
      simp only [flushPending, hphase]
      exact (h.mono fun _ => trivial).frame hphase.symm (by rfl) (by rfl) (by rfl) h.pending
  | statusLine =>
      simp only [flushPending, hphase] at hopen ⊢
      exact hopen _ _ (by simp)
  | httpHeaders info =>
      simp only [flushPending, hphase] at hopen ⊢
      exact hopen _ _ (by simp)
  | streaming st =>
      have hclose := hopen s.buf .remoteClosed (by simp)
      simp only [flushPending, hphase] at hclose ⊢
      exact hclose
  | table t =>
      obtain ⟨framing, body, hresponse, hextent, hbody⟩ := h.cut_off hphase
      have hnone := h.none_yet (by simp [hphase])
      have hclosed : Tabled cfg True s.onRemoteClose.1 received (out ++ s.onRemoteClose.2) := by
        refine .done ?_ (on_remote_close_done s) ?_
        · rw [on_remote_close_pending]
          rfl
        · rw [tables_append, hnone, tables_remote_close hphase h.pending, ← hbody]
          simp only [Delivered, hresponse, hextent]
          exact .inr ⟨trivial, rfl⟩
      simpa only [NtripSession.onRemoteClose, flushPending, hphase] using hclosed

/-- An acknowledgement changes nothing. -/
theorem acknowledge (h : Tabled cfg remote s received out) (gga : Gga) :
    Tabled cfg remote { s with gga } received (out ++ []) := by
  have hnone : tablesIn [] = [] := rfl
  refine h.frame ?_ ?_ ?_ ?_ hnone
  · rfl
  · rfl
  · rfl
  · exact h.pending

/-- Every call, with the bytes it delivers to an open session. -/
theorem step (h : Tabled cfg remote s received out) (call : Call) :
    Tabled cfg (remote ∨ call = .onRemoteClose) (NtripSession.step s call).1
      (received ++ receivedWhileOpen s [call]) (out ++ (NtripSession.step s call).2) := by
  have hkept := h.mono (Or.inl : remote → remote ∨ call = .onRemoteClose)
  cases call with
  | onBytes data now =>
      have hcall : receivedWhileOpen s [.onBytes data now] =
          if s.phase = .done then [] else data := by
        simp [receivedWhileOpen]
      rw [hcall]
      show Tabled cfg _ (s.onBytes data now).1 _ (out ++ (s.onBytes data now).2)
      split
      · next hdone =>
          rw [on_bytes_done hdone, List.append_nil]
          exact hkept.flush
      · next hopen =>
          rw [on_bytes_flush, ← List.append_assoc]
          exact Tabled.onBytes hkept.flush hopen rfl data now
  | onTick now =>
      rw [show receivedWhileOpen s [.onTick now] = [] from rfl, List.append_nil]
      exact hkept.onTick now
  | ggaSent now =>
      rw [show receivedWhileOpen s [.ggaSent now] = [] from rfl, List.append_nil]
      show Tabled cfg _ (s.ggaSent now) received (out ++ [])
      rw [NtripSession.ggaSent]
      split
      · exact hkept.acknowledge s.gga
      · exact hkept.acknowledge _
  | ggaMissed now =>
      rw [show receivedWhileOpen s [.ggaMissed now] = [] from rfl, List.append_nil]
      show Tabled cfg _ (s.ggaMissed now) received (out ++ [])
      rw [NtripSession.ggaMissed]
      split
      · exact hkept.acknowledge s.gga
      · exact hkept.acknowledge _
  | onRemoteClose =>
      rw [show receivedWhileOpen s [.onRemoteClose] = [] from rfl, List.append_nil]
      exact h.onRemoteClose.mono fun _ => .inr rfl
  | cancel =>
      rw [show receivedWhileOpen s [.cancel] = [] from rfl, List.append_nil]
      exact hkept.cancel

end Tabled

/-! ## Runs -/

/-- A new session has received and delivered nothing. -/
theorem new_tabled (cfg : SessionConfig) (t0 : Instant) :
    Tabled cfg False (new cfg t0).1 [] [] := by
  cases htransport : cfg.transport with
  | ntrip =>
      refine .header ?_ (new_awaits_header htransport t0) htransport ?_ rfl
      · simp [new, htransport, tablesIn, List.filterMap_map]
      · simp [new, htransport]
  | rawTcp =>
      have hphase : (new cfg t0).1.phase =
          .streaming { prelude := .resolved, chunked := none } := by
        simp [new, htransport]
      have hpending : tablesIn (new cfg t0).1.pending = [] := by simp [new, htransport, tablesIn]
      have hresponse : ∀ more, tableResponse cfg ([] ++ more) = none := by
        intro more
        rw [tableResponse, htransport]
      exact .streaming hpending hphase hresponse rfl

/-- Every run delivers the tables of the bytes it receives. -/
theorem run_tabled {cfg : SessionConfig} {remote : Prop} {s : NtripSession} {received : Bytes}
    {out : List Output} (h : Tabled cfg remote s received out) (calls : List Call) :
    Tabled cfg (remote ∨ .onRemoteClose ∈ calls) (run s calls).1
      (received ++ receivedWhileOpen s calls) (out ++ (run s calls).2) := by
  induction calls generalizing remote s received out with
  | nil => simpa [receivedWhileOpen] using h
  | cons call rest ih =>
      have hnext := ih (h.step call)
      rw [List.append_assoc, List.append_assoc] at hnext
      have hreceived : receivedWhileOpen s [call] ++ receivedWhileOpen (step s call).1 rest =
          receivedWhileOpen s (call :: rest) := by
        simp [receivedWhileOpen]
      rw [hreceived] at hnext
      refine hnext.mono ?_
      rw [List.mem_cons]
      rintro ((hbefore | hcall) | hlater)
      · exact .inl hbefore
      · exact .inr (.inl hcall.symm)
      · exact .inr (.inr hlater)

/-- The extent of a table body, up to any point of any run. Without a table response there is no
table. With one the table is the shortest start of the decoded body that ends with an end line, if
there is one; otherwise all of the decoded body, as soon as it has arrived; and otherwise there is
none unless the remote closes, which delivers all of the decoded body. A line ends the table
exactly when the parser skips it as the end marker, instead of reporting it. What is announced and
what chunks hold is said by the bytes alone. -/
theorem table_extent {F32 : Type} [Inhabited F32] (parseF32 : Text → Option F32)
    (cfg : SessionConfig) (t0 : Instant) (calls : List Call) :
    let s := run (new cfg t0).1 calls
    let received := receivedWhileOpen (new cfg t0).1 calls
    (tableResponse cfg received = none → tablesIn s.2 = []) ∧
      (∀ framing body, tableResponse cfg received = some (framing, body) →
        (∀ table, ShortestEnd (framing.decoded body) table → tablesIn s.2 = [table]) ∧
        ((∀ table, ¬ ShortestEnd (framing.decoded body) table) → framing.arrived body = true →
          tablesIn s.2 = [framing.decoded body]) ∧
        ((∀ table, ¬ ShortestEnd (framing.decoded body) table) → framing.arrived body = false →
          (tablesIn s.2 = [] ∨
            .onRemoteClose ∈ calls ∧ tablesIn s.2 = [framing.decoded body]) ∧
          (s.1.phase ≠ .done →
            tablesIn s.2 = [] ∧ tablesIn s.1.onRemoteClose.2 = [framing.decoded body]))) ∧
      (∀ before line after, CompleteLines before → LF ∉ line →
        (isEndLine line = true ↔ (∃ b ∈ line, isAsciiWhitespace b = false) ∧
          Sourcetable.parse parseF32 (before ++ line ++ LF :: after) =
            Sourcetable.parse parseF32 (before ++ after)) ∧
        (isEndLine line = false → (∃ b ∈ line, isAsciiWhitespace b = false) →
          (Sourcetable.parse parseF32 (before ++ line ++ LF :: after)).entries =
            (Sourcetable.parse parseF32 (before ++ after)).entries + 1)) ∧
      Announced received ∧ Dechunked := by
  intro s received
  have htabled : Tabled cfg (False ∨ .onRemoteClose ∈ calls) s.1 received s.2 :=
    run_tabled (new_tabled cfg t0) calls
  have hdelivered := htabled.delivered
  unfold Delivered at hdelivered
  refine ⟨?_, ?_, fun before line after hbefore hline =>
    Sourcetable.parse_marker parseF32 hbefore hline after, announced received, dechunked⟩
  · intro hresponse
    rw [hresponse] at hdelivered
    exact hdelivered
  · intro framing body hresponse
    rw [hresponse] at hdelivered
    simp only [TableFraming.extent] at hdelivered
    refine ⟨?_, ?_, ?_⟩
    · intro table hend
      rw [shortest_end_some.mpr hend] at hdelivered
      exact hdelivered
    · intro hnone harrived
      rw [shortest_end_none.mpr hnone, harrived] at hdelivered
      exact hdelivered
    · intro hnone harrived
      rw [shortest_end_none.mpr hnone, harrived] at hdelivered
      refine ⟨?_, ?_⟩
      · rcases hdelivered with hempty | ⟨hremote, htable⟩
        · exact .inl hempty
        · exact .inr ⟨hremote.resolve_left not_false, htable⟩
      · intro hopen
        obtain ⟨t, hphase⟩ := htabled.table_of_open hopen hresponse
        obtain ⟨framing', body', hresponse', -, hbody⟩ := htabled.cut_off hphase
        obtain ⟨rfl, rfl⟩ := Prod.mk.inj (Option.some.inj (hresponse.symm.trans hresponse'))
        rw [hbody]
        exact ⟨htabled.none_yet hopen, tables_remote_close hphase htabled.pending⟩

end NtripSession

end OpenNtrip
