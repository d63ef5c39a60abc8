import OpenNtrip.NtripCore.Session
import OpenNtrip.Lib.Coalesce

/-!
# Feeding body bytes block by block

The ICY prelude, the table body and the correction stream each buffer unfinished input in
their own way. The theorems here say that none of it depends on where the input was cut:
`consume_prelude_append`, `feed_table_append_of_open` and `feed_stream_append_of_open` for a
phase that wants more, and their `of_closed` companions for one that has ended.
-/

namespace OpenNtrip

/-! ## The ICY prelude -/

/-- What a further block adds to the outcome of scanning a prelude block. -/
def PreludeStep.extend (more : Bytes) : PreludeStep × List Output → PreludeStep × List Output
  | (.needMore line lines, out) =>
    ((consumePrelude line lines more).1, out ++ (consumePrelude line lines more).2)
  | (.payload replay rest, out) => (.payload replay (rest ++ more), out)

/-- Scanning two blocks one after the other is scanning their concatenation. -/
theorem consume_prelude_append (line : Bytes) (lines : Nat) (first second : Bytes) :
    consumePrelude line lines (first ++ second) =
      PreludeStep.extend second (consumePrelude line lines first) := by
  induction first generalizing line lines with
  | nil => simp [consumePrelude, PreludeStep.extend]
  | cons b rest ih =>
      simp only [List.cons_append, consumePrelude]
      split
      · rfl
      · split
        · exact ih _ _
        · split
          · rfl
          · split
            · rw [ih]
              cases consumePrelude [] (lines + 1) rest with
              | mk step out => cases step <;> rfl
            · rfl

/-! ## Table bodies -/

/-- One step of the end-line search. -/
theorem scan_end_line_line {body line rest : Bytes} {scan : Nat}
    (h : splitLine (body.drop scan) = some (line, rest)) :
    scanEndLine body scan =
      if isEndLine line then (some (scan + line.length + 1), scan)
      else scanEndLine body (scan + line.length + 1) := by
  rw [scanEndLine]
  split
  · next hnone => simp [h] at hnone
  · next hsome =>
      rw [h] at hsome
      obtain ⟨rfl, rfl⟩ := Prod.mk.inj (Option.some.inj hsome)
      rfl

/-- A line of the body is a line of every extension of the body. -/
theorem split_line_drop_append {body line rest : Bytes} {scan : Nat} (hle : scan ≤ body.length)
    (h : splitLine (body.drop scan) = some (line, rest)) (more : Bytes) :
    splitLine ((body ++ more).drop scan) = some (line, rest ++ more) := by
  rw [List.drop_append_of_le_length hle]
  exact split_line_append_of_some h more

/-- A body whose lines were all scanned without an end line is scanned on from the cursor. -/
theorem scan_end_line_append_of_none {body : Bytes} {scan scan' : Nat} (hle : scan ≤ body.length)
    (h : scanEndLine body scan = (none, scan')) (more : Bytes) :
    scanEndLine (body ++ more) scan = scanEndLine (body ++ more) scan' := by
  fun_induction scanEndLine body scan with
  | case1 scan hsplit =>
      obtain rfl : scan = scan' := by simpa using h
      rfl
  | case2 scan line rest hsplit hend => simp at h
  | case3 scan line rest hsplit hend ih =>
      have hlen := split_line_length hsplit
      simp only [List.length_drop] at hlen
      rw [scan_end_line_line (split_line_drop_append hle hsplit more), if_neg hend]
      exact ih (by omega) h

/-- Further bytes do not change an end line that was found. -/
theorem scan_end_line_append_of_some {body : Bytes} {scan scan' stop : Nat}
    (hle : scan ≤ body.length) (h : scanEndLine body scan = (some stop, scan')) (more : Bytes) :
    scanEndLine (body ++ more) scan = (some stop, scan') := by
  fun_induction scanEndLine body scan with
  | case1 scan hsplit => simp at h
  | case2 scan line rest hsplit hend =>
      rw [scan_end_line_line (split_line_drop_append hle hsplit more), if_pos hend]
      exact h
  | case3 scan line rest hsplit hend ih =>
      have hlen := split_line_length hsplit
      simp only [List.length_drop] at hlen
      rw [scan_end_line_line (split_line_drop_append hle hsplit more), if_neg hend]
      exact ih (by omega) h

namespace TableState

@[simp] theorem absorb_mode (t : TableState) (data : Bytes) (mode : TableMode) :
    (t.absorb data mode).1.mode = mode := by
  unfold absorb
  split <;> rfl

@[simp] theorem absorb_deadline (t : TableState) (data : Bytes) (mode : TableMode) :
    (t.absorb data mode).1.deadline = t.deadline := by
  unfold absorb
  split <;> rfl

/-- The end line is found exactly when the scan finds it; the body and cursor are the scan's. -/
theorem absorb_spec (t : TableState) (data : Bytes) (mode : TableMode) :
    let scanned := scanEndLine (t.body ++ data) t.scan
    (t.absorb data mode).2 = scanned.1.isSome ∧
      (t.absorb data mode).1.body =
        (match scanned.1 with | some stop => (t.body ++ data).take stop | none => t.body ++ data) ∧
      (t.absorb data mode).1.scan = scanned.2 := by
  unfold absorb
  split <;> next h => simp [h]

/-- Tables are equal when their body, cursor, mode and deadline are. -/
theorem eq_of_fields {t t' : TableState} (hbody : t.body = t'.body) (hscan : t.scan = t'.scan)
    (hmode : t.mode = t'.mode) (hdeadline : t.deadline = t'.deadline) : t = t' := by
  cases t
  cases t'
  simp_all

/-- A table that found its end line keeps it whatever follows. -/
theorem absorb_append_of_complete (t : TableState) (first second : Bytes)
    (mode mode' : TableMode) (h : (t.absorb first mode).2 = true) :
    (t.absorb (first ++ second) mode').2 = true ∧
      (t.absorb (first ++ second) mode').1.body = (t.absorb first mode).1.body := by
  obtain ⟨hfound, hbody, -⟩ := t.absorb_spec first mode
  obtain ⟨hfound', hbody', -⟩ := t.absorb_spec (first ++ second) mode'
  rw [hfound] at h
  obtain ⟨stop, hstop⟩ := Option.isSome_iff_exists.mp h
  have hscan : scanEndLine (t.body ++ first) t.scan = (some stop, _) := Prod.ext hstop rfl
  have happend := scan_end_line_append_of_some (t.scan_le_append first) hscan second
  rw [List.append_assoc] at happend
  have hle := (scan_end_line_stop hscan).2
  refine ⟨by rw [hfound', happend]; rfl, ?_⟩
  rw [hbody', hbody, happend, hstop]
  simp only
  rw [← List.append_assoc, List.take_append_of_le_length hle]

/-- A table without an end line so far goes on with the next block. -/
theorem absorb_append_of_open (t : TableState) (first second : Bytes) (mode mode' : TableMode)
    (h : (t.absorb first mode).2 = false) :
    t.absorb (first ++ second) mode' = (t.absorb first mode).1.absorb second mode' := by
  obtain ⟨hfound, hbody, hscan⟩ := t.absorb_spec first mode
  rw [hfound, Option.isSome_eq_false_iff, Option.isNone_iff_eq_none] at h
  rw [h] at hbody
  have hnone : scanEndLine (t.body ++ first) t.scan = (none, _) := Prod.ext h rfl
  have happend := scan_end_line_append_of_none (t.scan_le_append first) hnone second
  obtain ⟨hfound₁, hbody₁, hscan₁⟩ := t.absorb_spec (first ++ second) mode'
  obtain ⟨hfound₂, hbody₂, hscan₂⟩ := (t.absorb first mode).1.absorb_spec second mode'
  have hsame : scanEndLine (t.body ++ (first ++ second)) t.scan =
      scanEndLine ((t.absorb first mode).1.body ++ second) (t.absorb first mode).1.scan := by
    rw [hbody, hscan, ← List.append_assoc]
    exact happend
  refine Prod.ext (eq_of_fields ?_ ?_ ?_ ?_) ?_
  · rw [hbody₁, hbody₂, hsame, hbody, List.append_assoc]
  · rw [hscan₁, hscan₂, hsame]
  · simp
  · simp
  · rw [hfound₁, hfound₂, hsame]

end TableState

/-- The event of a table that is complete under a condition. -/
def completeIf (complete : Bool) (otherwise : BodyEvent) : BodyEvent :=
  if complete then .tableComplete else otherwise

theorem complete_if_eq_none {complete : Bool} {otherwise : BodyEvent} :
    completeIf complete otherwise = .none ↔ complete = false ∧ otherwise = .none := by
  cases complete <;> simp [completeIf]

/-- Feeding a table that is delimited by its length, its end line or the close. -/
theorem feed_table_direct {t : TableState} {remaining : Option Nat}
    (hmode : t.mode = .direct remaining) (data : Bytes) :
    feedTable t data =
      let take := tableTake remaining data.length
      let left := remaining.map fun left => left - take
      let absorbed := t.absorb (data.take take) (.direct left)
      (absorbed.1, completeIf (absorbed.2 || left == some 0) .none) := by
  unfold feedTable completeIf
  simp only [hmode]
  generalize t.absorb _ _ = absorbed
  obtain ⟨t', found⟩ := absorbed
  cases found <;> simp

/-- The answer of a chunked table to what its decoder made of a block. -/
def chunkedAnswer (t : TableState) (fed : Bytes × Except Text Chunked.Decoder) :
    TableState × BodyEvent :=
  match fed.2 with
  | .error detail =>
    ((t.absorb fed.1 t.mode).1, completeIf (t.absorb fed.1 t.mode).2 (.corrupt detail))
  | .ok dec =>
    ((t.absorb fed.1 (.chunked dec)).1,
      completeIf ((t.absorb fed.1 (.chunked dec)).2 || dec.isDone) .none)

/-- Feeding a table in chunked framing. -/
theorem feed_table_chunked {t : TableState} {dec : Chunked.Decoder}
    (hmode : t.mode = .chunked dec) (data : Bytes) :
    feedTable t data = chunkedAnswer t (dec.feed data) := by
  unfold feedTable chunkedAnswer completeIf
  simp only [hmode]
  cases (dec.feed data).2 with
  | error detail =>
      simp only
      generalize t.absorb _ _ = absorbed
      obtain ⟨t', found⟩ := absorbed
      cases found <;> simp
  | ok dec' =>
      simp only
      generalize t.absorb _ _ = absorbed
      obtain ⟨t', found⟩ := absorbed
      cases found <;> simp

/-- A length-delimited table that wants more has taken its whole block, and takes the rest of the
stream as a table with that much less to come. -/
theorem table_take_append {remaining : Option Nat} {n : Nat}
    (h : remaining.map (fun left => left - tableTake remaining n) ≠ some 0) (m : Nat) :
    tableTake remaining n = n ∧
      tableTake remaining (n + m) = n + tableTake (remaining.map fun left => left - n) m := by
  cases remaining with
  | none => simp [tableTake]
  | some left =>
      simp only [tableTake, Option.map_some, ne_eq, Option.some.injEq] at h ⊢
      omega

/-- A length-delimited table that is full takes no more from a longer stream. -/
theorem table_take_full {remaining : Option Nat} {n : Nat}
    (h : remaining.map (fun left => left - tableTake remaining n) = some 0) (m : Nat) :
    tableTake remaining (n + m) = tableTake remaining n ∧ tableTake remaining n ≤ n := by
  cases remaining with
  | none => simp at h
  | some left =>
      simp only [tableTake, Option.map_some, Option.some.injEq] at h ⊢
      omega

/-- Two answers of a table mean the same: the same event about the same body, and the same table if
it wants more. -/
def TableAgree (left right : TableState × BodyEvent) : Prop :=
  left.2 = right.2 ∧ left.1.body = right.1.body ∧ (left.2 = .none → left.1 = right.1)

theorem TableAgree.of_eq {left right : TableState × BodyEvent} (h : left = right) :
    TableAgree left right := by
  subst h
  exact ⟨rfl, rfl, fun _ => rfl⟩

/-- A table that wants more goes on with the next block. -/
theorem feed_table_append_of_open (t : TableState) (first second : Bytes)
    (h : (feedTable t first).2 = .none) :
    TableAgree (feedTable t (first ++ second)) (feedTable (feedTable t first).1 second) := by
  cases hmode : t.mode with
  | direct remaining =>
      refine .of_eq ?_
      rw [feed_table_direct hmode] at h ⊢
      obtain ⟨hopen, -⟩ := complete_if_eq_none.mp h
      obtain ⟨hfound, hleft⟩ := Bool.or_eq_false_iff.mp hopen
      obtain ⟨htake, hmore⟩ := table_take_append (beq_eq_false_iff_ne.mp hleft) second.length
      rw [feed_table_direct hmode, feed_table_direct (TableState.absorb_mode _ _ _)]
      simp only
      rw [htake, List.take_length] at hfound ⊢
      rw [List.length_append, hmore, List.take_length_add_append,
        TableState.absorb_append_of_open t first _ _ _ hfound, Option.map_map]
      simp only [Function.comp_def, Nat.sub_sub]
  | chunked dec =>
      rw [feed_table_chunked hmode] at h ⊢
      rw [feed_table_chunked hmode, Chunked.Decoder.feed_append]
      generalize dec.feed first = fed at h ⊢
      obtain ⟨decoded, detail | dec'⟩ := fed
      · exact absurd (complete_if_eq_none.mp h).2 (by simp)
      · obtain ⟨hopen, -⟩ := complete_if_eq_none.mp h
        obtain ⟨hfound, -⟩ := Bool.or_eq_false_iff.mp hopen
        have hmode' := TableState.absorb_mode t decoded (.chunked dec')
        simp only [chunkedAnswer]
        rw [feed_table_chunked hmode']
        simp only [Chunked.andThen, Chunked.prepend, chunkedAnswer, hmode']
        cases (dec'.feed second).2 with
        | ok dec'' =>
            simp only
            rw [TableState.absorb_append_of_open t decoded _ _ (.chunked dec'') hfound]
            exact .of_eq rfl
        | error detail =>
            -- a framing error: the decoder it leaves behind is never fed again
            simp only
            rw [TableState.absorb_append_of_open t decoded _ _ t.mode hfound]
            obtain ⟨hsame, hbody, -⟩ :=
              (t.absorb decoded (.chunked dec')).1.absorb_spec (dec'.feed second).1 t.mode
            obtain ⟨hsame', hbody', -⟩ :=
              (t.absorb decoded (.chunked dec')).1.absorb_spec (dec'.feed second).1 (.chunked dec')
            refine ⟨?_, ?_, fun hnone => absurd (complete_if_eq_none.mp hnone).2 (by simp)⟩
            · simp only [hsame, hsame']
            · simp only [hbody, hbody']

/-- A table that is complete or corrupt stays so, with the same body, whatever follows. -/
theorem feed_table_append_of_closed (t : TableState) (first second : Bytes)
    (h : (feedTable t first).2 ≠ .none) :
    TableAgree (feedTable t (first ++ second)) (feedTable t first) := by
  suffices hsame : (feedTable t (first ++ second)).2 = (feedTable t first).2 ∧
      (feedTable t (first ++ second)).1.body = (feedTable t first).1.body from
    ⟨hsame.1, hsame.2, fun hnone => absurd (hsame.1 ▸ hnone) h⟩
  cases hmode : t.mode with
  | direct remaining =>
      rw [feed_table_direct hmode] at h ⊢
      rw [feed_table_direct hmode]
      by_cases hleft : remaining.map (fun left => left - tableTake remaining first.length) = some 0
      · -- the length is used up inside the first block
        obtain ⟨htake, hle⟩ := table_take_full hleft second.length
        simp only
        rw [List.length_append, htake, List.take_append_of_le_length hle]
        exact ⟨rfl, rfl⟩
      · have hopen := (not_congr complete_if_eq_none).mp h
        simp only [and_true, Bool.not_eq_false, Bool.or_eq_true, beq_iff_eq, hleft,
          or_false] at hopen
        obtain ⟨htake, hmore⟩ := table_take_append hleft second.length
        simp only
        rw [htake, List.take_length] at hopen ⊢
        rw [List.length_append, hmore, List.take_length_add_append]
        obtain ⟨hstill, hbody⟩ := TableState.absorb_append_of_complete t first
          (second.take (tableTake (remaining.map fun left => left - first.length) second.length)) _
          (.direct (remaining.map fun left => left -
            (first.length +
              tableTake (remaining.map fun left => left - first.length) second.length))) hopen
        rw [hstill, hopen]
        exact ⟨rfl, hbody⟩
  | chunked dec =>
      rw [feed_table_chunked hmode] at h ⊢
      rw [feed_table_chunked hmode, Chunked.Decoder.feed_append]
      generalize dec.feed first = fed at h ⊢
      obtain ⟨decoded, detail | dec'⟩ := fed
      · exact ⟨rfl, rfl⟩
      · have hclosed := (not_congr complete_if_eq_none).mp h
        simp only [and_true, Bool.not_eq_false, Bool.or_eq_true] at hclosed
        by_cases hfound : (t.absorb decoded (.chunked dec')).2 = true
        · simp only [chunkedAnswer, Chunked.andThen, Chunked.prepend]
          cases (dec'.feed second).2 with
          | error detail =>
              obtain ⟨hstill, hbody⟩ := TableState.absorb_append_of_complete t decoded
                (dec'.feed second).1 _ t.mode hfound
              simp [hstill, hfound, hbody, completeIf]
          | ok dec'' =>
              obtain ⟨hstill, hbody⟩ := TableState.absorb_append_of_complete t decoded
                (dec'.feed second).1 _ (.chunked dec'') hfound
              simp [hstill, hfound, hbody, completeIf]
        · -- the terminal chunk has been read: the decoder ignores the rest
          have hdone : dec'.isDone = true := hclosed.resolve_left hfound
          obtain ⟨state, line⟩ := dec'
          obtain rfl : state = .done := by simpa [Chunked.Decoder.isDone] using hdone
          simp [Chunked.andThen, Chunked.prepend, Chunked.Decoder.feed_done]

/-! ## Corrections -/

/-- Two adjacent corrections join into one. -/
def joinCorrections : Output → Output → Option Output
  | .corrections left, .corrections right => some (.corrections (left ++ right))
  | _, _ => none

theorem join_corrections_assoc : MergeAssoc joinCorrections where
  reject := by
    intro a b c joined hab hbc
    cases a <;> cases b <;> simp [joinCorrections] at hab
    subst hab
    cases c <;> simp_all [joinCorrections]
  accept := by
    intro a b c joined later hab hbc
    cases a <;> cases b <;> simp [joinCorrections] at hab
    cases c <;> simp [joinCorrections] at hbc
    subst hab hbc
    simp [joinCorrections]

/-- Two output lists are the same once adjacent corrections are concatenated. -/
def SameOutputs (left right : List Output) : Prop :=
  coalesce joinCorrections left = coalesce joinCorrections right

theorem same_outputs_equivalence : Equivalence SameOutputs where
  refl _ := rfl
  symm h := h.symm
  trans h h' := h.trans h'

theorem SameOutputs.append {left left' right right' : List Output}
    (hleft : SameOutputs left left') (hright : SameOutputs right right') :
    SameOutputs (left ++ right) (left' ++ right') :=
  coalesce_append_congr join_corrections_assoc hleft hright

/-- The corrections output for a payload: none for an empty one. -/
def correctionsOf (payload : Bytes) : List Output :=
  if payload.isEmpty then [] else [.corrections payload]

/-- Emitting a payload in two parts is emitting it at once. -/
theorem corrections_append (left right : Bytes) :
    SameOutputs (correctionsOf (left ++ right)) (correctionsOf left ++ correctionsOf right) := by
  cases left with
  | nil => exact rfl
  | cons b left =>
      cases right with
      | nil => simp [correctionsOf, SameOutputs]
      | cons c right =>
          exact (coalesce_join join_corrections_assoc (a := .corrections (b :: left))
            (b := .corrections (c :: right)) rfl [] []).symm

/-! ## Streams -/

/-- Feeding payload to a stream without chunked framing. -/
theorem feed_payload_plain {s : StreamState} (h : s.chunked = none) (payload : Bytes) :
    feedPayload s payload = (s, .none, correctionsOf payload) := by
  unfold feedPayload correctionsOf
  simp only [h]
  split <;> rfl

/-- The answer of a chunked stream to what its decoder made of a payload. -/
def streamAnswer (s : StreamState) (fed : Bytes × Except Text Chunked.Decoder) :
    StreamState × BodyEvent × List Output :=
  match fed.2 with
  | .error detail => (s, .corrupt detail, correctionsOf fed.1)
  | .ok dec =>
    ({ s with chunked := some dec }, if dec.isDone then .chunkStreamEnd else .none,
      correctionsOf fed.1)

@[simp] theorem feed_payload_nil (s : StreamState) : feedPayload s [] = (s, .none, []) := rfl

/-- Feeding payload to a stream in chunked framing. -/
theorem feed_payload_chunked {s : StreamState} {dec : Chunked.Decoder}
    (h : s.chunked = some dec) {payload : Bytes} (hne : payload ≠ []) :
    feedPayload s payload = streamAnswer s (dec.feed payload) := by
  unfold feedPayload streamAnswer
  rw [if_neg (by simpa using hne)]
  simp only [h]
  cases (dec.feed payload).2 <;> rfl

/-- Two answers of a stream mean the same: the same event, the same outputs up to joining
corrections, and the same stream if it goes on. -/
def StreamAgree (left right : StreamState × BodyEvent × List Output) : Prop :=
  left.2.1 = right.2.1 ∧ SameOutputs left.2.2 right.2.2 ∧ (left.2.1 = .none → left.1 = right.1)

theorem StreamAgree.of_eq {left right : StreamState × BodyEvent × List Output} (h : left = right) :
    StreamAgree left right := by
  subst h
  exact ⟨rfl, rfl, fun _ => rfl⟩

/-- The answer to a further block, after the outputs of the block before it. -/
def afterOutputs (out : List Output) (answer : StreamState × BodyEvent × List Output) :
    StreamState × BodyEvent × List Output :=
  (answer.1, answer.2.1, out ++ answer.2.2)

/-- A stream that goes on takes the next payload as if both had come at once. -/
theorem feed_payload_append_of_open (s : StreamState) (first second : Bytes)
    (h : (feedPayload s first).2.1 = .none) :
    StreamAgree (feedPayload s (first ++ second))
      (afterOutputs (feedPayload s first).2.2 (feedPayload (feedPayload s first).1 second)) := by
  cases hchunked : s.chunked with
  | none =>
      rw [feed_payload_plain hchunked, feed_payload_plain hchunked, feed_payload_plain hchunked]
      exact ⟨rfl, corrections_append first second, fun _ => rfl⟩
  | some dec =>
      by_cases hfirst : first = []
      · subst hfirst
        exact .of_eq rfl
      by_cases hsecond : second = []
      · subst hsecond
        refine .of_eq ?_
        rw [List.append_nil, feed_payload_nil]
        exact Prod.ext rfl (Prod.ext h (List.append_nil _).symm)
      rw [feed_payload_chunked hchunked hfirst] at h ⊢
      rw [feed_payload_chunked hchunked (List.append_ne_nil_of_left_ne_nil hfirst _),
        Chunked.Decoder.feed_append]
      generalize dec.feed first = fed at h ⊢
      obtain ⟨decoded, detail | dec'⟩ := fed
      · simp [streamAnswer] at h
      · have hdec' : ({ s with chunked := some dec' } : StreamState).chunked = some dec' := rfl
        simp only [streamAnswer]
        rw [feed_payload_chunked hdec' hsecond]
        simp only [Chunked.andThen, Chunked.prepend, streamAnswer, afterOutputs]
        cases (dec'.feed second).2 with
        | error detail => exact ⟨rfl, corrections_append _ _, by simp⟩
        | ok dec'' => exact ⟨rfl, corrections_append _ _, fun _ => rfl⟩

/-- A stream that has ended or is corrupt answers the same whatever follows. -/
theorem feed_payload_append_of_closed (s : StreamState) (first second : Bytes)
    (h : (feedPayload s first).2.1 ≠ .none) :
    StreamAgree (feedPayload s (first ++ second)) (feedPayload s first) := by
  have hne : first ≠ [] := by
    rintro rfl
    exact h rfl
  cases hchunked : s.chunked with
  | none => rw [feed_payload_plain hchunked] at h; exact absurd rfl h
  | some dec =>
      rw [feed_payload_chunked hchunked hne] at h ⊢
      rw [feed_payload_chunked hchunked (List.append_ne_nil_of_left_ne_nil hne _),
        Chunked.Decoder.feed_append]
      generalize dec.feed first = fed at h ⊢
      obtain ⟨decoded, detail | dec'⟩ := fed
      · exact .of_eq rfl
      · have hdone : dec'.isDone = true := by
          by_contra hnot
          exact h (if_neg hnot)
        obtain ⟨state, line⟩ := dec'
        obtain rfl : state = .done := by simpa [Chunked.Decoder.isDone] using hdone
        refine .of_eq ?_
        simp only [Chunked.andThen, Chunked.prepend, Chunked.Decoder.feed_done, List.append_nil]

/-- The answer of a stream to what its prelude scanner made of a block. -/
def preludeAnswer (s : StreamState) : PreludeStep × List Output →
    StreamState × BodyEvent × List Output
  | (.needMore line lines, out) => ({ s with prelude := .headers line lines }, .none, out)
  | (.payload replay rest, out) =>
    afterOutputs out (feedPayload { s with prelude := .resolved } (replay ++ rest))

/-- Feeding a stream whose prelude is still being scanned. -/
theorem feed_stream_headers {s : StreamState} {line : Bytes} {lines : Nat}
    (h : s.prelude = .headers line lines) (data : Bytes) :
    feedStream s data = preludeAnswer s (consumePrelude line lines data) := by
  unfold feedStream
  simp only [h]
  generalize consumePrelude line lines data = scanned
  obtain ⟨step, out⟩ := scanned
  cases step <;> rfl

/-- Feeding a stream whose prelude is resolved. -/
theorem feed_stream_resolved {s : StreamState} (h : s.prelude = .resolved) (data : Bytes) :
    feedStream s data = feedPayload s data := by
  unfold feedStream
  simp only [h]

/-- Feeding payload leaves the prelude alone. -/
theorem feed_payload_prelude (s : StreamState) (payload : Bytes) :
    (feedPayload s payload).1.prelude = s.prelude := by
  cases payload with
  | nil => rfl
  | cons b rest =>
      cases hchunked : s.chunked with
      | none => rw [feed_payload_plain hchunked]
      | some dec =>
          rw [feed_payload_chunked hchunked (List.cons_ne_nil _ _), streamAnswer]
          cases (dec.feed (b :: rest)).2 <;> rfl

theorem StreamAgree.after {left right : StreamState × BodyEvent × List Output}
    (h : StreamAgree left right) (out : List Output) :
    StreamAgree (afterOutputs out left) (afterOutputs out right) :=
  ⟨h.1, SameOutputs.append rfl h.2.1, h.2.2⟩

/-- A stream that goes on takes the next block as if both had come at once. -/
theorem feed_stream_append_of_open (s : StreamState) (first second : Bytes)
    (h : (feedStream s first).2.1 = .none) :
    StreamAgree (feedStream s (first ++ second))
      (afterOutputs (feedStream s first).2.2 (feedStream (feedStream s first).1 second)) := by
  cases hprelude : s.prelude with
  | resolved =>
      rw [feed_stream_resolved hprelude] at h ⊢
      rw [feed_stream_resolved hprelude,
        feed_stream_resolved ((feed_payload_prelude s first).trans hprelude)]
      exact feed_payload_append_of_open s first second h
  | headers line lines =>
      rw [feed_stream_headers hprelude] at h ⊢
      rw [feed_stream_headers hprelude, consume_prelude_append]
      generalize consumePrelude line lines first = scanned at h ⊢
      obtain ⟨step, out⟩ := scanned
      cases step with
      | needMore line' lines' =>
          refine .of_eq ?_
          simp only [preludeAnswer, PreludeStep.extend]
          rw [feed_stream_headers rfl]
          generalize consumePrelude line' lines' second = scanned
          obtain ⟨step, out'⟩ := scanned
          cases step with
          | needMore line'' lines'' => rfl
          | payload replay rest => simp [preludeAnswer, afterOutputs]
      | payload replay rest =>
          have hopen := feed_payload_append_of_open { s with prelude := .resolved }
            (replay ++ rest) second h
          rw [List.append_assoc] at hopen
          simp only [preludeAnswer, PreludeStep.extend, afterOutputs]
          rw [feed_stream_resolved (feed_payload_prelude _ _), ← afterOutputs, List.append_assoc]
          exact hopen.after out

/-- A stream that has ended or is corrupt answers the same whatever follows. -/
theorem feed_stream_append_of_closed (s : StreamState) (first second : Bytes)
    (h : (feedStream s first).2.1 ≠ .none) :
    StreamAgree (feedStream s (first ++ second)) (feedStream s first) := by
  cases hprelude : s.prelude with
  | resolved =>
      rw [feed_stream_resolved hprelude] at h ⊢
      rw [feed_stream_resolved hprelude]
      exact feed_payload_append_of_closed s first second h
  | headers line lines =>
      rw [feed_stream_headers hprelude] at h ⊢
      rw [feed_stream_headers hprelude, consume_prelude_append]
      generalize consumePrelude line lines first = scanned at h ⊢
      obtain ⟨step, out⟩ := scanned
      cases step with
      | needMore line' lines' => exact absurd rfl h
      | payload replay rest =>
          have hclosed := feed_payload_append_of_closed { s with prelude := .resolved }
            (replay ++ rest) second h
          rw [List.append_assoc] at hclosed
          exact hclosed.after out

end OpenNtrip
