import OpenNtrip.App.Sessions
import OpenNtrip.App.TableReports
import OpenNtrip.App.TextFilter
import OpenNtrip.Lib.StableSort

/-!
# The sourcetable browser

`sourcetable_browser.rs`: the tab that shows the table of the active profile's caster, filtered and
sorted, and fills in the mountpoint. `rows_exact` says which rows are shown and in which order, and
`fills_listed` that whatever is filled in is listed by the caster it is filled in for, however the
frames interleave with the workers, the bus and the edits of profiles.
-/

namespace OpenNtrip

open Sourcetable

variable {D Single Double : Type}

namespace Browser

/-- `Tab`. -/
inductive Tab where
  | str
  | cas
  | net
  | unparsed
  deriving DecidableEq, Repr

/-- `SortKey`. -/
inductive SortKey where
  | mount
  | format
  | country
  | bitrate
  deriving DecidableEq, Repr

/-- `Pending`. -/
inductive Pending where
  | refresh
  | useMount (mountpoint : Text)
  deriving DecidableEq, Repr

/-- `ViewState`. -/
structure ViewState where
  tab : Tab := .str
  filter : Text := []
  sort : Option (SortKey × Bool) := none
  selected : Option Text := none
  deriving DecidableEq, Repr

/-! ## Filtering and sorting -/

/-- `u8::to_ascii_lowercase`. -/
def toAsciiLower (b : UInt8) : UInt8 := if 65 ≤ b ∧ b ≤ 90 then b + 32 else b

/-- `cmp_ci`. -/
def cmpCi (a b : Text) : Ordering :=
  List.compareLex compare (a.toBytes.map toAsciiLower) (b.toBytes.map toAsciiLower)

/-- `str_matches`. -/
def strMatches (s : StrRecord Single) (filter : Text) : Bool :=
  containsIgnoreAsciiCase s.mountpoint filter || containsIgnoreAsciiCase s.identifier filter ||
    containsIgnoreAsciiCase s.format filter || containsIgnoreAsciiCase s.country filter

/-- `cas_matches`. -/
def casMatches (c : CasRecord Single) (filter : Text) : Bool :=
  containsIgnoreAsciiCase c.host filter || containsIgnoreAsciiCase c.identifier filter ||
    containsIgnoreAsciiCase c.operator filter || containsIgnoreAsciiCase c.country filter

/-- `net_matches`. -/
def netMatches (n : NetRecord) (filter : Text) : Bool :=
  containsIgnoreAsciiCase n.identifier filter || containsIgnoreAsciiCase n.operator filter

/-- How `str_rows` compares two streams by a column, rising. -/
def columnOrd : SortKey → StrRecord Single → StrRecord Single → Ordering
  | .mount, a, b => cmpCi a.mountpoint b.mountpoint
  | .format, a, b => (cmpCi a.format b.format).then (cmpCi a.mountpoint b.mountpoint)
  | .country, a, b => (cmpCi a.country b.country).then (cmpCi a.mountpoint b.mountpoint)
  | .bitrate, a, b => (compare a.bitrate b.bitrate).then (cmpCi a.mountpoint b.mountpoint)

/-- The comparison of `str_rows`. -/
def rowOrd (key : SortKey) (ascending : Bool) (a b : StrRecord Single) : Ordering :=
  let ord := columnOrd key a b
  if ascending then ord else ord.swap

/-- `str_rows`. -/
def strRows (strs : List (StrRecord Single)) (filter : Text) (sort : Option (SortKey × Bool)) :
    List (Fin strs.length) :=
  let rows := (List.finRange strs.length).filter fun i => strMatches strs[i] filter
  match sort with
  | none => rows
  | some (key, ascending) =>
    rows.insertionSort fun i j => (rowOrd key ascending strs[i] strs[j]).isLE = true

/-- Which of two rows is above the other: in the order of the caster, or by the column, and in the
order of the caster where the column does not tell them apart. -/
def Above (strs : List (StrRecord Single)) :
    Option (SortKey × Bool) → Fin strs.length → Fin strs.length → Prop
  | none, i, j => i < j
  | some (key, ascending), i, j =>
    rowOrd key ascending strs[i] strs[j] = .lt ∨
      rowOrd key ascending strs[i] strs[j] = .eq ∧ i < j

section

open Std

/-- An order of values orders what they are taken from. -/
theorem trans_cmp_on {α β : Type} {cmp : β → β → Ordering} [TransCmp cmp] (f : α → β) :
    TransCmp fun a b => cmp (f a) (f b) where
  eq_swap := OrientedCmp.eq_swap
  isLE_trans := TransCmp.isLE_trans

instance : TransCmp cmpCi := trans_cmp_on fun a : Text => a.toBytes.map toAsciiLower

/-- A column, and the mountpoint after it. -/
theorem trans_cmp_then {α : Type} {first second : α → α → Ordering} [TransCmp first]
    [TransCmp second] : TransCmp fun a b => (first a b).then (second a b) :=
  inferInstanceAs (TransCmp (compareLex first second))

instance (key : SortKey) : TransCmp (@columnOrd Single key) := by
  have hmount : TransCmp fun a b : StrRecord Single => cmpCi a.mountpoint b.mountpoint :=
    trans_cmp_on StrRecord.mountpoint
  cases key with
  | mount => exact hmount
  | format =>
      have hcolumn : TransCmp fun a b : StrRecord Single => cmpCi a.format b.format :=
        trans_cmp_on StrRecord.format
      exact trans_cmp_then
  | country =>
      have hcolumn : TransCmp fun a b : StrRecord Single => cmpCi a.country b.country :=
        trans_cmp_on StrRecord.country
      exact trans_cmp_then
  | bitrate =>
      have hcolumn : TransCmp fun a b : StrRecord Single => compare a.bitrate b.bitrate :=
        trans_cmp_on StrRecord.bitrate
      exact trans_cmp_then

/-- A column orders two streams one way round. -/
theorem column_ord_swap (key : SortKey) (a b : StrRecord Single) :
    columnOrd key b a = (columnOrd key a b).swap := OrientedCmp.eq_swap

/-- So does a column that is sorted upwards or downwards. -/
theorem row_ord_swap (key : SortKey) (ascending : Bool) (a b : StrRecord Single) :
    rowOrd key ascending b a = (rowOrd key ascending a b).swap := by
  cases ascending with
  | true => exact column_ord_swap key a b
  | false => exact congrArg Ordering.swap (column_ord_swap key a b)

/-- Either direction is an order of the streams. -/
instance (key : SortKey) (ascending : Bool) :
    TransCmp (@rowOrd Single key ascending) where
  eq_swap {a b} := row_ord_swap key ascending b a
  isLE_trans {a b c} := by
    cases ascending with
    | true => exact @TransCmp.isLE_trans _ (columnOrd key) _ a b c
    | false =>
        show (columnOrd key a b).swap.isLE = true → (columnOrd key b c).swap.isLE = true →
          (columnOrd key a c).swap.isLE = true
        rw [← column_ord_swap, ← column_ord_swap, ← column_ord_swap]
        exact fun hab hbc => @TransCmp.isLE_trans _ (columnOrd key) _ c b a hbc hab

end

/-! ## The rows -/

section

variable (strs : List (StrRecord Single)) (filter : Text)

/-- No row is above itself. -/
theorem above_irrefl (sort : Option (SortKey × Bool)) (i : Fin strs.length) :
    ¬ Above strs sort i i := by
  rintro h
  cases sort with
  | none => exact Nat.lt_irrefl _ h
  | some column =>
      obtain ⟨key, ascending⟩ := column
      rcases h with hlt | ⟨-, hlt⟩
      · have hself : rowOrd key ascending strs[i] strs[i] = .eq := Std.ReflCmp.compare_self
        exact absurd (hself.symm.trans hlt) (by simp)
      · exact Nat.lt_irrefl _ hlt

/-- Above is what a stable sort makes of the order of the caster. -/
theorem above_iff (key : SortKey) (ascending : Bool) (i j : Fin strs.length) :
    Above strs (some (key, ascending)) i j ↔
      StableOrder (fun i j => (rowOrd key ascending strs[i] strs[j]).isLE = true) (· < ·) i j := by
  have hswap := row_ord_swap key ascending strs[i] strs[j]
  show rowOrd key ascending strs[i] strs[j] = .lt ∨
      rowOrd key ascending strs[i] strs[j] = .eq ∧ i < j ↔
    (rowOrd key ascending strs[i] strs[j]).isLE = true ∧
      ((rowOrd key ascending strs[j] strs[i]).isLE = true → i < j)
  rw [hswap]
  generalize rowOrd key ascending strs[i] strs[j] = ord
  cases ord with
  | lt => simp
  | eq => simp
  | gt => simp

/-- The rows are the streams that match, each once, and in no other order. -/
theorem str_rows_iff (sort : Option (SortKey × Bool)) (rows : List (Fin strs.length)) :
    rows = strRows strs filter sort ↔
      (∀ i, i ∈ rows ↔ strMatches strs[i] filter = true) ∧ rows.Pairwise (Above strs sort) := by
  have hbase : ((List.finRange strs.length).filter fun i =>
      strMatches strs[i] filter).Pairwise (· < ·) :=
    (List.pairwise_lt_finRange _).sublist List.filter_sublist
  have hmem : ∀ i, i ∈ ((List.finRange strs.length).filter fun i => strMatches strs[i] filter) ↔
      strMatches strs[i] filter = true := by
    intro i
    rw [List.mem_filter]
    exact and_iff_right (List.mem_finRange i)
  have hasymm : ∀ i j : Fin strs.length, i < j → ¬ j < i := fun i j => lt_asymm
  -- who is shown is who matches, and nobody twice
  have hperm : ∀ rows : List (Fin strs.length),
      (∀ i, i ∈ rows ↔ strMatches strs[i] filter = true) → rows.Pairwise (Above strs sort) →
      rows.Perm ((List.finRange strs.length).filter fun i => strMatches strs[i] filter) := by
    intro rows hrows hordered
    have hnodup : rows.Nodup := hordered.imp fun hab heq => by
      subst heq
      exact above_irrefl strs sort _ hab
    refine (List.perm_ext_iff_of_nodup hnodup (hbase.imp fun hlt => ne_of_lt hlt)).mpr fun i => ?_
    rw [hrows, hmem]
  cases sort with
  | none =>
      constructor
      · rintro rfl
        exact ⟨hmem, hbase⟩
      · rintro ⟨hrows, hordered⟩
        refine List.Perm.eq_of_pairwise ?_ hordered hbase (hperm rows hrows hordered)
        exact fun i j _ _ hij hji => absurd hji (hasymm i j hij)
  | some column =>
      obtain ⟨key, ascending⟩ := column
      have htotal : Std.Total fun i j : Fin strs.length =>
          (rowOrd key ascending strs[i] strs[j]).isLE = true := by
        refine ⟨fun i j => ?_⟩
        rw [row_ord_swap key ascending strs[i] strs[j]]
        cases rowOrd key ascending strs[i] strs[j] with
        | lt => exact .inl rfl
        | eq => exact .inl rfl
        | gt => exact .inr rfl
      have htrans : IsTrans (Fin strs.length) fun i j =>
          (rowOrd key ascending strs[i] strs[j]).isLE = true :=
        ⟨fun i j k => @Std.TransCmp.isLE_trans _ (rowOrd key ascending) _ strs[i] strs[j] strs[k]⟩
      have hsort : ∀ rows : List (Fin strs.length),
          rows = strRows strs filter (some (key, ascending)) ↔ _ ∧ _ := fun rows =>
        stable_sort_iff hasymm hbase
      have habove : ∀ rows : List (Fin strs.length),
          rows.Pairwise (Above strs (some (key, ascending))) ↔ rows.Pairwise (StableOrder
            (fun i j => (rowOrd key ascending strs[i] strs[j]).isLE = true) (· < ·)) := fun rows =>
        List.Pairwise.iff fun i j => above_iff strs key ascending i j
      constructor
      · intro hrows
        obtain ⟨hsorted, hordered⟩ := (hsort rows).mp hrows
        refine ⟨fun i => ?_, (habove rows).mpr hordered⟩
        rw [hsorted.mem_iff, hmem]
      · rintro ⟨hrows, hordered⟩
        exact (hsort rows).mpr ⟨hperm rows hrows hordered, (habove rows).mp hordered⟩

end

/-- The fields that the filter searches. -/
def searched (s : StrRecord Single) : List Text := [s.mountpoint, s.identifier, s.format, s.country]

/-- A stream matches if a field that is searched has the filter in it. -/
theorem str_matches_iff {s : StrRecord Single} {filter : Text} :
    strMatches s filter = true ↔
      ∃ field ∈ searched s, ∃ part : Text, part <:+: field ∧ part.eqIgnoreCase filter = true := by
  simp only [strMatches, Bool.or_eq_true, contains_iff, searched, List.mem_cons, List.not_mem_nil,
    or_false, exists_eq_or_imp, exists_eq_left, or_assoc]

/-- A stream that matches a filter matches each part of it. -/
theorem str_matches_part {s : StrRecord Single} {filter part : Text} (hpart : part <:+: filter)
    (h : strMatches s filter = true) : strMatches s part = true := by
  simp only [strMatches, Bool.or_eq_true] at h ⊢
  rcases h with ((h | h) | h) | h
  · exact .inl (.inl (.inl (contains_part hpart h)))
  · exact .inl (.inl (.inr (contains_part hpart h)))
  · exact .inl (.inr (contains_part hpart h))
  · exact .inr (contains_part hpart h)

/-- Typing on keeps what is left of the text before. -/
theorem trim_within (s typed : Text) : s.trim <:+: Text.trim (s ++ typed) := by
  obtain ⟨space, hspace, -⟩ := Text.trim_start_eq s
  obtain ⟨hstart, hend⟩ := Text.trimmed_iff.mp (Text.trim_trimmed s)
  have hs : s.takeWhile isWhitespace ++ s.trimStart = s := List.takeWhile_append_dropWhile
  rcases List.eq_nil_or_concat s.trim with hnil | ⟨init, d, hlast⟩
  · rw [hnil]
    exact List.nil_infix
  · have hd : isWhitespace d = false :=
      Text.trim_end_eq_self.mp hend d (by rw [hlast]; simp)
    have hinit : Text.trimStart init = init := by
      refine Text.trim_start_eq_self.mpr fun c hc => ?_
      refine Text.trim_start_eq_self.mp hstart c ?_
      rw [hlast, List.concat_eq_append, List.head?_append, Option.mem_def.mp hc]
      rfl
    have hsplit : s ++ typed =
        (s.takeWhile isWhitespace ++ init) ++ d :: (space ++ typed) := by
      conv_lhs => rw [← hs, hspace, hlast]
      simp
    have hlead : Text.trimStart (s.takeWhile isWhitespace ++ init) = init := by
      rw [Text.trimStart, List.dropWhile_append_of_pos fun c hc => List.mem_takeWhile_imp hc]
      exact hinit
    rw [hsplit, Text.trim_append hd, hlead, hlast, List.concat_eq_append]
    exact ⟨[], Text.trimEnd (space ++ typed), by simp⟩

/-- What is typed on narrows the rows, and changes the order of none. -/
theorem str_rows_narrow (strs : List (StrRecord Single)) {filter part : Text}
    (hpart : part <:+: filter) (sort : Option (SortKey × Bool)) :
    (strRows strs filter sort).Sublist (strRows strs part sort) := by
  obtain ⟨hmem, hordered⟩ := (str_rows_iff strs part sort (strRows strs part sort)).mp rfl
  have hrows : (strRows strs part sort).filter (fun i => strMatches strs[i] filter) =
      strRows strs filter sort := by
    refine (str_rows_iff strs filter sort _).mpr ⟨fun i => ?_, hordered.sublist List.filter_sublist⟩
    rw [List.mem_filter, hmem]
    exact and_iff_right_of_imp (str_matches_part hpart)
  rw [← hrows]
  exact List.filter_sublist

/-- The rows that are shown are the streams with a field that has the filter in it, but for the case
of ASCII letters, in the order of the caster or of a column, where the order of the caster decides
between streams that the column does not tell apart. Typing on narrows them, and moves none. -/
theorem rows_exact (strs : List (StrRecord Single)) (filter : Text)
    (sort : Option (SortKey × Bool)) (rows : List (Fin strs.length)) :
    (rows = strRows strs filter.trim sort ↔
      (∀ i, i ∈ rows ↔ ∃ field ∈ searched strs[i], ∃ part : Text,
        part <:+: field ∧ part.eqIgnoreCase filter.trim = true) ∧
      rows.Pairwise (Above strs sort)) ∧
    ∀ typed, (strRows strs (Text.trim (filter ++ typed)) sort).Sublist
      (strRows strs filter.trim sort) := by
  refine ⟨?_, fun typed => str_rows_narrow strs (trim_within filter typed) sort⟩
  rw [str_rows_iff]
  simp only [str_matches_iff]

/-! ## A frame -/

/-- What the widgets report in one frame: the button that refreshes, the text of the filter, the
button that clears it, the tab that was clicked, the headers, the rows (true for a double click, by
the place where they are drawn) and the button that fills in. -/
structure Input where
  refresh : Bool := false
  typed : Option Text := none
  clear : Bool := false
  tab : Option Tab := none
  header : SortKey → Bool := fun _ => false
  row : Nat → Option Bool := fun _ => none
  use : Bool := false

/-- `sync_view`. -/
def syncView (view : ViewState) (table : SourceTable Single) : ViewState :=
  if view.tab = .unparsed ∧ table.unparsed.isEmpty then { view with tab := .str } else view

/-- `resolve_selection`. -/
def resolveSelection (strs : List (StrRecord Single)) (selected : Option Text) : Option Text :=
  selected.bind fun sel => (strs.find? fun s => s.mountpoint = sel).map (·.mountpoint)

/-- `toolbar`. -/
def toolbar (view : ViewState) (host : Text) (busy : Bool) (input : Input) :
    ViewState × Option Pending :=
  let pending := if !busy && !host.isEmpty && input.refresh then some .refresh else none
  let view := { view with filter := input.typed.getD view.filter }
  if !view.filter.isEmpty && input.clear then ({ view with filter := [] }, pending)
  else (view, pending)

/-- `tabs`. The last one is not offered where there are no such lines. -/
def tabs (view : ViewState) (table : SourceTable Single) (clicked : Option Tab) : ViewState :=
  match clicked with
  | none => view
  | some .unparsed => if table.unparsed.isEmpty then view else { view with tab := .unparsed }
  | some tab => { view with tab }

/-- `sort_header`: a click cycles from rising to falling to off. -/
def sortHeader (view : ViewState) (key : SortKey) (clicked : Bool) : ViewState :=
  if clicked then
    { view with
      sort :=
        match view.sort with
        | some (k, ascending) =>
          if k = key then if ascending then some (key, false) else none else some (key, true)
        | none => some (key, true) }
  else view

/-- A row of `str_table`. -/
def strRow (s : StrRecord Single) (clicked : Option Bool) (view : ViewState)
    (pending : Option Pending) : ViewState × Option Pending :=
  match clicked with
  | some true => ({ view with selected := some s.mountpoint }, some (.useMount s.mountpoint))
  | some false => ({ view with selected := some s.mountpoint }, pending)
  | none => (view, pending)

/-- `str_table`. The rows are those from before a click on a header. -/
def strTable (view : ViewState) (strs : List (StrRecord Single)) (input : Input)
    (pending : Option Pending) : ViewState × Option Pending :=
  let rows := strRows strs view.filter.trim view.sort
  let view := [SortKey.mount, .format, .country, .bitrate].foldl
    (fun view key => sortHeader view key (input.header key)) view
  rows.zipIdx.foldl (fun (view, pending) (i, k) => strRow strs[i] (input.row k) view pending)
    (view, pending)

/-- `body`. -/
def body (view : ViewState) (table : SourceTable Single) (input : Input)
    (pending : Option Pending) : ViewState × Option Pending :=
  match view.tab with
  | .str => strTable view table.strs input pending
  | _ => (view, pending)

/-- `footer`, where the button carries the selected mountpoint. -/
def footer (view : ViewState) (table : SourceTable Single) (input : Input)
    (pending : Option Pending) : Option Pending :=
  match resolveSelection table.strs view.selected with
  | some m => if input.use then some (.useMount m) else pending
  | none => pending

/-- `tab`, up to the action that it leads to. -/
def frame (view : ViewState) (host : Text) (busy : Bool) (table : Option (SourceTable Single))
    (input : Input) : ViewState × Option Pending :=
  let (view, pending) := toolbar view host busy input
  match table with
  | none => (view, pending)
  | some t =>
    let (view, pending) := body (tabs (syncView view t) t input.tab) t input pending
    (view, footer view t input pending)

/-- What is filled in is in the table. -/
def Pending.Listed (pending : Option Pending) (strs : List (StrRecord Single)) : Prop :=
  ∀ m, pending = some (.useMount m) → ∃ s ∈ strs, s.mountpoint = m

/-- A double click fills in a mountpoint of the table. -/
theorem str_table_listed (view : ViewState) (strs : List (StrRecord Single)) (input : Input)
    {pending : Option Pending} (h : Pending.Listed pending strs) :
    Pending.Listed (strTable view strs input pending).2 strs := by
  unfold strTable
  simp only
  generalize (strRows strs view.filter.trim view.sort).zipIdx = rows
  generalize [SortKey.mount, .format, .country, .bitrate].foldl
    (fun view key => sortHeader view key (input.header key)) view = headed
  induction rows generalizing headed pending with
  | nil => exact h
  | cons row rest ih =>
      obtain ⟨i, k⟩ := row
      rw [List.foldl_cons]
      refine ih ?_ _
      show Pending.Listed (strRow strs[i] (input.row k) headed pending).2 strs
      cases input.row k with
      | none => exact h
      | some double =>
          cases double with
          | false => exact h
          | true =>
              intro m hm
              exact ⟨strs[i], List.getElem_mem i.isLt, (Pending.useMount.inj (Option.some.inj hm))⟩

/-- A selection that is resolved is in the table. -/
theorem resolve_selection_listed {strs : List (StrRecord Single)} {selected : Option Text}
    {m : Text} (h : resolveSelection strs selected = some m) :
    selected = some m ∧ ∃ s ∈ strs, s.mountpoint = m := by
  obtain ⟨sel, hsel, hfound⟩ := Option.bind_eq_some_iff.mp h
  obtain ⟨s, hs, rfl⟩ := Option.map_eq_some_iff.mp hfound
  have heq : s.mountpoint = sel := by simpa using List.find?_some hs
  exact ⟨by rw [hsel, heq], s, List.mem_of_find?_eq_some hs, rfl⟩

/-- A frame fills in nothing that the table does not list, and nothing without a table. -/
theorem frame_listed (view : ViewState) (host : Text) (busy : Bool)
    (table : Option (SourceTable Single)) (input : Input) {m : Text}
    (h : (frame view host busy table input).2 = some (.useMount m)) :
    ∃ t, table = some t ∧ ∃ s ∈ t.strs, s.mountpoint = m := by
  have htoolbar : ∀ m, (toolbar view host busy input).2 ≠ some (.useMount m) := by
    intro m
    have hpending : ∀ refreshes : Bool,
        (if refreshes then some Pending.refresh else none) ≠ some (.useMount m) := by
      intro refreshes
      cases refreshes with
      | true => simp
      | false => simp
    unfold toolbar
    simp only
    split
    · exact hpending _
    · exact hpending _
  cases table with
  | none => exact absurd h (htoolbar m)
  | some t =>
      refine ⟨t, rfl, ?_⟩
      have hstart : Pending.Listed (toolbar view host busy input).2 t.strs :=
        fun m hm => absurd hm (htoolbar m)
      have hbody : ∀ shown : ViewState,
          Pending.Listed (body shown t input (toolbar view host busy input).2).2 t.strs := by
        intro shown
        unfold body
        cases shown.tab with
        | str => exact str_table_listed shown t.strs input hstart
        | _ => exact hstart
      change footer _ t input _ = _ at h
      unfold footer at h
      split at h
      · next found hfound =>
          cases huse : input.use with
          | true =>
              rw [huse, if_pos rfl] at h
              rw [← Pending.useMount.inj (Option.some.inj h)]
              exact (resolve_selection_listed hfound).2
          | false =>
              rw [huse, if_neg Bool.false_ne_true] at h
              exact hbody _ m h
      · exact hbody _ m h

/-! ## What is drawn -/

/-- The places of the entries that pass a test. -/
def matching {α : Type} (entries : List α) (p : α → Bool) : List Nat :=
  (entries.zipIdx.filter fun e => p e.1).map (·.2)

/-- The rows that `body` draws, as places in the list of the tab. -/
def drawnRows (view : ViewState) (table : SourceTable Single) : List Nat :=
  let filter := view.filter.trim
  match view.tab with
  | .str => (strRows table.strs filter view.sort).map Fin.val
  | .cas => matching table.casters fun c => casMatches c filter
  | .net => matching table.networks fun n => netMatches n filter
  | .unparsed => matching table.unparsed fun l => containsIgnoreAsciiCase l filter

/-- How many entries `footer` says the filter shows, and of how many. -/
def shownOf (view : ViewState) (table : SourceTable Single) : Nat × Nat :=
  let filter := view.filter.trim
  match view.tab with
  | .str => ((strRows table.strs filter none).length, table.strs.length)
  | .cas => (table.casters.countP fun c => casMatches c filter, table.casters.length)
  | .net => (table.networks.countP fun n => netMatches n filter, table.networks.length)
  | .unparsed =>
    (table.unparsed.countP fun l => containsIgnoreAsciiCase l filter, table.unparsed.length)

/-- The places that pass a test are counted like the entries that do. -/
theorem length_matching {α : Type} (entries : List α) (p : α → Bool) :
    (matching entries p).length = entries.countP p := by
  have hentries : entries = entries.zipIdx.map Prod.fst :=
    (List.zipIdx_map_fst 0 entries).symm
  rw [matching, List.length_map]
  conv_rhs => rw [hentries]
  rw [List.countP_map, List.countP_eq_length_filter]
  rfl

/-- Sorting changes neither which rows there are nor how many. -/
theorem str_rows_perm (strs : List (StrRecord Single)) (filter : Text)
    (sort : Option (SortKey × Bool)) :
    (strRows strs filter sort).Perm (strRows strs filter none) := by
  cases sort with
  | none => exact List.Perm.refl _
  | some column => exact List.perm_insertionSort _ _

/-- The footer counts the rows that are drawn. -/
theorem shown_of_drawn (view : ViewState) (table : SourceTable Single) :
    (shownOf view table).1 = (drawnRows view table).length := by
  unfold shownOf drawnRows
  cases view.tab with
  | str =>
      show (strRows table.strs view.filter.trim none).length = _
      rw [List.length_map, (str_rows_perm table.strs view.filter.trim view.sort).length_eq]
  | cas => exact (length_matching _ _).symm
  | net => exact (length_matching _ _).symm
  | unparsed => exact (length_matching _ _).symm

/-- The tab of the lines that are no records is never up without such lines. -/
theorem tab_offered (view : ViewState) (table : SourceTable Single) (clicked : Option Tab)
    (h : (tabs (syncView view table) table clicked).tab = .unparsed) : table.unparsed ≠ [] := by
  have hoffered : table.unparsed = [] → (syncView view table).tab ≠ .unparsed := by
    intro hnone
    unfold syncView
    split
    · simp
    · next hstays => exact fun htab => hstays ⟨htab, by rw [hnone]; rfl⟩
  intro hnone
  unfold tabs at h
  split at h
  · exact hoffered hnone h
  · rw [if_pos (by rw [hnone]; rfl)] at h
    exact hoffered hnone h
  · next htab => exact htab h

/-! ## The browser in the window -/

/-- A mountpoint that was filled in: where the profile pointed then, the table that was shown, and
what a connect would start next. -/
structure Fill (D Single : Type) where
  host : Text
  port : UInt16
  table : Option (SourceTable Single)
  mountpoint : Text
  next : Option (Launch D)

/-- The window with the browser, and a record of what was filled in. -/
structure Browsing (D Single Double : Type) where
  desk : Desk D Single Double
  view : ViewState := {}
  fills : List (Fill D Single) := []

/-- A step of the window, the workers or the bus, or a frame of the browser, with what a connect
reads should it lead to one. -/
inductive BrowseMove (D Single Double : Type) where
  | desk (move : Move D Single Double)
  | frame (input : Input) (options : ConnectOptions D) (script : WorkerScript) (sentAt : LocalStamp)

/-- The table that `tab` shows: the one in memory, if it is of the caster that the profile names. -/
def shownTable (w : Window Single Double) : Option (SourceTable Single) :=
  match w.state.ntrip.sourcetable with
  | some (host, port, table) =>
    if host = w.active.host.trim ∧ port = w.active.port then some table else none
  | none => none

namespace Browsing

variable [Inhabited Single] (render : Rendering Single) (widen : Single → F64)
  (seconds : Duration → F64)

/-- `tab`. -/
def frame (b : Browsing D Single Double) (input : Input) (options : ConnectOptions D)
    (script : WorkerScript) (sentAt : LocalStamp) : Browsing D Single Double :=
  let w := b.desk.window
  let host := w.active.host.trim
  let (view, pending) := Browser.frame b.view host w.ntrip.isSome (shownTable w) input
  match pending with
  | some .refresh =>
    { b with
      view
      desk := b.desk.step render widen seconds (.connect options true script sentAt) }
  | some (.useMount mountpoint) =>
    let desk := b.desk.step render widen seconds (.edit { w.active with mountpoint })
    { b with
      view
      desk
      fills :=
        { host, port := w.active.port, table := shownTable w, mountpoint
          next := desk.window.launch options false } :: b.fills }
  | none => { b with view }

def step (b : Browsing D Single Double) : BrowseMove D Single Double → Browsing D Single Double
  | .desk move => { b with desk := b.desk.step render widen seconds move }
  | .frame input options script sentAt => b.frame render widen seconds input options script sentAt

end Browsing

/-- Every table in a script is the caster's of the session, and the one in memory is of a script. -/
structure Tabled (d : Desk D Single Double) : Prop where
  hosts : ∀ s ∈ d.sessions, s.launch.job.host ≠ []
  scripts : ∀ s ∈ d.sessions, ∀ host port table, .sourcetableReady host port table ∈ s.script →
    host = s.launch.job.host ∧ port = s.launch.job.port
  table : ∀ host port table, d.window.state.ntrip.sourcetable = some (host, port, table) →
    ∃ s ∈ d.sessions, .sourcetableReady host port table ∈ s.script

/-- A worker reports tables of the caster of its job alone. -/
theorem posts_tables [Inhabited Single] (render : Rendering Single) (launch : Launch D)
    (script : WorkerScript) {host : Text} {port : UInt16} {table : SourceTable Single}
    (h : (.sourcetableReady host port table : HubEvent Single Double) ∈
      Desk.posts render launch script) :
    host = launch.job.host ∧ port = launch.job.port := by
  obtain ⟨⟨report, i⟩, hmem, hbus⟩ := List.mem_filterMap.mp h
  have hreport : report = .sourcetableReady host port table := by
    cases report with
    | sourcetableReady host' port' table' =>
        obtain ⟨rfl, rfl, rfl⟩ := HubEvent.sourcetableReady.inj (Option.some.inj hbus)
        rfl
    | post p => cases p <;> simp [Report.onBus, Post.event] at hbus
    | _ => simp [Report.onBus] at hbus
  have hjob := tables_of_job render launch.capture { job := launch.job } launch.allowInvalidCerts
    {} script.attempts script.readings report (List.fst_mem_of_mem_zipIdx hmem)
  rw [hreport] at hjob
  exact Prod.mk.inj (hjob (host, port) rfl)

/-- What is connected to is the host of the active profile, and not empty. -/
theorem launch_host {w : Window Single Double} {options : ConnectOptions D} {tableOnly : Bool}
    {launch : Launch D} (h : w.launch options tableOnly = some launch) :
    launch.job.host = w.active.host.trim ∧ launch.job.host ≠ [] := by
  unfold Window.launch at h
  simp only at h
  split at h
  · exact absurd h (by simp)
  · next hhost =>
      rw [← Option.some.inj h]
      exact ⟨rfl, fun hnil => hhost (by rw [show w.active.host.trim = [] from hnil]; rfl)⟩

section

variable [Inhabited Single] (render : Rendering Single) (widen : Single → F64)
  (seconds : Duration → F64) {d : Desk D Single Double}

omit [Inhabited Single] in
/-- A step that changes neither the sessions nor the table in memory. -/
theorem Tabled.kept (h : Tabled d) {d' : Desk D Single Double}
    (hsessions : d'.sessions = d.sessions)
    (htable : d'.window.state.ntrip.sourcetable = d.window.state.ntrip.sourcetable) :
    Tabled d' where
  hosts := by
    rw [hsessions]
    exact h.hosts
  scripts := by
    rw [hsessions]
    exact h.scripts
  table := by
    rw [hsessions, htable]
    exact h.table

omit [Inhabited Single] in
/-- An event keeps the table in memory one that its caster has sent. -/
theorem Tabled.consumed (h : Tabled d) (hinv : d.Inv) {sender : Option Nat}
    {ev : HubEvent Single Double} {bus : Mailbox (Option Nat) (HubEvent Single Double)}
    (htake : d.bus.take = some ((sender, ev), bus)) (now : Instant) (stamps : Nat → LocalStamp) :
    Tabled (d.consumed widen seconds sender ev bus now stamps) where
  hosts := h.hosts
  scripts := h.scripts
  table := by
    intro host port table htable
    obtain ⟨hstate, -⟩ := consume_spec widen seconds d.window ev now
    obtain ⟨-, -, -, -, -, hsets⟩ :=
      Interface.step_pane_sets d.window.state.ntrip (.event ev now : Entry Single Double)
    change (d.window.consume widen seconds ev now).1.state.ntrip.sourcetable = _ at htable
    rw [hstate, hsets] at htable
    cases ev with
    | sourcetableReady host' port' table' =>
        obtain ⟨rfl, rfl, rfl⟩ : host' = host ∧ port' = port ∧ table' = table := by
          simpa [Entry.table?] using htable
        obtain ⟨hchannel, -, -⟩ := Mailbox.take_some htake
        cases sender with
        | none =>
            -- no other thread posts a table
            have hother := hinv.others _ (hchannel ▸ List.mem_cons_self)
            exact absurd hother Bool.false_ne_true
        | some k =>
            obtain ⟨hleft, -⟩ := Mailbox.take_left htake
            obtain ⟨handle, hhandle, rfl⟩ := hinv.alone k (by rw [hleft]; simp)
            obtain ⟨-, session, hsession, -⟩ := hinv.current handle hhandle
            refine ⟨session, List.mem_of_getElem? hsession, ?_⟩
            rw [← hinv.said _ _ hsession, Mailbox.saying, hleft]
            exact List.mem_append_right _ List.mem_cons_self
    | _ => exact h.table host port table htable

/-- So does a connect. -/
theorem Tabled.connect (h : Tabled d) {options : ConnectOptions D} {tableOnly : Bool}
    {launch : Launch D} (hlaunch : d.window.launch options tableOnly = some launch)
    (script : WorkerScript) :
    Tabled { d with
      window := d.window.start d.sessions.length launch
      bus := d.bus.load (some d.sessions.length) (Desk.posts render launch script)
      sessions := d.sessions ++ [{ launch, script := Desk.posts render launch script }]
      shown := [] } where
  hosts := by
    intro s hs
    rcases List.mem_append.mp hs with hs | hs
    · exact h.hosts s hs
    · rw [List.mem_singleton.mp hs]
      exact (launch_host hlaunch).2
  scripts := by
    intro s hs host port table hready
    rcases List.mem_append.mp hs with hs | hs
    · exact h.scripts s hs host port table hready
    · rw [List.mem_singleton.mp hs] at hready ⊢
      exact posts_tables render launch script hready
  table := by
    intro host port table htable
    obtain ⟨s, hs, hready⟩ := h.table host port table htable
    exact ⟨s, List.mem_append_left _ hs, hready⟩

/-- So does every step of the window, the workers and the bus. -/
theorem Tabled.step (h : Tabled d) (hinv : d.Inv) (move : Move D Single Double) :
    Tabled (d.step render widen seconds move) := by
  cases move with
  | connect options tableOnly script sentAt =>
      simp only [Desk.step]
      split
      · exact h
      · split
        · exact h.kept rfl rfl
        · next launch hlaunch => exact h.connect render hlaunch script
  | consume now stamps =>
      simp only [Desk.step]
      split
      · exact h
      · next sender ev bus htake => exact h.consumed widen seconds hinv htake now stamps
  | switchProfile p =>
      refine ⟨h.hosts, h.scripts, ?_⟩
      -- the table belonged to the caster of the profile before
      have hnone : (d.step render widen seconds
          (.switchProfile p)).window.state.ntrip.sourcetable = none := by
        show (d.window.state.gesture (.profileSwitched d.window.ntrip.isSome)).ntrip.sourcetable =
          none
        cases d.window.ntrip.isSome with
        | true => rfl
        | false => rfl
      intro host port table htable
      exact absurd (hnone.symm.trans htable) (by simp)
  | _ => exact h.kept rfl rfl

/-- A session that was started stays in the record. -/
theorem sessions_kept (d : Desk D Single Double) (move : Move D Single Double) :
    d.sessions ⊆ (d.step render widen seconds move).sessions := by
  cases move with
  | connect options tableOnly script sentAt =>
      simp only [Desk.step]
      split
      · exact fun _ hs => hs
      · split
        · exact fun _ hs => hs
        · exact List.subset_append_left _ _
  | consume now stamps =>
      simp only [Desk.step]
      split
      · exact fun _ hs => hs
      · exact fun _ hs => hs
  | _ => exact fun _ hs => hs

end

/-- What was filled in is listed in a table that a session reported for the caster that the profile
named, and a connect asks that caster for it. Where it has no white space around it, the connect
knows whether the caster wants a position there. -/
def Fill.Listed (sessions : List (Session D Single Double)) (fill : Fill D Single) : Prop :=
  ∃ s ∈ sessions, ∃ table, fill.table = some table ∧
    s.launch.job.host = fill.host ∧ s.launch.job.port = fill.port ∧
    .sourcetableReady fill.host fill.port table ∈ s.script ∧
    ∃ record, (table.strs.find? fun r => r.mountpoint = fill.mountpoint) = some record ∧
      ∃ launch, fill.next = some launch ∧ launch.job.host = fill.host ∧
        launch.job.port = fill.port ∧ launch.job.mountpoint = fill.mountpoint.trim ∧
        (fill.mountpoint.Trimmed → launch.job.streamRequiresGga = some record.nmeaRequired)

/-- What a connect starts after a fill. -/
theorem fill_connects {w : Window Single Double} {table : SourceTable Single} {m : Text}
    (hhost : w.active.host.trim ≠ [])
    (htable : w.state.ntrip.sourcetable = some (w.active.host.trim, w.active.port, table))
    {record : StrRecord Single}
    (hrecord : (table.strs.find? fun r => r.mountpoint = m) = some record)
    (options : ConnectOptions D) :
    ∃ launch, Window.launch { w with active := { w.active with mountpoint := m } } options false =
        some launch ∧ launch.job.host = w.active.host.trim ∧ launch.job.port = w.active.port ∧
      launch.job.mountpoint = m.trim ∧
      (m.Trimmed → launch.job.streamRequiresGga = some record.nmeaRequired) := by
  unfold Window.launch
  simp only
  rw [if_neg (by rw [List.isEmpty_iff]; exact hhost)]
  refine ⟨_, rfl, rfl, rfl, rfl, fun htrimmed => ?_⟩
  show Option.map _ (NtripPane.strRecord w.state.ntrip w.active.host.trim w.active.port m.trim) = _
  unfold NtripPane.strRecord
  rw [htable, htrimmed]
  simp only [ne_eq, not_true_eq_false, or_self, if_false]
  rw [SourceTable.record, hrecord]
  rfl

/-- What a session has listed stays listed. -/
theorem Fill.Listed.mono {sessions sessions' : List (Session D Single Double)}
    {fill : Fill D Single} (h : fill.Listed sessions) (hkept : sessions ⊆ sessions') :
    fill.Listed sessions' := by
  obtain ⟨s, hs, hlisted⟩ := h
  exact ⟨s, hkept hs, hlisted⟩

/-- What every step keeps. -/
structure Browsing.Inv (b : Browsing D Single Double) : Prop where
  desk : b.desk.Inv
  tabled : Tabled b.desk
  listed : ∀ fill ∈ b.fills, fill.Listed b.desk.sessions

section

variable [Inhabited Single] (render : Rendering Single) (widen : Single → F64)
  (seconds : Duration → F64) {b : Browsing D Single Double}

/-- A step besides the browser fills in nothing. -/
theorem Browsing.Inv.move (h : b.Inv) (move : Move D Single Double) (view : ViewState) :
    Browsing.Inv { b with view, desk := b.desk.step render widen seconds move } where
  desk := h.desk.step render widen seconds move
  tabled := h.tabled.step render widen seconds h.desk move
  listed := fun fill hfill =>
    (h.listed fill hfill).mono (sessions_kept render widen seconds b.desk move)

omit [Inhabited Single] in
/-- A frame that fills in a mountpoint fills in one that is listed. -/
theorem Browsing.Inv.fill (h : b.Inv) {busy : Bool} {input : Input} {m : Text}
    (hpending : (Browser.frame b.view b.desk.window.active.host.trim busy
      (shownTable b.desk.window) input).2 = some (.useMount m)) (options : ConnectOptions D) :
    Fill.Listed b.desk.sessions
      { host := b.desk.window.active.host.trim
        port := b.desk.window.active.port
        table := shownTable b.desk.window
        mountpoint := m
        next := Window.launch { b.desk.window with
          active := { b.desk.window.active with mountpoint := m } } options false } := by
  obtain ⟨t, hshown, listed, hlisted, hm⟩ := frame_listed _ _ _ _ _ hpending
  -- the table in memory is of the caster that the profile names
  have htable : b.desk.window.state.ntrip.sourcetable =
      some (b.desk.window.active.host.trim, b.desk.window.active.port, t) := by
    unfold shownTable at hshown
    split at hshown
    · next host port table hmemory =>
        split at hshown
        · next hsame =>
            rw [hmemory, hsame.1, hsame.2, Option.some.inj hshown]
        · exact absurd hshown (by simp)
    · exact absurd hshown (by simp)
  obtain ⟨s, hs, hready⟩ := h.tabled.table _ _ _ htable
  obtain ⟨hhost, hport⟩ := h.tabled.scripts s hs _ _ _ hready
  have hfound : (t.strs.find? fun r => r.mountpoint = m).isSome = true := by
    rw [List.find?_isSome]
    exact ⟨listed, hlisted, by simpa using hm⟩
  obtain ⟨record, hrecord⟩ := Option.isSome_iff_exists.mp hfound
  have hset : b.desk.window.active.host.trim ≠ [] := by
    rw [hhost]
    exact h.tabled.hosts s hs
  exact ⟨s, hs, t, hshown, hhost.symm, hport.symm, hready, record, hrecord,
    fill_connects hset htable hrecord options⟩

/-- Every step fills in what is listed, or nothing. -/
theorem Browsing.Inv.step (h : b.Inv) (move : BrowseMove D Single Double) :
    (b.step render widen seconds move).Inv := by
  cases move with
  | desk move => exact h.move render widen seconds move b.view
  | frame input options script sentAt =>
      show (b.frame render widen seconds input options script sentAt).Inv
      unfold Browsing.frame
      simp only
      split
      · exact h.move render widen seconds _ _
      · next m hpending =>
          have hmoved := h.move render widen seconds (.edit { b.desk.window.active with
            mountpoint := m }) b.view
          refine ⟨hmoved.desk, hmoved.tabled, fun fill hfill => ?_⟩
          rcases List.mem_cons.mp hfill with rfl | hfill
          · exact (h.fill hpending options).mono
              (sessions_kept render widen seconds b.desk _)
          · exact hmoved.listed fill hfill
      · exact ⟨h.desk, h.tabled, h.listed⟩

end

/-- Whatever the browser fills in is listed in a table that some session reported for the caster
that the profile named then, whatever the user, the workers and the other threads do in whatever
order; and a connect asks that caster for it. -/
theorem fills_listed [Inhabited Single] (render : Rendering Single) (widen : Single → F64)
    (seconds : Duration → F64) (now : Instant) (active : Profile)
    (moves : List (BrowseMove D Single Double)) :
    let b := moves.foldl (Browsing.step render widen seconds) { desk := Desk.start now active }
    ∀ fill ∈ b.fills, fill.Listed b.desk.sessions := by
  intro b
  suffices hinv : ∀ b : Browsing D Single Double, b.Inv →
      (moves.foldl (Browsing.step render widen seconds) b).Inv by
    refine (hinv _ ⟨Desk.start_inv now active, ⟨?_, ?_, ?_⟩, ?_⟩).listed
    · exact fun s hs => absurd hs List.not_mem_nil
    · exact fun s hs => absurd hs List.not_mem_nil
    · exact fun host port table htable => absurd htable (by simp [Desk.start, Interface.new])
    · exact fun fill hfill => absurd hfill List.not_mem_nil
  induction moves with
  | nil => exact fun _ h => h
  | cons move rest ih => exact fun b h => ih _ (h.step render widen seconds move)

end Browser

end OpenNtrip
