import OfflineSync.ItemStorage
import OfflineSync.Lib.Dedup
import Mathlib.Order.WithBot

/-!
# The server-side event log

`backend/src/event_log.rs`. `append` stores pushed events, giving each new one the next
offset, and answers with the stored form of every event of the batch, new or not; that answer
is a device's acknowledgement. `eventsAfter` is the pull primitive.

Both append paths store new events one after the other and touch nothing else (`Grows`), so the
offsets of a log count its entries from the number it was made with (`NumberedFrom`). Under that
invariant the order of the stream is the order of insertion, and the page after a cursor is what
`drop` and `take` leave of the entries. A log made by `ServerEventLog.new` counts from 1
(`WellFormed`), which is where the cursor counts from as well: no cursor stands for 0, and
`WellFormed.eventsAfter_events` and `WellFormed.getLast?_segment` read positions off cursors.
-/

namespace OfflineSync

open Dedup

structure ServerEventLog where
  entries : List ItemDescriptor
  nextServerOffset : ℕ
deriving DecidableEq, Repr

namespace ServerEventLog

/-- `ServerEventLog::new`: the first offset is 1. -/
def new : ServerEventLog where
  entries := []
  nextServerOffset := 1

/-- `ServerEventLog::default`, the derived constructor: the first offset is 0. -/
def default : ServerEventLog where
  entries := []
  nextServerOffset := 0

/-- `ServerEventLog::find`. -/
def find (log : ServerEventLog) (id : Uuid) : Option ItemDescriptor :=
  log.entries.find? fun d => d.replicaEventId = id

/-- `ServerEventLog::assign`: store an event at the next offset, at the clock reading `nowMs`. -/
def assign (log : ServerEventLog) (ev : ItemAppend) (batchWriteOffset : ℕ) (nowMs : ℤ) :
    ServerEventLog × ItemDescriptor :=
  let descriptor : ItemDescriptor :=
    { replicaEventId := ev.replicaEventId
      replicaWriteOffset := ev.replicaWriteOffset.getD batchWriteOffset
      replicaTimeMs := ev.replicaTimeMs
      replicaId := ev.replicaId
      serverOffset := some ⟨log.nextServerOffset⟩
      serverTimeMs := some nowMs
      entityId := ev.entityId
      payload := ev.payload }
  (⟨log.entries ++ [descriptor], log.nextServerOffset + 1⟩, descriptor)

/-- `ServerEventLog::append`: store pushed events, skipping ids stored already, and return
all of them as stored. `now` gives the readings of the server's clock. -/
def append (log : ServerEventLog) (now : ℕ → ℤ) :
    List ItemAppend → ServerEventLog × List ItemDescriptor
  | [] => (log, [])
  | ev :: events =>
    match log.find ev.replicaEventId with
    | some existing =>
      let rest := append log (fun i => now (i + 1)) events
      (rest.1, existing :: rest.2)
    | none =>
      let assigned := log.assign ev 0 (now 0)
      let rest := append assigned.1 (fun i => now (i + 1)) events
      (rest.1, assigned.2 :: rest.2)

/-- The loop of `append_local`, with `batch_write_offset` as it enters. -/
def appendLocalFrom (batchWriteOffset : ℕ) (log : ServerEventLog) (now : ℕ → ℤ) :
    List ItemAppend → ServerEventLog × List ItemDescriptor
  | [] => (log, [])
  | ev :: events =>
    match log.find ev.replicaEventId with
    | some existing =>
      let rest := appendLocalFrom batchWriteOffset log (fun i => now (i + 1)) events
      (rest.1, existing :: rest.2)
    | none =>
      let assigned := log.assign ev (batchWriteOffset + 1) (now 0)
      let rest := appendLocalFrom (batchWriteOffset + 1) assigned.1 (fun i => now (i + 1)) events
      (rest.1, assigned.2 :: rest.2)

/-- `ServerEventLog::append_local`: server-side authoring. -/
def appendLocal (log : ServerEventLog) (now : ℕ → ℤ) (events : List ItemAppend) :
    ServerEventLog × List ItemDescriptor :=
  appendLocalFrom 0 log now events

/-- The sort key of the server's stream; an event without an offset comes first. -/
def streamKey (d : ItemDescriptor) : WithBot ℕ :=
  d.serverOffset.map ServerOffset.val

/-- `ServerEventLog::all_events`. -/
def allEvents (log : ServerEventLog) : List ItemDescriptor :=
  sortByKey streamKey log.entries

/-- The number a cursor stands for: no cursor is 0. -/
def cursorVal (offset : Option ServerOffset) : ℕ :=
  (offset.map ServerOffset.val).getD 0

/-- `ServerEventLog::events_after`: the pull primitive. -/
def eventsAfter (log : ServerEventLog) (offset : Option ServerOffset) (limit : ℕ) :
    EventsPage ItemEvent ItemId :=
  let after := cursorVal offset
  let page := log.entries.filter fun d =>
    (d.serverOffset.map fun o => decide (after < o.val)).getD false
  let page := (sortByKey streamKey page).take limit
  { events := page
    nextOffset := page.getLast?.bind EventDescriptor.serverOffset }

/-- `ServerEventLog::events_of_entity`. -/
def eventsOfEntity (log : ServerEventLog) (entityId : ItemId) : List ItemDescriptor :=
  eventsOf log.entries entityId

instance : EntityEventLog ServerEventLog where
  appendLocal := appendLocal
  eventsOfEntity := eventsOfEntity

/-- The ids in the log, in insertion order. -/
def ids (log : ServerEventLog) : List Uuid :=
  eventIds log.entries

/-- The offset of the last entry, the one a device that has pulled everything holds. -/
def lastOffset (log : ServerEventLog) : Option ServerOffset :=
  log.entries.getLast?.bind EventDescriptor.serverOffset

/-- The representation invariant: ids are distinct, and the offset of an entry is its
position, counted from 1. -/
structure WellFormed (log : ServerEventLog) : Prop where
  nodup : log.ids.Nodup
  offset : ∀ i (d : ItemDescriptor), log.entries[i]? = some d → d.serverOffset = some ⟨i + 1⟩
  next : log.nextServerOffset = log.entries.length + 1

theorem wellFormed_new : new.WellFormed where
  nodup := List.nodup_nil
  offset := fun i d h => by simp [new] at h
  next := rfl

/-- The representation invariant of a log whose first offset is `base`. -/
structure NumberedFrom (base : ℕ) (log : ServerEventLog) : Prop where
  nodup : log.ids.Nodup
  offset : ∀ i (d : ItemDescriptor), log.entries[i]? = some d → d.serverOffset = some ⟨base + i⟩
  next : log.nextServerOffset = base + log.entries.length

theorem wellFormed_iff {log : ServerEventLog} : log.WellFormed ↔ log.NumberedFrom 1 := by
  constructor
  · intro h
    exact ⟨h.nodup, fun i d hd => Nat.add_comm 1 i ▸ h.offset i d hd, Nat.add_comm 1 _ ▸ h.next⟩
  · intro h
    exact ⟨h.nodup, fun i d hd => Nat.add_comm 1 i ▸ h.offset i d hd, Nat.add_comm 1 _ ▸ h.next⟩

theorem numberedFrom_default : default.NumberedFrom 0 where
  nodup := List.nodup_nil
  offset := fun i d h => by simp [default] at h
  next := rfl

private theorem find_eq_none {log : ServerEventLog} {id : Uuid} :
    log.find id = none ↔ id ∉ log.ids := by
  rw [← Option.not_isSome_iff_eq_none]
  simp [find, ids, eventIds]

theorem of_find_eq_some {log : ServerEventLog} {id : Uuid} {d : ItemDescriptor}
    (h : log.find id = some d) : d ∈ log.entries ∧ d.replicaEventId = id :=
  ⟨List.mem_of_find?_eq_some h, of_decide_eq_true (List.find?_some h :)⟩

/-! ### Appending -/

@[simp] theorem assign_entries (log : ServerEventLog) (ev : ItemAppend) (k : ℕ) (t : ℤ) :
    (log.assign ev k t).1.entries = log.entries ++ [(log.assign ev k t).2] := rfl

@[simp] theorem assign_replicaEventId (log : ServerEventLog) (ev : ItemAppend) (k : ℕ) (t : ℤ) :
    (log.assign ev k t).2.replicaEventId = ev.replicaEventId := rfl

@[simp] theorem ids_assign (log : ServerEventLog) (ev : ItemAppend) (k : ℕ) (t : ℤ) :
    (log.assign ev k t).1.ids = log.ids ++ [ev.replicaEventId] := by
  simp [ids]

/-- What an append path does to a log: it stores new events, one after the other. -/
inductive Grows (log : ServerEventLog) : ServerEventLog → Prop
  | refl : Grows log log
  | assign {log' : ServerEventLog} (h : Grows log log') {ev : ItemAppend}
      (new : ev.replicaEventId ∉ log'.ids) (batchWriteOffset : ℕ) (nowMs : ℤ) :
      Grows log (log'.assign ev batchWriteOffset nowMs).1

theorem Grows.trans {log log' log'' : ServerEventLog} (h : log.Grows log')
    (h' : log'.Grows log'') : log.Grows log'' := by
  induction h' with
  | refl => exact h
  | assign _ new k t ih => exact ih.assign new k t

theorem grows_append (log : ServerEventLog) (now : ℕ → ℤ) (events : List ItemAppend) :
    log.Grows (log.append now events).1 := by
  induction events generalizing log now with
  | nil => exact .refl
  | cons ev events ih =>
    rw [append]
    cases hfind : log.find ev.replicaEventId with
    | some existing => exact ih log _
    | none => exact (Grows.refl.assign (find_eq_none.mp hfind) 0 (now 0)).trans (ih _ _)

theorem grows_appendLocalFrom (k : ℕ) (log : ServerEventLog) (now : ℕ → ℤ)
    (events : List ItemAppend) : log.Grows (appendLocalFrom k log now events).1 := by
  induction events generalizing k log now with
  | nil => exact .refl
  | cons ev events ih =>
    rw [appendLocalFrom]
    cases hfind : log.find ev.replicaEventId with
    | some existing => exact ih k log _
    | none => exact (Grows.refl.assign (find_eq_none.mp hfind) (k + 1) (now 0)).trans (ih _ _ _)

theorem grows_appendLocal (log : ServerEventLog) (now : ℕ → ℤ) (events : List ItemAppend) :
    log.Grows (log.appendLocal now events).1 :=
  grows_appendLocalFrom 0 log now events

/-- A log only grows at its end. -/
theorem Grows.isPrefix {log log' : ServerEventLog} (h : log.Grows log') :
    log.entries <+: log'.entries := by
  induction h with
  | refl => exact List.prefix_rfl
  | assign _ _ k t ih => exact ih.trans (List.prefix_append _ _)

/-- Storing a new event keeps the representation invariant. -/
private theorem NumberedFrom.assign {base : ℕ} {log : ServerEventLog} (h : log.NumberedFrom base)
    {ev : ItemAppend} (hev : ev.replicaEventId ∉ log.ids) (k : ℕ) (t : ℤ) :
    (log.assign ev k t).1.NumberedFrom base where
  nodup := by
    have hadd := nodup_addNew h.nodup ev.replicaEventId
    rwa [addNew, if_neg hev, ← ids_assign log ev k t] at hadd
  offset := by
    intro i d hd
    rw [assign_entries] at hd
    rcases Nat.lt_or_ge i log.entries.length with hi | hi
    · rw [List.getElem?_append_left hi] at hd
      exact h.offset i d hd
    · rw [List.getElem?_append_right hi] at hd
      obtain ⟨hlt, rfl⟩ := List.getElem?_eq_some_iff.mp hd
      have hi : i = log.entries.length := by
        simp only [List.length_singleton] at hlt
        omega
      subst hi
      simp [ServerEventLog.assign, h.next]
  next := by simp [ServerEventLog.assign, h.next, Nat.add_assoc]

theorem NumberedFrom.of_grows {base : ℕ} {log log' : ServerEventLog}
    (h : log.NumberedFrom base) (hlog' : log.Grows log') : log'.NumberedFrom base := by
  induction hlog' with
  | refl => exact h
  | assign _ new k t ih => exact ih.assign new k t

/-- The ids after an append. -/
theorem ids_append (log : ServerEventLog) (now : ℕ → ℤ) (events : List ItemAppend) :
    (log.append now events).1.ids
      = addAll log.ids (events.map AppendEvent.replicaEventId) := by
  induction events generalizing log now with
  | nil => rfl
  | cons ev events ih =>
    rw [append, List.map_cons, addAll_cons, addNew]
    by_cases hmem : ev.replicaEventId ∈ log.ids
    · cases hfind : log.find ev.replicaEventId with
      | none => exact absurd hmem (find_eq_none.mp hfind)
      | some existing => rw [if_pos hmem]; exact ih _ _
    · rw [find_eq_none.mpr hmem, if_neg hmem, ← ids_assign log ev 0 (now 0)]
      exact ih _ _

/-- An append keeps the representation invariant. -/
theorem WellFormed.append {log : ServerEventLog} (h : log.WellFormed) (now : ℕ → ℤ)
    (events : List ItemAppend) : (log.append now events).1.WellFormed :=
  wellFormed_iff.mpr ((wellFormed_iff.mp h).of_grows (log.grows_append now events))

/-- An append only adds entries at the end, each storing an event of the batch as its author
made it. -/
theorem exists_entries_append (log : ServerEventLog) (now : ℕ → ℤ) (events : List ItemAppend) :
    ∃ new, (log.append now events).1.entries = log.entries ++ new ∧
      ∀ d ∈ new, ∃ ev ∈ events, ∃ log' : ServerEventLog, ∃ t, d = (log'.assign ev 0 t).2 := by
  induction events generalizing log now with
  | nil => exact ⟨[], (List.append_nil _).symm, fun d hd => absurd hd List.not_mem_nil⟩
  | cons ev events ih =>
    rw [append]
    cases hfind : log.find ev.replicaEventId with
    | some existing =>
      obtain ⟨new, heq, hnew⟩ := ih log fun i => now (i + 1)
      refine ⟨new, heq, fun d hd => ?_⟩
      obtain ⟨ev', hev', h'⟩ := hnew d hd
      exact ⟨ev', List.mem_cons_of_mem _ hev', h'⟩
    | none =>
      obtain ⟨new, heq, hnew⟩ := ih (log.assign ev 0 (now 0)).1 fun i => now (i + 1)
      refine ⟨(log.assign ev 0 (now 0)).2 :: new, ?_, fun d hd => ?_⟩
      · rw [heq, assign_entries, List.append_assoc, List.singleton_append]
      · rcases List.mem_cons.mp hd with rfl | hd
        · exact ⟨ev, List.mem_cons_self, log, now 0, rfl⟩
        · obtain ⟨ev', hev', h'⟩ := hnew d hd
          exact ⟨ev', List.mem_cons_of_mem _ hev', h'⟩

/-- The answer to an append is aligned with the batch. -/
theorem eventIds_append_snd (log : ServerEventLog) (now : ℕ → ℤ) (events : List ItemAppend) :
    eventIds (log.append now events).2 = events.map AppendEvent.replicaEventId := by
  induction events generalizing log now with
  | nil => rfl
  | cons ev events ih =>
    rw [append, List.map_cons]
    cases hfind : log.find ev.replicaEventId with
    | some existing =>
      rw [eventIds_cons, ih, (of_find_eq_some hfind).2]
    | none => rw [eventIds_cons, ih, assign_replicaEventId]

/-- The answer to an append consists of stored entries. -/
theorem mem_entries_of_mem_append_snd (log : ServerEventLog) (now : ℕ → ℤ)
    (events : List ItemAppend) :
    ∀ d ∈ (log.append now events).2, d ∈ (log.append now events).1.entries := by
  induction events generalizing log now with
  | nil => exact fun d hd => absurd hd List.not_mem_nil
  | cons ev events ih =>
    intro d hd
    rw [append] at hd ⊢
    cases hfind : log.find ev.replicaEventId with
    | some existing =>
      simp only [hfind] at hd ⊢
      -- an event stored before is answered with the entry it has
      rcases List.mem_cons.mp hd with rfl | hd
      · obtain ⟨new, heq, -⟩ := exists_entries_append log (fun i => now (i + 1)) events
        rw [heq]
        exact List.mem_append_left _ (of_find_eq_some hfind).1
      · exact ih _ _ d hd
    | none =>
      simp only [hfind] at hd ⊢
      rcases List.mem_cons.mp hd with rfl | hd
      · obtain ⟨new, heq, -⟩ := exists_entries_append (log.assign ev 0 (now 0)).1
          (fun i => now (i + 1)) events
        rw [heq, assign_entries]
        exact List.mem_append_left _ (List.mem_append_right _ List.mem_cons_self)
      · exact ih _ _ d hd

/-- A batch that is stored already leaves the log as it is. -/
theorem append_of_subset {log : ServerEventLog} (now : ℕ → ℤ) {events : List ItemAppend}
    (h : ∀ ev ∈ events, ev.replicaEventId ∈ log.ids) : (log.append now events).1 = log := by
  induction events generalizing now with
  | nil => rfl
  | cons ev events ih =>
    rw [append]
    cases hfind : log.find ev.replicaEventId with
    | none => exact absurd (h ev List.mem_cons_self) (find_eq_none.mp hfind)
    | some existing => exact ih _ fun ev' hev' => h ev' (List.mem_cons_of_mem _ hev')

/-! ### Paging -/

/-- The cursor of a page is the offset of its last event. -/
theorem eventsAfter_nextOffset (log : ServerEventLog) (offset : Option ServerOffset)
    (limit : ℕ) : (log.eventsAfter offset limit).nextOffset
      = (log.eventsAfter offset limit).events.getLast?.bind EventDescriptor.serverOffset := rfl

/-- Where offsets count positions, the events after a cursor are a final segment. -/
private theorem filter_after_eq_drop (after base : ℕ) (l : List ItemDescriptor)
    (h : ∀ i (d : ItemDescriptor), l[i]? = some d → d.serverOffset = some ⟨base + i⟩) :
    (l.filter fun d => (d.serverOffset.map fun o => decide (after < o.val)).getD false)
      = l.drop (after + 1 - base) := by
  induction l generalizing base with
  | nil => simp
  | cons d l ih =>
    have hd := h 0 d List.getElem?_cons_zero
    have hl := ih (base + 1) fun i d' hd' => by
      rw [h (i + 1) d' hd']
      congr 2
      omega
    -- offsets grow along the list: from the first one past the cursor on, all are
    by_cases hk : after < base
    · have hzero : after + 1 - base = 0 := by omega
      have hzero' : after + 1 - (base + 1) = 0 := by omega
      rw [List.filter_cons_of_pos (by simp [hd]; omega), hl, hzero, hzero']
      rfl
    · obtain ⟨m, hm⟩ : ∃ m, after + 1 - base = m + 1 := ⟨after - base, by omega⟩
      rw [List.filter_cons_of_neg (by simp [hd]; omega), hl, hm, List.drop_succ_cons]
      congr 1
      omega

theorem NumberedFrom.serverOffset_ne_none {base : ℕ} {log : ServerEventLog}
    (h : log.NumberedFrom base) {d : ItemDescriptor} (hd : d ∈ log.entries) :
    d.serverOffset ≠ none := by
  obtain ⟨i, hi⟩ := List.mem_iff_getElem?.mp hd
  rw [h.offset i d hi]
  exact Option.some_ne_none _

/-- The entries of a log are in the order of their offsets. -/
theorem NumberedFrom.pairwise_lt {base : ℕ} {log : ServerEventLog} (h : log.NumberedFrom base) :
    log.entries.Pairwise fun a b => streamKey a < streamKey b := by
  rw [List.pairwise_iff_getElem]
  intro i j hi hj hij
  have hoffset : ∀ k (hk : k < log.entries.length),
      streamKey log.entries[k] = ((base + k : ℕ) : WithBot ℕ) := by
      intro k hk
      rw [streamKey, h.offset k _ (List.getElem?_eq_getElem hk)]
      rfl
  rw [hoffset i hi, hoffset j hj]
  exact_mod_cast Nat.add_lt_add_left hij base

/-- The stream after a cursor. -/
def after (log : ServerEventLog) (offset : Option ServerOffset) : List ItemDescriptor :=
  log.entries.filter fun d =>
    (d.serverOffset.map fun o => decide (cursorVal offset < o.val)).getD false

private theorem NumberedFrom.after_eq_drop {base : ℕ} {log : ServerEventLog}
    (h : log.NumberedFrom base) (offset : Option ServerOffset) :
    log.after offset = log.entries.drop (cursorVal offset + 1 - base) :=
  filter_after_eq_drop (cursorVal offset) base log.entries h.offset

/-- **A page is the beginning of the stream after the cursor.** -/
theorem NumberedFrom.eventsAfter_eq_take {base : ℕ} {log : ServerEventLog}
    (h : log.NumberedFrom base) (offset : Option ServerOffset) (limit : ℕ) :
    (log.eventsAfter offset limit).events = (log.after offset).take limit := by
  have hle := h.pairwise_lt.imp fun hab => le_of_lt hab
  change (sortByKey streamKey (log.after offset)).take limit = _
  rw [h.after_eq_drop, sortByKey_eq_self (hle.sublist (List.drop_sublist _ _))]

theorem NumberedFrom.eventsAfter_events {base : ℕ} {log : ServerEventLog}
    (h : log.NumberedFrom base) (offset : Option ServerOffset) (limit : ℕ) :
    (log.eventsAfter offset limit).events
      = (log.entries.drop (cursorVal offset + 1 - base)).take limit := by
  rw [h.eventsAfter_eq_take, h.after_eq_drop]

/-- The offset of the last event of a segment, counted from where the segment starts. -/
theorem NumberedFrom.getLast?_segment {base : ℕ} {log : ServerEventLog}
    (h : log.NumberedFrom base) {c k : ℕ} (hne : (log.entries.drop c).take k ≠ []) :
    ((log.entries.drop c).take k).getLast?.bind EventDescriptor.serverOffset
      = some ⟨base + (c + (((log.entries.drop c).take k).length - 1))⟩ := by
  set page := (log.entries.drop c).take k with hpage
  have hpos : 0 < page.length := List.length_pos_iff.mpr hne
  have hlast : page.getLast? = log.entries[c + (page.length - 1)]? := by
    rw [List.getLast?_eq_getElem?, hpage, List.getElem?_take_of_lt, List.getElem?_drop]
    have hlen : page.length ≤ k := by rw [hpage]; exact List.length_take_le k _
    rw [← hpage]
    omega
  obtain ⟨d, hd⟩ : ∃ d, page.getLast? = some d :=
    ⟨page.getLast hne, List.getLast?_eq_some_getLast hne⟩
  rw [hd, Option.bind_some, h.offset _ d (hlast ▸ hd)]

/-- The stream after a cursor is a page and the stream after its cursor, also when the log has
grown since. -/
theorem NumberedFrom.after_eq_append {base : ℕ} {log log' : ServerEventLog}
    (h : log.NumberedFrom base) (h' : log'.NumberedFrom base)
    (hlog : log.entries <+: log'.entries) {offset : Option ServerOffset} {limit : ℕ}
    (hpage : (log.eventsAfter offset limit).events ≠ []) :
    log'.after offset = (log.eventsAfter offset limit).events
      ++ log'.after (log.eventsAfter offset limit).nextOffset := by
  obtain ⟨new, hnew⟩ := hlog
  have hevents := h.eventsAfter_events offset limit
  have hpos := List.length_pos_iff.mpr hpage
  have hnext : cursorVal (log.eventsAfter offset limit).nextOffset + 1 - base
      = cursorVal offset + 1 - base + (log.eventsAfter offset limit).events.length := by
    rw [eventsAfter_nextOffset]
    rw [hevents] at hpage hpos ⊢
    rw [h.getLast?_segment hpage]
    change base + _ + 1 - base = _
    omega
  have hfirst : (log.eventsAfter offset limit).events
      <+: log'.entries.drop (cursorVal offset + 1 - base) := by
    rw [hevents, ← hnew, List.drop_append]
    exact (List.take_prefix _ _).trans (List.prefix_append _ _)
  rw [h'.after_eq_drop, h'.after_eq_drop, hnext, ← List.drop_drop]
  conv_lhs => rw [← List.take_append_drop (log.eventsAfter offset limit).events.length
    (log'.entries.drop (cursorVal offset + 1 - base))]
  rw [← List.prefix_iff_eq_take.mp hfirst]

/-- A page takes its limit off the stream. -/
theorem NumberedFrom.after_nextOffset {base : ℕ} {log : ServerEventLog}
    (h : log.NumberedFrom base) {offset : Option ServerOffset} {limit : ℕ}
    (hpage : (log.eventsAfter offset limit).events ≠ []) :
    log.after (log.eventsAfter offset limit).nextOffset = (log.after offset).drop limit := by
  have happend := h.after_eq_append h List.prefix_rfl hpage
  rw [h.eventsAfter_eq_take] at happend
  have hsplit := (List.take_append_drop limit (log.after offset)).trans happend
  exact (List.append_cancel_left hsplit).symm

/-- The cursor of a page is beyond the one it was asked for with. -/
theorem cursorVal_lt_nextOffset {log : ServerEventLog} {offset : Option ServerOffset}
    {limit : ℕ} (hpage : (log.eventsAfter offset limit).events ≠ []) :
    cursorVal offset < cursorVal (log.eventsAfter offset limit).nextOffset := by
  have hlast := List.getLast?_eq_some_getLast hpage
  have hmem : (log.eventsAfter offset limit).events.getLast hpage ∈ log.after offset :=
    mem_sortByKey.mp (List.mem_of_mem_take (List.getLast_mem hpage))
  have hafter := (List.mem_filter.mp hmem).2
  rw [eventsAfter_nextOffset, hlast, Option.bind_some]
  cases ho : ((log.eventsAfter offset limit).events.getLast hpage).serverOffset with
  | none => simp [ho] at hafter
  | some o =>
    have hlt : cursorVal offset < o.val := by simpa [ho] using hafter
    exact hlt

/-- The last event after a cursor is the last of the log. -/
theorem NumberedFrom.lastOffset_eq {base : ℕ} {log : ServerEventLog} (h : log.NumberedFrom base)
    {offset : Option ServerOffset} (hne : log.after offset ≠ []) :
    log.lastOffset = (log.after offset).getLast?.bind EventDescriptor.serverOffset := by
  rw [h.after_eq_drop] at hne ⊢
  have hlt : ¬ log.entries.length ≤ cursorVal offset + 1 - base := fun hle =>
    hne (List.drop_eq_nil_of_le hle)
  rw [List.getLast?_drop, if_neg hlt, lastOffset]

theorem WellFormed.pairwise_lt {log : ServerEventLog} (h : log.WellFormed) :
    log.entries.Pairwise fun a b => streamKey a < streamKey b :=
  (wellFormed_iff.mp h).pairwise_lt

/-- An entry lies below a position as soon as its offset does. -/
theorem WellFormed.mem_take {log : ServerEventLog} (h : log.WellFormed) {d : ItemDescriptor}
    (hd : d ∈ log.entries) {o : ServerOffset} (ho : d.serverOffset = some o) {n : ℕ}
    (hn : o.val ≤ n) : d ∈ log.entries.take n := by
  obtain ⟨i, hi⟩ := List.mem_iff_getElem?.mp hd
  rw [h.offset i d hi] at ho
  obtain rfl := Option.some.inj ho
  exact List.mem_of_getElem? (i := i) (by rw [List.getElem?_take_of_lt (by exact hn), hi])

/-- **A page is the segment of the entries after the cursor.** -/
theorem WellFormed.eventsAfter_events {log : ServerEventLog} (h : log.WellFormed)
    (offset : Option ServerOffset) (limit : ℕ) :
    (log.eventsAfter offset limit).events
      = (log.entries.drop (cursorVal offset)).take limit :=
  (wellFormed_iff.mp h).eventsAfter_events offset limit

/-- The offset of the last event of a segment is the position where the segment ends. -/
theorem WellFormed.getLast?_segment {log : ServerEventLog} (h : log.WellFormed) {c k : ℕ}
    (hne : (log.entries.drop c).take k ≠ []) :
    ((log.entries.drop c).take k).getLast?.bind EventDescriptor.serverOffset
      = some ⟨c + ((log.entries.drop c).take k).length⟩ := by
  have hpos := List.length_pos_iff.mpr hne
  rw [(wellFormed_iff.mp h).getLast?_segment hne]
  congr 2
  omega

/-- The last offset of a well-formed log is its length. -/
theorem WellFormed.lastOffset_eq {log : ServerEventLog} (h : log.WellFormed) :
    log.lastOffset = if log.entries = [] then none else some ⟨log.entries.length⟩ := by
  split_ifs with hnil
  · rw [lastOffset, hnil]
    rfl
  · have hseg := h.getLast?_segment (c := 0) (k := log.entries.length) (by simpa using hnil)
    simpa [lastOffset] using hseg

/-- In a well-formed log the order of offsets is the order of the entries. -/
theorem WellFormed.precedes_of_lt {log : ServerEventLog} (h : log.WellFormed)
    {x y : ItemDescriptor} (hxy : Precedes log.ids x.replicaEventId y.replicaEventId)
    (hx : x ∈ log.entries) (hy : y ∈ log.entries) :
    ∃ ox oy : ServerOffset, x.serverOffset = some ox ∧ y.serverOffset = some oy ∧
      ox.val < oy.val := by
  obtain ⟨i, hi, rfl⟩ := List.mem_iff_getElem.mp hx
  obtain ⟨j, hj, rfl⟩ := List.mem_iff_getElem.mp hy
  refine ⟨⟨i + 1⟩, ⟨j + 1⟩, h.offset i _ (List.getElem?_eq_getElem hi),
    h.offset j _ (List.getElem?_eq_getElem hj), ?_⟩
  have hid : ∀ k (hk : k < log.entries.length), log.ids[k]? = some log.entries[k].replicaEventId :=
    fun k hk => by simp [ids, eventIds, List.getElem?_eq_getElem hk]
  rcases Nat.lt_trichotomy i j with hij | rfl | hij
  · exact Nat.succ_lt_succ hij
  · exact absurd hxy (hxy.asymm h.nodup)
  · exact absurd (precedes_of_getElem? hij (hid j hj) (hid i hi)) (hxy.asymm h.nodup)

end ServerEventLog

end OfflineSync
