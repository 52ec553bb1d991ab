import OfflineSync.ItemStorage
import OfflineSync.Lib.Dedup

/-!
# The device-side event log

`client-sdk/src/event_log.rs`. Three operations write it:

* `append` takes in events replicated from the server and preserves all their provenance;
* `appendLocal` takes in events this device just authored, numbers them within the batch and
  leaves them unsynced;
* `markSynced` stamps the server's acknowledgement on entries that are there already.

Both append paths skip ids the log holds, so the ids grow as a repetition-free list
(`ids_append`, `appendLocal_of_fresh`), and `markSynced` changes neither ids nor order nor
anything the author fixed (`map_unstamped_markSynced`).
-/

namespace OfflineSync

open Dedup

structure DeviceEventLog where
  entries : List ItemDescriptor := []
deriving DecidableEq, Repr

namespace DeviceEventLog

/-- `DeviceEventLog::new`. -/
def new : DeviceEventLog := {}

/-- `DeviceEventLog::find`. -/
def find (log : DeviceEventLog) (id : Uuid) : Option ItemDescriptor :=
  log.entries.find? fun d => d.replicaEventId = id

/-- `self.entries.push`. -/
def push (log : DeviceEventLog) (d : ItemDescriptor) : DeviceEventLog where
  entries := log.entries ++ [d]

/-- The descriptor `append` stores: all provenance preserved. -/
def replicated (ev : ItemAppend) : ItemDescriptor where
  replicaEventId := ev.replicaEventId
  replicaWriteOffset := ev.replicaWriteOffset.getD 0
  replicaTimeMs := ev.replicaTimeMs
  replicaId := ev.replicaId
  serverOffset := ev.serverOffset
  serverTimeMs := ev.serverTimeMs
  entityId := ev.entityId
  payload := ev.payload

/-- `DeviceEventLog::append`: the replicated append of the pull side; idempotent. -/
def append (log : DeviceEventLog) : List ItemAppend → DeviceEventLog
  | [] => log
  | ev :: events =>
    if (log.find ev.replicaEventId).isSome then log.append events
    else (log.push (replicated ev)).append events

/-- `DeviceEventLog::get_unsynced`: events authored by `replicaId` that the server has not
acknowledged yet, oldest first. -/
def getUnsynced (log : DeviceEventLog) (replicaId : String) (limit : ℕ) : List ItemDescriptor :=
  (log.entries.filter fun d => d.serverOffset.isNone && d.replicaId == replicaId).take limit

/-- The entry after the acknowledgement `ack`, if it is the entry acknowledged. -/
def acknowledge (d ack : ItemDescriptor) : ItemDescriptor :=
  if d.replicaEventId = ack.replicaEventId then
    { d with serverOffset := ack.serverOffset, serverTimeMs := ack.serverTimeMs }
  else d

/-- One pass of the loop of `mark_synced`: stamp the first entry with the id of `ack`. -/
def markOne (ack : ItemDescriptor) : List ItemDescriptor → List ItemDescriptor
  | [] => []
  | d :: entries =>
    if d.replicaEventId = ack.replicaEventId then acknowledge d ack :: entries
    else d :: markOne ack entries

/-- `DeviceEventLog::mark_synced`: record the server's acknowledgement. -/
def markSynced (log : DeviceEventLog) (acknowledged : List ItemDescriptor) : DeviceEventLog where
  entries := acknowledged.foldl (fun entries ack => markOne ack entries) log.entries

/-- The descriptor `append_local` stores: the write offset assigned, no server field. -/
def authored (ev : ItemAppend) (batchWriteOffset : ℕ) : ItemDescriptor where
  replicaEventId := ev.replicaEventId
  replicaWriteOffset := ev.replicaWriteOffset.getD batchWriteOffset
  replicaTimeMs := ev.replicaTimeMs
  replicaId := ev.replicaId
  serverOffset := none
  serverTimeMs := none
  entityId := ev.entityId
  payload := ev.payload

/-- The loop of `append_local`, with `batch_write_offset` as it enters. -/
def appendLocalFrom (batchWriteOffset : ℕ) (log : DeviceEventLog) :
    List ItemAppend → DeviceEventLog × List ItemDescriptor
  | [] => (log, [])
  | ev :: events =>
    match log.find ev.replicaEventId with
    | some existing =>
      let rest := appendLocalFrom batchWriteOffset log events
      (rest.1, existing :: rest.2)
    | none =>
      let descriptor := authored ev (batchWriteOffset + 1)
      let rest := appendLocalFrom (batchWriteOffset + 1) (log.push descriptor) events
      (rest.1, descriptor :: rest.2)

/-- `DeviceEventLog::append_local`: the write offset counts the events of this call, from 1. -/
def appendLocal (log : DeviceEventLog) (events : List ItemAppend) :
    DeviceEventLog × List ItemDescriptor :=
  appendLocalFrom 0 log events

/-- `DeviceEventLog::events_of_entity`. -/
def eventsOfEntity (log : DeviceEventLog) (entityId : ItemId) : List ItemDescriptor :=
  eventsOf log.entries entityId

instance : EntityEventLog DeviceEventLog where
  appendLocal log _ events := log.appendLocal events
  eventsOfEntity := eventsOfEntity

/-- The ids in the log, oldest first. -/
def ids (log : DeviceEventLog) : List Uuid :=
  eventIds log.entries

@[simp] theorem ids_new : new.ids = [] := rfl

@[simp] theorem ids_push (log : DeviceEventLog) (d : ItemDescriptor) :
    (log.push d).ids = log.ids ++ [d.replicaEventId] := by
  simp [ids, push]

theorem isSome_find {log : DeviceEventLog} {id : Uuid} :
    (log.find id).isSome = true ↔ id ∈ log.ids := by
  simp [find, ids, eventIds]

/-! ### Replicated append -/

/-- The ids after a replicated append. -/
theorem ids_append (log : DeviceEventLog) (events : List ItemAppend) :
    (log.append events).ids = addAll log.ids (events.map AppendEvent.replicaEventId) := by
  induction events generalizing log with
  | nil => rfl
  | cons ev events ih =>
    rw [append, List.map_cons, addAll_cons, addNew]
    by_cases h : ev.replicaEventId ∈ log.ids
    · rw [if_pos (isSome_find.mpr h), if_pos h, ih]
    · rw [if_neg (fun hs => h (isSome_find.mp hs)), if_neg h, ih, ids_push]
      rfl

/-- A batch that is there already leaves the log as it is. -/
theorem append_of_subset {log : DeviceEventLog} {events : List ItemAppend}
    (h : ∀ ev ∈ events, ev.replicaEventId ∈ log.ids) : log.append events = log := by
  induction events with
  | nil => rfl
  | cons ev events ih =>
    rw [append, if_pos (isSome_find.mpr (h ev List.mem_cons_self))]
    exact ih fun ev' hev' => h ev' (List.mem_cons_of_mem _ hev')

/-- A replicated append only adds entries at the end, each a descriptor of the batch. -/
theorem exists_entries_append (log : DeviceEventLog) (events : List ItemAppend) :
    ∃ new, (log.append events).entries = log.entries ++ new ∧
      ∀ d ∈ new, ∃ ev ∈ events, d = replicated ev := by
  induction events generalizing log with
  | nil => exact ⟨[], (List.append_nil _).symm, fun d hd => absurd hd List.not_mem_nil⟩
  | cons ev events ih =>
    rw [append]
    split_ifs
    · obtain ⟨new, heq, hnew⟩ := ih log
      refine ⟨new, heq, fun d hd => ?_⟩
      obtain ⟨ev', hev', rfl⟩ := hnew d hd
      exact ⟨ev', List.mem_cons_of_mem _ hev', rfl⟩
    · obtain ⟨new, heq, hnew⟩ := ih (log.push (replicated ev))
      refine ⟨replicated ev :: new, ?_, fun d hd => ?_⟩
      · rw [heq, push, List.append_assoc, List.singleton_append]
      · rcases List.mem_cons.mp hd with rfl | hd
        · exact ⟨ev, List.mem_cons_self, rfl⟩
        · obtain ⟨ev', hev', rfl⟩ := hnew d hd
          exact ⟨ev', List.mem_cons_of_mem _ hev', rfl⟩

/-- A stored event comes back from its appendable form as it was. -/
@[simp] theorem replicated_ofDescriptor (d : ItemDescriptor) :
    replicated (AppendEvent.ofDescriptor d) = d := rfl

/-! ### Acknowledgement -/

@[simp] theorem acknowledge_replicaEventId (d ack : ItemDescriptor) :
    (acknowledge d ack).replicaEventId = d.replicaEventId := by
  unfold acknowledge
  split_ifs <;> rfl

@[simp] theorem acknowledge_unstamped (d ack : ItemDescriptor) :
    (acknowledge d ack).unstamped = d.unstamped := by
  unfold acknowledge
  split_ifs <;> rfl

private theorem acknowledge_of_ne {d ack : ItemDescriptor}
    (h : d.replicaEventId ≠ ack.replicaEventId) : acknowledge d ack = d :=
  if_neg h

/-- Where ids are distinct, stamping the first entry with an id stamps every entry with it. -/
private theorem markOne_eq_map {entries : List ItemDescriptor} (h : (eventIds entries).Nodup)
    (ack : ItemDescriptor) : markOne ack entries = entries.map fun d => acknowledge d ack := by
  induction entries with
  | nil => rfl
  | cons d entries ih =>
    obtain ⟨hd, hnd⟩ := List.nodup_cons.mp h
    rw [markOne, List.map_cons]
    split_ifs with heq
    · congr 1
      refine (List.map_id' _).symm.trans (List.map_congr_left fun d' hd' => ?_)
      refine (acknowledge_of_ne fun heq' => hd ?_).symm
      rw [heq, ← heq']
      exact mem_eventIds_of_mem hd'
    · rw [ih hnd, acknowledge_of_ne heq]

/-- Where ids are distinct, every entry takes the acknowledgements meant for it. -/
theorem entries_markSynced {log : DeviceEventLog} (h : log.ids.Nodup)
    (acks : List ItemDescriptor) :
    (log.markSynced acks).entries = log.entries.map fun d => acks.foldl acknowledge d := by
  unfold markSynced
  dsimp only
  generalize log.entries = entries, (show (eventIds log.entries).Nodup from h) = h
  induction acks generalizing entries with
  | nil => simp
  | cons ack acks ih =>
    have hids : eventIds (entries.map fun d => acknowledge d ack) = eventIds entries := by
      simp [eventIds, Function.comp_def]
    rw [List.foldl_cons, markOne_eq_map h, ih _ (by rw [hids]; exact h), List.map_map]
    rfl

theorem foldl_acknowledge_unstamped (acks : List ItemDescriptor) (d : ItemDescriptor) :
    (acks.foldl acknowledge d).unstamped = d.unstamped := by
  induction acks generalizing d with
  | nil => rfl
  | cons ack acks ih => rw [List.foldl_cons, ih, acknowledge_unstamped]

/-- An entry is unchanged, or carries the stamps of an acknowledgement with its id. -/
theorem foldl_acknowledge_cases (acks : List ItemDescriptor) (d : ItemDescriptor) :
    (acks.foldl acknowledge d = d ∧ d.replicaEventId ∉ eventIds acks) ∨
      ∃ ack ∈ acks, ack.replicaEventId = d.replicaEventId ∧
        acks.foldl acknowledge d =
          { d with serverOffset := ack.serverOffset, serverTimeMs := ack.serverTimeMs } := by
  induction acks generalizing d with
  | nil => exact .inl ⟨rfl, List.not_mem_nil⟩
  | cons a acks ih =>
    rw [List.foldl_cons]
    rcases ih (acknowledge d a) with ⟨heq, hni⟩ | ⟨ack, hack, hid, heq⟩
    · rw [acknowledge_replicaEventId] at hni
      by_cases hda : d.replicaEventId = a.replicaEventId
      · refine .inr ⟨a, List.mem_cons_self, hda.symm, heq.trans (if_pos hda)⟩
      · refine .inl ⟨heq.trans (acknowledge_of_ne hda), fun hmem => ?_⟩
        exact (List.mem_cons.mp hmem).elim hda hni
    · rw [acknowledge_replicaEventId] at hid
      refine .inr ⟨ack, List.mem_cons_of_mem _ hack, hid, heq.trans ?_⟩
      unfold acknowledge
      split_ifs <;> rfl

/-- Acknowledging changes nothing the authors fixed, and no position. -/
theorem map_unstamped_markSynced {log : DeviceEventLog} (h : log.ids.Nodup)
    (acks : List ItemDescriptor) :
    (log.markSynced acks).entries.map EventDescriptor.unstamped
      = log.entries.map EventDescriptor.unstamped := by
  rw [entries_markSynced h, List.map_map]
  exact List.map_congr_left fun d _ => foldl_acknowledge_unstamped acks d

/-! ### Local append -/

/-- A local append of fresh ids adds one entry for each event, numbered in order. -/
private theorem appendLocalFrom_of_fresh {events : List ItemAppend} (k : ℕ) (log : DeviceEventLog)
    (hnd : (events.map AppendEvent.replicaEventId).Nodup)
    (hfresh : ∀ ev ∈ events, ev.replicaEventId ∉ log.ids) :
    appendLocalFrom k log events =
      (⟨log.entries ++ (events.zipIdx (k + 1)).map fun p => authored p.1 p.2⟩,
        (events.zipIdx (k + 1)).map fun p => authored p.1 p.2) := by
  induction events generalizing k log with
  | nil => simp [appendLocalFrom]
  | cons ev events ih =>
    obtain ⟨hev, hnd⟩ := List.nodup_cons.mp hnd
    have hnone : log.find ev.replicaEventId = none := by
      rw [← Option.not_isSome_iff_eq_none, isSome_find]
      exact hfresh ev List.mem_cons_self
    have hfresh' : ∀ ev' ∈ events,
        ev'.replicaEventId ∉ (log.push (authored ev (k + 1))).ids := by
      intro ev' hev' hmem
      rw [ids_push, List.mem_append, List.mem_singleton] at hmem
      rcases hmem with hmem | hmem
      · exact hfresh ev' (List.mem_cons_of_mem _ hev') hmem
      · exact hev (List.mem_map.mpr ⟨ev', hev', hmem⟩)
    have hrest := ih (k + 1) (log.push (authored ev (k + 1))) hnd hfresh'
    rw [appendLocalFrom, hnone, List.zipIdx_cons, List.map_cons]
    simp only [hrest]
    rw [push, List.append_assoc, List.singleton_append]

/-- The entries `append_local` adds for events with fresh ids. -/
def authoredBatch (events : List ItemAppend) : List ItemDescriptor :=
  (events.zipIdx 1).map fun p => authored p.1 p.2

theorem appendLocal_of_fresh {log : DeviceEventLog} {events : List ItemAppend}
    (hnd : (events.map AppendEvent.replicaEventId).Nodup)
    (hfresh : ∀ ev ∈ events, ev.replicaEventId ∉ log.ids) :
    log.appendLocal events =
      (⟨log.entries ++ authoredBatch events⟩, authoredBatch events) :=
  appendLocalFrom_of_fresh 0 log hnd hfresh

@[simp] theorem eventIds_authoredBatch (events : List ItemAppend) :
    eventIds (authoredBatch events) = events.map AppendEvent.replicaEventId := by
  rw [eventIds, authoredBatch, List.map_map]
  conv_rhs => rw [← List.zipIdx_map_fst 1 events, List.map_map]
  rfl

/-- The write offset of an authored entry is its position in the batch, counted from 1. -/
theorem getElem?_authoredBatch (events : List ItemAppend) (i : ℕ) :
    (authoredBatch events)[i]? = events[i]?.map fun ev => authored ev (i + 1) := by
  rw [authoredBatch, List.getElem?_map, List.getElem?_zipIdx, Option.map_map, Nat.add_comm]
  rfl

/-- An authored entry is unsynced and comes from an event of the batch. -/
theorem mem_authoredBatch {events : List ItemAppend} {d : ItemDescriptor}
    (h : d ∈ authoredBatch events) : ∃ ev ∈ events, ∃ k, d = authored ev k := by
  obtain ⟨⟨ev, k⟩, hp, rfl⟩ := List.mem_map.mp h
  exact ⟨ev, List.fst_mem_of_mem_zipIdx hp, k, rfl⟩

/-! ### The logs there are -/

/-- The ids after a local append, of fresh events or not. -/
theorem ids_appendLocalFrom (k : ℕ) (log : DeviceEventLog) (events : List ItemAppend) :
    (appendLocalFrom k log events).1.ids
      = addAll log.ids (events.map AppendEvent.replicaEventId) := by
  induction events generalizing k log with
  | nil => rfl
  | cons ev events ih =>
    rw [appendLocalFrom, List.map_cons, addAll_cons, addNew]
    cases hfind : log.find ev.replicaEventId with
    | some existing =>
      rw [if_pos (isSome_find.mp (by rw [hfind]; rfl))]
      exact ih k log
    | none =>
      have hmem : ev.replicaEventId ∉ log.ids := by
        intro hmem
        simpa [hfind] using isSome_find.mpr hmem
      rw [if_neg hmem]
      exact (ih (k + 1) _).trans (congrArg (addAll · _) (ids_push log _))

/-- The logs that the operations make. -/
inductive Reachable : DeviceEventLog → Prop
  | new : Reachable .new
  | append {log : DeviceEventLog} (h : Reachable log) (events : List ItemAppend) :
      Reachable (log.append events)
  | markSynced {log : DeviceEventLog} (h : Reachable log) (acknowledged : List ItemDescriptor) :
      Reachable (log.markSynced acknowledged)
  | appendLocal {log : DeviceEventLog} (h : Reachable log) (events : List ItemAppend) :
      Reachable (log.appendLocal events).1

/-- Acknowledging changes no id. -/
theorem ids_markSynced {log : DeviceEventLog} (h : log.ids.Nodup) (acks : List ItemDescriptor) :
    (log.markSynced acks).ids = log.ids := by
  rw [ids, ← eventIds_map_unstamped, map_unstamped_markSynced h, eventIds_map_unstamped, ids]

/-- No log holds an id twice. -/
theorem Reachable.nodup {log : DeviceEventLog} (h : log.Reachable) : log.ids.Nodup := by
  induction h with
  | new => exact List.nodup_nil
  | append _ events ih => exact ids_append _ events ▸ nodup_addAll ih _
  | markSynced _ acks ih => exact (ids_markSynced ih acks).symm ▸ ih
  | appendLocal _ events ih => exact ids_appendLocalFrom 0 _ events ▸ nodup_addAll ih _

/-! ### What is unsynced -/

/-- Everything `get_unsynced` has to offer. -/
def unsynced (log : DeviceEventLog) (replicaId : String) : List ItemDescriptor :=
  log.entries.filter fun d => d.serverOffset.isNone && d.replicaId == replicaId

/-- What stays unsynced when the server acknowledges: the entries that it does not name. -/
private theorem unsynced_markSynced_eq_filter {log : DeviceEventLog} (h : log.ids.Nodup)
    (replicaId : String) {acks : List ItemDescriptor}
    (hoffset : ∀ ack ∈ acks, ack.serverOffset ≠ none) :
    (log.markSynced acks).unsynced replicaId
      = (log.unsynced replicaId).filter fun d => d.replicaEventId ∉ eventIds acks := by
  have hkeep : ∀ d ∈ log.entries, ((acks.foldl acknowledge d).serverOffset.isNone
      && (acks.foldl acknowledge d).replicaId == replicaId)
        = (decide (d.replicaEventId ∉ eventIds acks)
          && (d.serverOffset.isNone && d.replicaId == replicaId)) := by
    intro d _
    rcases foldl_acknowledge_cases acks d with ⟨heq, hni⟩ | ⟨ack, hack, hid, heq⟩
    · rw [heq, decide_eq_true hni, Bool.true_and]
    · have hsome : ack.serverOffset.isNone = false := by
        rw [Option.isNone_eq_false_iff, ← Option.ne_none_iff_isSome]
        exact hoffset ack hack
      have hmem : d.replicaEventId ∈ eventIds acks := hid ▸ mem_eventIds_of_mem hack
      rw [heq, decide_eq_false (fun hni => hni hmem), Bool.false_and]
      simp [hsome]
  rw [unsynced, unsynced, entries_markSynced h, List.filter_map, List.filter_filter]
  simp only [Function.comp_def]
  rw [List.filter_congr hkeep]
  -- an entry that is kept is not acknowledged, so it is as it was
  refine (List.map_congr_left fun d hd => ?_).trans (List.map_id' _)
  have hni : d.replicaEventId ∉ eventIds acks := by
    simpa using (Bool.and_eq_true_iff.mp (List.mem_filter.mp hd).2).1
  rcases foldl_acknowledge_cases acks d with ⟨heq, -⟩ | ⟨ack, hack, hid, -⟩
  · exact heq
  · exact absurd (hid ▸ mem_eventIds_of_mem hack) hni

/-- Acknowledging the first of the unsynced events leaves the others. -/
theorem unsynced_markSynced {log : DeviceEventLog} (h : log.ids.Nodup) {replicaId : String}
    {n : ℕ} {acks : List ItemDescriptor}
    (hids : eventIds acks = eventIds ((log.unsynced replicaId).take n))
    (hoffset : ∀ ack ∈ acks, ack.serverOffset ≠ none) :
    (log.markSynced acks).unsynced replicaId = (log.unsynced replicaId).drop n := by
  have hnd : (eventIds (log.unsynced replicaId)).Nodup := h.sublist (List.filter_sublist.map _)
  rw [unsynced_markSynced_eq_filter h replicaId hoffset, hids]
  generalize log.unsynced replicaId = own at hnd
  have hsplit : own = own.take n ++ own.drop n := (List.take_append_drop n own).symm
  rw [hsplit, eventIds_append, List.nodup_append] at hnd
  have hfirst : (own.take n).filter (fun d => d.replicaEventId ∉ eventIds (own.take n)) = [] :=
    List.filter_eq_nil_iff.mpr fun d hd => by simpa using mem_eventIds_of_mem hd
  have hrest : (own.drop n).filter (fun d => d.replicaEventId ∉ eventIds (own.take n))
      = own.drop n := by
    refine List.filter_eq_self.mpr fun d hd => decide_eq_true fun hmem => ?_
    exact hnd.2.2 _ hmem _ (mem_eventIds_of_mem hd) rfl
  calc own.filter (fun d => d.replicaEventId ∉ eventIds (own.take n))
      = (own.take n ++ own.drop n).filter
          (fun d => d.replicaEventId ∉ eventIds (own.take n)) := by rw [← hsplit]
    _ = own.drop n := by rw [List.filter_append, hfirst, hrest, List.nil_append]

/-- What comes with an offset is not unsynced. -/
theorem unsynced_append {events : List ItemAppend} (h : ∀ ev ∈ events, ev.serverOffset ≠ none)
    (log : DeviceEventLog) (replicaId : String) :
    (log.append events).unsynced replicaId = log.unsynced replicaId := by
  obtain ⟨new, heq, hnew⟩ := log.exists_entries_append events
  have hnil : new.filter (fun d => d.serverOffset.isNone && d.replicaId == replicaId) = [] := by
    refine List.filter_eq_nil_iff.mpr fun d hd hp => ?_
    obtain ⟨ev, hev, rfl⟩ := hnew d hd
    exact h ev hev (Option.isNone_iff_eq_none.mp (Bool.and_eq_true_iff.mp hp).1)
  rw [unsynced, heq, List.filter_append, hnil, List.append_nil, unsynced]

/-- A batch may be cut in two at any place. -/
theorem append_append (log : DeviceEventLog) (xs ys : List ItemAppend) :
    log.append (xs ++ ys) = (log.append xs).append ys := by
  induction xs generalizing log with
  | nil => rfl
  | cons ev xs ih =>
    rw [List.cons_append, append, append]
    split_ifs
    · exact ih log
    · exact ih _

end DeviceEventLog

end OfflineSync
