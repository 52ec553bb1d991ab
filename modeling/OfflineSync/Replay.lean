import OfflineSync.DeviceEventLog
import OfflineSync.ServerEventLog

/-!
# Replaying a delivery

A replica is a log with an item storage over it. This module says what its table depends on: not
the order in which events arrived, not how they were cut into batches, not how often one came,
and not which of the two logs took them in, but the set of the events alone (`replicas_agree`).

`ReplicatedLog` is what the argument needs of a log, and the two logs are its instances: the ids
grow as a repetition-free list, an entry is what the author made of an event plus the server's
stamps, and an acknowledgement changes nothing but stamps. A row that is up to date stays so until
a new event of its item arrives (`Replica.UpToDate.step`), so every row is the fold of its events
once each item has been rebuilt after its last event; and the fold of a set of events does not
depend on how a log lists them (`rowAt_eq_of_mem_iff`).
-/

namespace OfflineSync

open Dedup

namespace AppendEvent

/-- An event to append without the server's stamps. -/
def unstamped (ev : ItemAppend) : ItemAppend :=
  { ev with serverOffset := none, serverTimeMs := none }

/-- What a log stores of a replicated event, but for the stamps. Both logs take an event without a
write offset as one with offset 0. -/
def stored (ev : ItemAppend) : ItemDescriptor where
  replicaEventId := ev.replicaEventId
  replicaWriteOffset := ev.replicaWriteOffset.getD 0
  replicaTimeMs := ev.replicaTimeMs
  replicaId := ev.replicaId
  serverOffset := none
  serverTimeMs := none
  entityId := ev.entityId
  payload := ev.payload

private theorem stored_eq_of_unstamped_eq {ev ev' : ItemAppend} (h : unstamped ev = unstamped ev') :
    stored ev = stored ev' := by
  change stored (unstamped ev) = stored (unstamped ev')
  rw [h]

end AppendEvent

/-- An event log that takes in replicated events. -/
class ReplicatedLog (L : Type) extends EntityEventLog L where
  /-- What the log may be acknowledged with. -/
  Ack : Type
  entries : L → List ItemDescriptor
  append : L → (ℕ → ℤ) → List ItemAppend → L
  markSynced : L → Ack → L
  eventsOfEntity_eq (log : L) (id : ItemId) : eventsOfEntity log id = eventsOf (entries log) id
  ids_append (log : L) (now : ℕ → ℤ) (events : List ItemAppend) :
    eventIds (entries (append log now events))
      = addAll (eventIds (entries log)) (events.map AppendEvent.replicaEventId)
  exists_entries_append (log : L) (now : ℕ → ℤ) (events : List ItemAppend) :
    ∃ new, entries (append log now events) = entries log ++ new ∧
      ∀ d ∈ new, ∃ ev ∈ events, d.unstamped = AppendEvent.stored ev
  map_unstamped_markSynced (log : L) (ack : Ack) (h : (eventIds (entries log)).Nodup) :
    (entries (markSynced log ack)).map EventDescriptor.unstamped
      = (entries log).map EventDescriptor.unstamped

instance : ReplicatedLog DeviceEventLog where
  Ack := List ItemDescriptor
  entries := DeviceEventLog.entries
  append log _ events := log.append events
  markSynced := DeviceEventLog.markSynced
  eventsOfEntity_eq _ _ := rfl
  ids_append log _ events := log.ids_append events
  exists_entries_append log _ events := by
    obtain ⟨new, heq, hnew⟩ := log.exists_entries_append events
    refine ⟨new, heq, fun d hd => ?_⟩
    obtain ⟨ev, hev, rfl⟩ := hnew d hd
    exact ⟨ev, hev, rfl⟩
  map_unstamped_markSynced _ ack h := DeviceEventLog.map_unstamped_markSynced h ack

/-- A server log is never acknowledged. -/
instance : ReplicatedLog ServerEventLog where
  Ack := Empty
  entries := ServerEventLog.entries
  append log now events := (log.append now events).1
  markSynced _ ack := nomatch ack
  eventsOfEntity_eq _ _ := rfl
  ids_append log now events := log.ids_append now events
  exists_entries_append log now events := by
    obtain ⟨new, heq, hnew⟩ := log.exists_entries_append now events
    refine ⟨new, heq, fun d hd => ?_⟩
    obtain ⟨ev, hev, _, _, rfl⟩ := hnew d hd
    exact ⟨ev, hev, rfl⟩
  map_unstamped_markSynced _ ack _ := nomatch ack

/-- A log and the item storage over it. -/
structure Replica (L : Type) where
  log : L
  storage : ItemStorage

/-- A step of a delivery history. The clock is the one a server log reads. -/
inductive DeliveryStep (Ack : Type)
  | append (now : ℕ → ℤ) (events : List ItemAppend)
  | markSynced (acknowledged : Ack)
  | buildProjection (id : ItemId)

/-- The events a step delivers. -/
def DeliveryStep.events {Ack : Type} : DeliveryStep Ack → List ItemAppend
  | .append _ events => events
  | _ => []

@[simp] theorem DeliveryStep.events_markSynced {Ack : Type} (ack : Ack) :
    (DeliveryStep.markSynced ack).events = [] := rfl

@[simp] theorem DeliveryStep.events_buildProjection {Ack : Type} (id : ItemId) :
    (.buildProjection id : DeliveryStep Ack).events = [] := rfl

/-- The events a history delivers, with their repetitions. -/
def delivered {Ack : Type} (history : List (DeliveryStep Ack)) : List ItemAppend :=
  history.flatMap DeliveryStep.events

/-- Each delivered item is rebuilt when its last event is there: what comes later of it are
repetitions. -/
def AllRebuilt {Ack : Type} (history : List (DeliveryStep Ack)) : Prop :=
  ∀ ev ∈ delivered history, ∃ before after,
    history = before ++ .buildProjection ev.entityId :: after ∧
      ∀ ev' ∈ delivered after, ev'.entityId = ev.entityId →
        ev'.replicaEventId ∈ (delivered before).map AppendEvent.replicaEventId

namespace Replica

variable {L : Type} [ReplicatedLog L]

/-- One step of a history. -/
def step (replica : Replica L) : DeliveryStep (ReplicatedLog.Ack L) → Replica L
  | .append now events => { replica with log := ReplicatedLog.append replica.log now events }
  | .markSynced ack => { replica with log := ReplicatedLog.markSynced replica.log ack }
  | .buildProjection id =>
    { replica with storage := replica.storage.buildProjection replica.log id }

/-- A whole history. -/
def replay (replica : Replica L) (history : List (DeliveryStep (ReplicatedLog.Ack L))) :
    Replica L :=
  history.foldl step replica

/-- The entries of the replica's log. -/
def entries (replica : Replica L) : List ItemDescriptor :=
  ReplicatedLog.entries replica.log

variable {replica : Replica L} {events : List ItemAppend} {id : ItemId}
  {s : DeliveryStep (ReplicatedLog.Ack L)}

/-- What a log holds of the events delivered to it: each of them once, as its author made it. -/
structure Holds (replica : Replica L) (events : List ItemAppend) : Prop where
  nodup : (eventIds replica.entries).Nodup
  mem_ids : ∀ i, i ∈ eventIds replica.entries ↔ i ∈ events.map AppendEvent.replicaEventId
  origin : ∀ d ∈ replica.entries, ∃ ev ∈ events, d.unstamped = AppendEvent.stored ev

private theorem Holds.step (h : replica.Holds events) (s : DeliveryStep (ReplicatedLog.Ack L)) :
    (replica.step s).Holds (events ++ s.events) := by
  cases s with
  | append now batch =>
    have hids : eventIds (replica.step (.append now batch)).entries
        = addAll (eventIds replica.entries) (batch.map AppendEvent.replicaEventId) :=
      ReplicatedLog.ids_append replica.log now batch
    refine ⟨hids ▸ nodup_addAll h.nodup _, fun i => ?_, fun d hd => ?_⟩
    · rw [hids, mem_addAll, h.mem_ids, List.map_append, List.mem_append]
      rfl
    · obtain ⟨new, heq, hnew⟩ := ReplicatedLog.exists_entries_append replica.log now batch
      have hd : d ∈ replica.entries ++ new := heq ▸ hd
      rcases List.mem_append.mp hd with hd | hd
      · obtain ⟨ev, hev, hstored⟩ := h.origin d hd
        exact ⟨ev, List.mem_append_left _ hev, hstored⟩
      · obtain ⟨ev, hev, hstored⟩ := hnew d hd
        exact ⟨ev, List.mem_append_right _ hev, hstored⟩
  | markSynced ack =>
    have hmap : (replica.step (.markSynced ack)).entries.map EventDescriptor.unstamped
        = replica.entries.map EventDescriptor.unstamped :=
      ReplicatedLog.map_unstamped_markSynced replica.log ack h.nodup
    have hids : eventIds (replica.step (.markSynced ack)).entries = eventIds replica.entries := by
      rw [← eventIds_map_unstamped, hmap, eventIds_map_unstamped]
    rw [DeliveryStep.events_markSynced, List.append_nil]
    refine ⟨hids ▸ h.nodup, fun i => hids ▸ h.mem_ids i, fun d hd => ?_⟩
    have hd' := hmap ▸ List.mem_map_of_mem (f := EventDescriptor.unstamped) hd
    obtain ⟨d', hd', heq⟩ := List.mem_map.mp hd'
    exact heq ▸ h.origin d' hd'
  | buildProjection id =>
    rw [DeliveryStep.events_buildProjection, List.append_nil]
    exact ⟨h.nodup, h.mem_ids, h.origin⟩

/-- The row of `id` is the fold of its events. -/
def UpToDate (replica : Replica L) (id : ItemId) : Prop :=
  replica.storage.findById id = rowAt replica.entries id

/-- A rebuild brings its row up to date. -/
private theorem upToDate_buildProjection (replica : Replica L) (id : ItemId) :
    (replica.step (.buildProjection id)).UpToDate id :=
  (ItemTable.lookup_setRow_self _ _ _).trans
    (congrArg rowOf (ReplicatedLog.eventsOfEntity_eq replica.log id))

/-- A row stays up to date as long as no new event of its item arrives. -/
theorem UpToDate.step (h : replica.UpToDate id) (hnd : (eventIds replica.entries).Nodup)
    (hold : ∀ ev ∈ s.events, ev.entityId = id → ev.replicaEventId ∈ eventIds replica.entries) :
    (replica.step s).UpToDate id := by
  cases s with
  | append now batch =>
    obtain ⟨new, heq, hnew⟩ := ReplicatedLog.exists_entries_append replica.log now batch
    have heq : (replica.step (.append now batch)).entries = replica.entries ++ new := heq
    have hids := ReplicatedLog.ids_append replica.log now batch
    have hnd' : (eventIds (replica.entries ++ new)).Nodup := by
      rw [← heq]
      exact hids ▸ nodup_addAll hnd _
    rw [eventIds_append, List.nodup_append] at hnd'
    have hne : ∀ d ∈ new, d.entityId ≠ id := by
      intro d hd hid
      obtain ⟨ev, hev, hstored⟩ := hnew d hd
      have hevid : ev.entityId = id :=
        (congrArg EventDescriptor.entityId hstored).symm.trans hid
      have hmem := hold ev hev hevid
      have hid' : d.replicaEventId = ev.replicaEventId :=
        congrArg EventDescriptor.replicaEventId hstored
      exact hnd'.2.2 _ hmem _ (mem_eventIds_of_mem hd) hid'.symm
    rw [UpToDate, heq, rowAt_append_of_ne hne]
    exact h
  | markSynced ack =>
    have hmap : (replica.step (.markSynced ack)).entries.map EventDescriptor.unstamped
        = replica.entries.map EventDescriptor.unstamped :=
      ReplicatedLog.map_unstamped_markSynced replica.log ack hnd
    rw [UpToDate, ← rowAt_map_unstamped, hmap, rowAt_map_unstamped]
    exact h
  | buildProjection id' =>
    by_cases hid : id = id'
    · exact hid ▸ replica.upToDate_buildProjection id
    · exact (ItemTable.lookup_setRow_of_ne _ _ hid).trans h

/-! ### Whole histories -/

private theorem Holds.replay (h : replica.Holds events)
    (history : List (DeliveryStep (ReplicatedLog.Ack L))) :
    (replica.replay history).Holds (events ++ delivered history) := by
  induction history generalizing replica events with
  | nil => exact (List.append_nil events).symm ▸ h
  | cons s history ih =>
    have hrest := ih (h.step s)
    rwa [List.append_assoc] at hrest

private theorem UpToDate.replay (h : replica.UpToDate id) (hholds : replica.Holds events)
    {history : List (DeliveryStep (ReplicatedLog.Ack L))}
    (hold : ∀ ev ∈ delivered history, ev.entityId = id →
      ev.replicaEventId ∈ events.map AppendEvent.replicaEventId) :
    (replica.replay history).UpToDate id := by
  induction history generalizing replica events with
  | nil => exact h
  | cons s history ih =>
    have hstep : (replica.step s).UpToDate id := by
      refine h.step hholds.nodup fun ev hev hid => ?_
      exact (hholds.mem_ids _).mpr (hold ev (List.mem_append_left _ hev) hid)
    refine ih hstep (hholds.step s) fun ev hev hid => ?_
    rw [List.map_append]
    exact List.mem_append_left _ (hold ev (List.mem_append_right _ hev) hid)

/-- An empty replica. -/
structure Blank (replica : Replica L) : Prop where
  entries : replica.entries = []
  items : replica.storage.items = ∅

private theorem Blank.holds (h : replica.Blank) : replica.Holds [] := by
  refine ⟨?_, fun i => ?_, fun d hd => ?_⟩
  · rw [h.entries]
    exact List.nodup_nil
  · rw [h.entries]
    rfl
  · rw [h.entries] at hd
    exact absurd hd List.not_mem_nil

private theorem Blank.upToDate (h : replica.Blank) (id : ItemId) : replica.UpToDate id := by
  rw [UpToDate, ItemStorage.findById, h.items, h.entries]
  rfl

/-- **Every row is the fold of its events** once each item has been rebuilt. -/
theorem Blank.upToDate_replay (h : replica.Blank)
    {history : List (DeliveryStep (ReplicatedLog.Ack L))} (hrebuilt : AllRebuilt history)
    (id : ItemId) : (replica.replay history).UpToDate id := by
  by_cases hid : ∃ ev ∈ delivered history, ev.entityId = id
  · obtain ⟨ev, hev, rfl⟩ := hid
    obtain ⟨before, after, rfl, hafter⟩ := hrebuilt ev hev
    have hbefore := (h.holds.replay before).step (.buildProjection ev.entityId)
    rw [List.nil_append, DeliveryStep.events_buildProjection, List.append_nil] at hbefore
    rw [replay, List.foldl_append, List.foldl_cons]
    exact ((replica.replay before).upToDate_buildProjection ev.entityId).replay hbefore hafter
  · refine (h.upToDate id).replay h.holds fun ev hev heq => ?_
    exact absurd ⟨ev, hev, heq⟩ hid

/-- Where one id means one event, a log holds exactly the events delivered to it. -/
private theorem Holds.mem_map_unstamped_iff (h : replica.Holds events)
    (hone : ∀ ev ∈ events, ∀ ev' ∈ events, ev.replicaEventId = ev'.replicaEventId →
      AppendEvent.unstamped ev = AppendEvent.unstamped ev') {d : ItemDescriptor} :
    d ∈ replica.entries.map EventDescriptor.unstamped ↔
      ∃ ev ∈ events, d = AppendEvent.stored ev := by
  constructor
  · intro hd
    obtain ⟨d', hd', rfl⟩ := List.mem_map.mp hd
    exact h.origin d' hd'
  · rintro ⟨ev, hev, rfl⟩
    obtain ⟨d, hd, hid⟩ := List.mem_map.mp ((h.mem_ids _).mpr (List.mem_map_of_mem hev))
    obtain ⟨ev', hev', hstored⟩ := h.origin d hd
    have hid' : ev'.replicaEventId = ev.replicaEventId :=
      (congrArg EventDescriptor.replicaEventId hstored).symm.trans hid
    rw [AppendEvent.stored_eq_of_unstamped_eq (hone ev hev ev' hev' hid'.symm), ← hstored]
    exact List.mem_map_of_mem hd

end Replica

/-- Two histories deliver the same set of events, and rebuild what they deliver. -/
structure SameDelivery {Ack Ack' : Type} (h : List (DeliveryStep Ack))
    (h' : List (DeliveryStep Ack')) : Prop where
  ids : ∀ i, i ∈ (delivered h).map AppendEvent.replicaEventId ↔
    i ∈ (delivered h').map AppendEvent.replicaEventId
  /-- One id means one event, up to the server's stamps. -/
  one : ∀ ev ∈ delivered h ++ delivered h', ∀ ev' ∈ delivered h ++ delivered h',
    ev.replicaEventId = ev'.replicaEventId → AppendEvent.unstamped ev = AppendEvent.unstamped ev'
  rebuilt : AllRebuilt h
  rebuilt' : AllRebuilt h'

/-- **The table is a function of the set of events**, whatever logs they went into. -/
theorem SameDelivery.findById_eq {L L' : Type} [ReplicatedLog L] [ReplicatedLog L']
    {replica : Replica L} {replica' : Replica L'}
    {h : List (DeliveryStep (ReplicatedLog.Ack L))}
    {h' : List (DeliveryStep (ReplicatedLog.Ack L'))} (hsame : SameDelivery h h')
    (hblank : replica.Blank) (hblank' : replica'.Blank) (id : ItemId) :
    (replica.replay h).storage.findById id = (replica'.replay h').storage.findById id := by
  have hholds := hblank.holds.replay h
  have hholds' := hblank'.holds.replay h'
  rw [List.nil_append] at hholds hholds'
  rw [hblank.upToDate_replay hsame.rebuilt, hblank'.upToDate_replay hsame.rebuilt']
  refine rowAt_eq_of_mem_iff hholds.nodup hholds'.nodup fun d _ => ?_
  rw [hholds.mem_map_unstamped_iff fun ev hev ev' hev' =>
      hsame.one ev (List.mem_append_left _ hev) ev' (List.mem_append_left _ hev'),
    hholds'.mem_map_unstamped_iff fun ev hev ev' hev' =>
      hsame.one ev (List.mem_append_right _ hev) ev' (List.mem_append_right _ hev')]
  constructor
  · rintro ⟨ev, hev, rfl⟩
    obtain ⟨ev', hev', hid⟩ := List.mem_map.mp ((hsame.ids _).mp (List.mem_map_of_mem hev))
    exact ⟨ev', hev', AppendEvent.stored_eq_of_unstamped_eq (hsame.one ev
      (List.mem_append_left _ hev) ev' (List.mem_append_right _ hev') hid.symm)⟩
  · rintro ⟨ev, hev, rfl⟩
    obtain ⟨ev', hev', hid⟩ := List.mem_map.mp ((hsame.ids _).mpr (List.mem_map_of_mem hev))
    exact ⟨ev', hev', AppendEvent.stored_eq_of_unstamped_eq (hsame.one ev
      (List.mem_append_right _ hev) ev' (List.mem_append_left _ hev') hid.symm)⟩

/-- A device before anything arrives. -/
def blankDevice (replicaIdProvider : ReplicaIdProvider) : Replica DeviceEventLog where
  log := .new
  storage := .new replicaIdProvider

/-- A backend before anything arrives. -/
def blankBackend (replicaIdProvider : ReplicaIdProvider) (log : ServerEventLog) :
    Replica ServerEventLog where
  log := log
  storage := .new replicaIdProvider

/-- **Replicas that got the same events agree**: two devices, and a device and a backend. -/
theorem replicas_agree (provider provider' : ReplicaIdProvider)
    (h : List (DeliveryStep (ReplicatedLog.Ack DeviceEventLog))) (id : ItemId) :
    (∀ h' : List (DeliveryStep (ReplicatedLog.Ack DeviceEventLog)), SameDelivery h h' →
      ((blankDevice provider).replay h).storage.findById id
        = ((blankDevice provider').replay h').storage.findById id) ∧
      ∀ (log : ServerEventLog) (h' : List (DeliveryStep (ReplicatedLog.Ack ServerEventLog))),
        log.entries = [] → SameDelivery h h' →
          ((blankDevice provider).replay h).storage.findById id
            = ((blankBackend provider' log).replay h').storage.findById id := by
  constructor
  · intro h' hsame
    exact hsame.findById_eq ⟨rfl, rfl⟩ ⟨rfl, rfl⟩ id
  · intro log h' hlog hsame
    have hblank' : (blankBackend provider' log).Blank := ⟨hlog, rfl⟩
    exact hsame.findById_eq ⟨rfl, rfl⟩ hblank' id

/-- An item is created and then renamed. -/
def createdMilk : ItemAppend :=
  ⟨1, ⟨7⟩, .created "milk" 2, "A", 100, some 1, none, none⟩

def renamedMilk : ItemAppend :=
  ⟨2, ⟨7⟩, .renamed "oat milk", "B", 200, some 1, none, none⟩

/-- A device gets both events at once, with the server's stamps. -/
def promptDelivery : List (DeliveryStep (ReplicatedLog.Ack DeviceEventLog)) :=
  [.append (fun _ => 0) [{ createdMilk with serverOffset := some ⟨1⟩ }, renamedMilk],
    .markSynced [], .buildProjection ⟨7⟩]

/-- The server gets them one by one, the later one first and twice. -/
def lateDelivery : List (DeliveryStep (ReplicatedLog.Ack ServerEventLog)) :=
  [.append (fun _ => 1000) [renamedMilk], .buildProjection ⟨7⟩,
    .append (fun _ => 2000) [createdMilk, renamedMilk], .buildProjection ⟨7⟩]

theorem replicas_agree_lateDelivery :
    ((blankDevice ⟨"A"⟩).replay promptDelivery).storage.findById ⟨7⟩
      = ((blankBackend ⟨"server"⟩ .new).replay lateDelivery).storage.findById ⟨7⟩ := by
  refine (replicas_agree ⟨"A"⟩ ⟨"server"⟩ promptDelivery ⟨7⟩).2 .new lateDelivery rfl
    ⟨fun i => ⟨fun hi => ?_, fun hi => ?_⟩, by decide, fun ev hev => ?_, fun ev hev => ?_⟩
  · exact (by decide : ∀ i ∈ (delivered promptDelivery).map AppendEvent.replicaEventId,
      i ∈ (delivered lateDelivery).map AppendEvent.replicaEventId) i hi
  · exact (by decide : ∀ i ∈ (delivered lateDelivery).map AppendEvent.replicaEventId,
      i ∈ (delivered promptDelivery).map AppendEvent.replicaEventId) i hi
  · have hid : ev.entityId = ⟨7⟩ :=
      (by decide : ∀ ev ∈ delivered promptDelivery, ev.entityId = ⟨7⟩) ev hev
    exact ⟨promptDelivery.take 2, [], by rw [hid]; rfl, fun _ h => absurd h List.not_mem_nil⟩
  · have hid : ev.entityId = ⟨7⟩ :=
      (by decide : ∀ ev ∈ delivered lateDelivery, ev.entityId = ⟨7⟩) ev hev
    exact ⟨lateDelivery.take 3, [], by rw [hid]; rfl, fun _ h => absurd h List.not_mem_nil⟩

end OfflineSync
