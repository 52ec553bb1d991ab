import OfflineSync.Item
import Mathlib.Data.List.AList
import Mathlib.Data.String.Basic

/-!
# The item storage

`shared/src/item_storage.rs`: the projection table and the two paths that write it. `store`
drains an item's uncommitted events into the log and rebuilds the item's row; a row is only
ever written by `buildProjection`, which reads the item's events from the log and puts
`rowOf` of them in the table. Both halves are definitions of their own (`appendEvents` and
`project`), because a concurrent sync may come between them.

The log is a parameter, as in the source: `EntityEventLog` is what the storage needs of it,
and the device log and the server log are its instances. `rowAt l id` is the row a rebuild
over the entries `l` would leave, the value every later statement about the table compares
a row with. It does not depend on the server's stamps (`rowAt_map_unstamped`), nor on the
order in which the events arrived (`rowAt_eq_of_mem_iff`), and a deletion anywhere among the
events leaves no row (`rowAt_eq_none_of_deleted`).
-/

namespace OfflineSync

/-- The subset of an event log that `ItemStorage` needs. The clock gives the readings a log
takes while it appends; a log that takes none ignores it. -/
class EntityEventLog (L : Type) where
  /-- Append locally authored events, assigning local provenance. -/
  appendLocal : L → (ℕ → ℤ) → List ItemAppend → L × List ItemDescriptor
  /-- Every event of one entity, in canonical fold order. -/
  eventsOfEntity : L → ItemId → List ItemDescriptor

/-- The events of one entity among the entries of a log, in canonical fold order. -/
def eventsOf (entries : List ItemDescriptor) (id : ItemId) : List ItemDescriptor :=
  sortEvents (entries.filter fun d => d.entityId = id)

/-- Query filter for the projection table. -/
structure ItemFilter where
  name : Option String := none
deriving DecidableEq, Repr

/-- `ItemFilter::empty`. -/
def ItemFilter.empty : ItemFilter := {}

/-- `ItemFilter::with_name`. -/
def ItemFilter.withName (name : String) : ItemFilter := { name := some name }

/-- The test `find` applies to a row: names are compared ignoring ASCII case. -/
def ItemFilter.accepts (filter : ItemFilter) (item : Item) : Bool :=
  match filter.name with
  | some name => item.name.toLower == name.toLower
  | none => true

/-- The projection table. The order of the list stands for the iteration order of the hash
map. -/
abbrev ItemTable : Type := AList fun _ : ItemId => Item

/-- The row a rebuild from the given events leaves: none without events, none for a deleted
item, and the folded item otherwise. -/
def rowOf (events : List ItemDescriptor) : Option Item :=
  if events = [] then none
  else
    let item := Item.buildFromHistory events
    if item.deleted then none else some item

/-- Put a rebuilt row into the table, or take it out. -/
def ItemTable.setRow (items : ItemTable) (id : ItemId) : Option Item → ItemTable
  | none => items.erase id
  | some item => items.insert id item

/-- The item storage, without the handle to its log. -/
structure ItemStorage where
  replicaIdProvider : ReplicaIdProvider
  items : ItemTable

namespace ItemStorage

/-- `ItemStorage::new`. -/
def new (replicaIdProvider : ReplicaIdProvider) : ItemStorage where
  replicaIdProvider := replicaIdProvider
  items := ∅

/-- What `store` makes of the drained uncommitted events: a fresh id each, the replica id from
the provider, and no write offset or server field. -/
def appendEvents (replicaId : String) (entityId : ItemId)
    (changes : List (Uuid × EntityEvent ItemEvent)) : List ItemAppend :=
  changes.map fun change =>
    { replicaEventId := change.1
      entityId := entityId
      payload := change.2.event
      replicaId := replicaId
      replicaTimeMs := change.2.modifiedAtMs
      replicaWriteOffset := none
      serverOffset := none
      serverTimeMs := none }

/-- The second half of `build_projection`: write the row that the events give. -/
def project (storage : ItemStorage) (id : ItemId) (events : List ItemDescriptor) : ItemStorage :=
  { storage with items := storage.items.setRow id (rowOf events) }

variable {L : Type} [EntityEventLog L]

/-- `ItemStorage::build_projection`: refold one entity from its history. -/
def buildProjection (storage : ItemStorage) (log : L) (id : ItemId) : ItemStorage :=
  storage.project id (EntityEventLog.eventsOfEntity log id)

/-- `ItemStorage::store`: drain the uncommitted events into the log, giving them the ids
`ids` in order, and rebuild the row of the item. -/
def store (storage : ItemStorage) (log : L) (now : ℕ → ℤ) (item : Item) (ids : List Uuid) :
    ItemStorage × L × Item :=
  let append := appendEvents storage.replicaIdProvider.get item.id (ids.zip item.uncommitted)
  let log := (EntityEventLog.appendLocal log now append).1
  (storage.buildProjection log item.id, log, { item with uncommitted := [] })

/-- `ItemStorage::find_by_id`. -/
def findById (storage : ItemStorage) (id : ItemId) : Option Item :=
  storage.items.lookup id

/-- `ItemStorage::find`: the matching rows, sorted by name. -/
def find (storage : ItemStorage) (filter : ItemFilter) : List Item :=
  sortByKey Item.name ((storage.items.entries.map Sigma.snd).filter filter.accepts)

/-- `ItemStorage::find_all`. -/
def findAll (storage : ItemStorage) : List Item :=
  storage.find .empty

end ItemStorage

@[simp] theorem ItemStorage.map_replicaEventId_appendEvents (replicaId : String) (id : ItemId)
    (changes : List (Uuid × EntityEvent ItemEvent)) :
    (appendEvents replicaId id changes).map AppendEvent.replicaEventId
      = changes.map Prod.fst := by
  rw [appendEvents, List.map_map]
  rfl

/-! ### Tasks under the storage lock -/

/-- What the task that holds the storage lock has left to do. -/
inductive StorageTask
  /-- `store`, before the append to the log. -/
  | store (item : Item)
  /-- `build_projection` of each id in turn. -/
  | project (ids : List ItemId)
  /-- In `build_projection`, with the events of `id` read and its row not written. -/
  | write (id : ItemId) (events : List ItemDescriptor) (ids : List ItemId)
deriving DecidableEq, Repr

namespace StorageTask

/-- The row that the holder of the storage lock has read and not written. -/
def loaded : Option StorageTask → Option (ItemId × Option Item)
  | some (.write id events _) => some (id, rowOf events)
  | _ => none

/-- The projections that the holder of the storage lock is still to write. -/
def todo : Option StorageTask → List ItemId
  | some (.project ids) => ids
  | some (.write id _ ids) => id :: ids
  | _ => []

end StorageTask

/-! ### The table -/

@[simp] theorem ItemTable.lookup_setRow_self (items : ItemTable) (id : ItemId)
    (row : Option Item) : (items.setRow id row).lookup id = row := by
  cases row with
  | none => exact AList.lookup_erase id items
  | some item => exact AList.lookup_insert items

theorem ItemTable.lookup_setRow_of_ne (items : ItemTable) {id id' : ItemId}
    (row : Option Item) (h : id' ≠ id) : (items.setRow id row).lookup id' = items.lookup id' := by
  cases row with
  | none => exact AList.lookup_erase_ne h
  | some item => exact AList.lookup_insert_ne h

/-- What `find` returns are rows of the table that the filter accepts. -/
theorem ItemStorage.mem_find_iff {storage : ItemStorage} {filter : ItemFilter} {item : Item} :
    item ∈ storage.find filter ↔
      (∃ id, storage.findById id = some item) ∧ filter.accepts item = true := by
  simp only [find, mem_sortByKey, List.mem_filter, List.mem_map, findById]
  refine and_congr_left fun _ => ⟨?_, ?_⟩
  · rintro ⟨⟨id, row⟩, hrow, rfl⟩
    exact ⟨id, AList.mem_lookup_iff.mpr hrow⟩
  · rintro ⟨id, hid⟩
    exact ⟨⟨id, item⟩, AList.mem_lookup_iff.mp hid, rfl⟩

/-! ### The row a rebuild would leave -/

/-- The row a rebuild of `id` over the entries `l` would leave. -/
def rowAt (l : List ItemDescriptor) (id : ItemId) : Option Item :=
  rowOf (eventsOf l id)

@[simp] theorem mem_eventsOf {l : List ItemDescriptor} {id : ItemId} {d : ItemDescriptor} :
    d ∈ eventsOf l id ↔ d ∈ l ∧ d.entityId = id := by
  rw [eventsOf, sortEvents, mem_sortByKey, List.mem_filter, decide_eq_true_eq]

private theorem rowOf_map_unstamped (events : List ItemDescriptor) :
    rowOf (events.map EventDescriptor.unstamped) = rowOf events := by
  simp only [rowOf, List.map_eq_nil_iff, Item.buildFromHistory_map_unstamped]

/-- The events of an entity, without the server's stamps, do not depend on the stamps. -/
theorem eventsOf_map_unstamped (l : List ItemDescriptor) (id : ItemId) :
    eventsOf (l.map EventDescriptor.unstamped) id
      = (eventsOf l id).map EventDescriptor.unstamped := by
  rw [eventsOf, eventsOf, List.filter_map, sortEvents_map_unstamped]
  rfl

/-- A row does not depend on the server's stamps. -/
theorem rowAt_map_unstamped (l : List ItemDescriptor) (id : ItemId) :
    rowAt (l.map EventDescriptor.unstamped) id = rowAt l id := by
  rw [rowAt, eventsOf_map_unstamped, rowOf_map_unstamped, rowAt]

/-- Logs that hold the same events of an entity, in whatever order, list them alike. -/
theorem eventsOf_eq_of_mem_iff {l l' : List ItemDescriptor} {id : ItemId}
    (hl : (eventIds l).Nodup) (hl' : (eventIds l').Nodup)
    (h : ∀ d, d.entityId = id → (d ∈ l ↔ d ∈ l')) : eventsOf l id = eventsOf l' id := by
  have hnd : (l.filter fun d => d.entityId = id).Nodup := (List.Nodup.of_map _ hl).filter _
  have hnd' : (l'.filter fun d => d.entityId = id).Nodup := (List.Nodup.of_map _ hl').filter _
  refine sortEvents_eq_of_perm ((List.perm_ext_iff_of_nodup hnd hnd').mpr fun d => ?_)
    (hl.sublist (List.filter_sublist.map _))
  simp only [List.mem_filter, decide_eq_true_eq]
  exact and_congr_left (h d)

/-- Logs that hold the same events of an entity up to the server's stamps give it one row. -/
theorem rowAt_eq_of_mem_iff {l l' : List ItemDescriptor} {id : ItemId}
    (hl : (eventIds l).Nodup) (hl' : (eventIds l').Nodup)
    (h : ∀ d : ItemDescriptor, d.entityId = id →
      (d ∈ l.map EventDescriptor.unstamped ↔ d ∈ l'.map EventDescriptor.unstamped)) :
    rowAt l id = rowAt l' id := by
  rw [← rowAt_map_unstamped l, ← rowAt_map_unstamped l', rowAt, rowAt,
    eventsOf_eq_of_mem_iff (by rwa [eventIds_map_unstamped]) (by rwa [eventIds_map_unstamped]) h]

/-- New events of other entities leave a row as it is. -/
theorem rowAt_append_of_ne {l new : List ItemDescriptor} {id : ItemId}
    (h : ∀ d ∈ new, d.entityId ≠ id) : rowAt (l ++ new) id = rowAt l id := by
  have hnil : new.filter (fun d => d.entityId = id) = [] :=
    List.filter_eq_nil_iff.mpr fun d hd => by simpa using h d hd
  rw [rowAt, eventsOf, List.filter_append, hnil, List.append_nil, ← eventsOf, ← rowAt]

/-- A rebuilt row carries the id it is stored under. -/
theorem rowAt_id {l : List ItemDescriptor} {id : ItemId} {item : Item}
    (h : rowAt l id = some item) : item.id = id := by
  simp only [rowAt, rowOf] at h
  split_ifs at h with hnil hdel
  obtain rfl := Option.some.inj h
  exact Item.buildFromHistory_id hnil fun e he => (mem_eventsOf.mp he).2

theorem rowAt_uncommitted {l : List ItemDescriptor} {id : ItemId} {item : Item}
    (h : rowAt l id = some item) : item.uncommitted = [] := by
  simp only [rowAt, rowOf] at h
  split_ifs at h with hnil hdel
  obtain rfl := Option.some.inj h
  exact Item.buildFromHistory_uncommitted _

/-- **A deletion among the events leaves no row**, wherever it is in the canonical order. -/
theorem rowAt_eq_none_of_deleted {l : List ItemDescriptor} {id : ItemId} {d : ItemDescriptor}
    (hd : d ∈ l) (hid : d.entityId = id) (hdel : d.payload = .deleted) : rowAt l id = none := by
  have hfold : (Item.buildFromHistory (eventsOf l id)).deleted = true :=
    (Item.buildFromHistory_deleted_iff _).mpr ⟨d, mem_eventsOf.mpr ⟨hd, hid⟩, hdel⟩
  simp [rowAt, rowOf, hfold]

/-- Without events of an entity there is no row for it. -/
theorem rowAt_eq_none_of_forall_ne {l : List ItemDescriptor} {id : ItemId}
    (h : ∀ d ∈ l, d.entityId ≠ id) : rowAt l id = none := by
  have hnil : eventsOf l id = [] := List.eq_nil_iff_forall_not_mem.mpr fun d hd =>
    h d (mem_eventsOf.mp hd).1 (mem_eventsOf.mp hd).2
  simp [rowAt, rowOf, hnil]

/-- An item with a row has events. -/
theorem exists_mem_of_rowAt {l : List ItemDescriptor} {id : ItemId} {item : Item}
    (h : rowAt l id = some item) : ∃ e ∈ l, e.entityId = id := by
  by_contra hnone
  push Not at hnone
  rw [rowAt_eq_none_of_forall_ne hnone] at h
  cases h

end OfflineSync
