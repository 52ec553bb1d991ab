import OfflineSync.Device
import OfflineSync.Fold

/-!
# The optimistic state and the rebuilt row

A domain operation changes the item in memory at once; `store` later appends its events, reads the
whole history back, sorts it and folds it from scratch. The two agree as long as the clock
readings of the new events do not decrease and start above those in the log (`optimistic_store`):
the new events then end the sorted history, in the order of their batch write offsets, and the
fold goes on from where the item in memory was loaded.

The readings of a new item start with that of its creation. When an edit carries an earlier one,
the fold applies it before the creation, which overwrites it (`edit_before_creation`).
-/

namespace OfflineSync

/-- What an event says happened, and when. -/
def EventDescriptor.change {E EntId : Type} (e : EventDescriptor E EntId) : EntityEvent E :=
  ⟨e.payload, e.replicaTimeMs⟩

/-- A domain operation, with the clock reading it is given. -/
abbrev Edit : Type := Operation × ℤ

/-- What an edit records. -/
def Edit.change (edit : Edit) : EntityEvent ItemEvent :=
  ⟨edit.1.event, edit.2⟩

namespace Item

/-- Carry out edits in memory, one after the other. -/
def edit (item : Item) (edits : List Edit) : Item :=
  edits.foldl (fun item edit => edit.1.apply item edit.2) item

/-- An item with its uncommitted events drained, as `store` leaves it. -/
def drained (item : Item) : Item :=
  { item with uncommitted := [] }

/-- Apply a change without recording it. -/
def applyChange (item : Item) (change : EntityEvent ItemEvent) : Item :=
  item.applyEvent change.event change.modifiedAtMs

theorem edit_id (item : Item) (edits : List Edit) : (item.edit edits).id = item.id := by
  induction edits generalizing item with
  | nil => rfl
  | cons e edits ih =>
    change ((e.1.apply item e.2).edit edits).id = item.id
    rw [ih, e.1.apply_eq, newEvent_id]

/-- The uncommitted events of an item are its edits, in order. -/
theorem edit_uncommitted (item : Item) (edits : List Edit) :
    (item.edit edits).uncommitted = item.uncommitted ++ edits.map Edit.change := by
  induction edits generalizing item with
  | nil => exact (List.append_nil _).symm
  | cons e edits ih =>
    change ((e.1.apply item e.2).edit edits).uncommitted = _
    rw [ih, e.1.apply_eq, newEvent_uncommitted, List.append_assoc]
    rfl

/-- Applying a change does not look at what is uncommitted. -/
private theorem newEvent_drained (item : Item) (change : EntityEvent ItemEvent) :
    (item.newEvent change).drained = item.drained.applyChange change := by
  unfold newEvent applyChange applyEvent drained
  dsimp only
  split_ifs
  · rfl
  · cases change.event <;> rfl

/-- The state of an edited item is what its changes make of it. -/
private theorem edit_drained (item : Item) (edits : List Edit) :
    (item.edit edits).drained = (edits.map Edit.change).foldl applyChange item.drained := by
  induction edits generalizing item with
  | nil => rfl
  | cons e edits ih =>
    change ((e.1.apply item e.2).edit edits).drained = _
    rw [ih, e.1.apply_eq, newEvent_drained]
    rfl

/-- The fold of a history goes by its changes. -/
private theorem foldl_applyDescriptor_eq_changes (item : Item) (events : List ItemDescriptor) :
    events.foldl applyDescriptor item
      = (events.map EventDescriptor.change).foldl applyChange item := by
  rw [List.foldl_map]
  rfl

end Item

/-! ### The new events in the history -/

section StoredEvents

variable {replicaId : String} {id : ItemId} {ids : List Uuid}
  {changes : List (EntityEvent ItemEvent)}

/-- The events a store appends for the given changes. -/
def storedEvents (replicaId : String) (id : ItemId) (ids : List Uuid)
    (changes : List (EntityEvent ItemEvent)) : List ItemDescriptor :=
  DeviceEventLog.authoredBatch (ItemStorage.appendEvents replicaId id (ids.zip changes))

private theorem getElem?_storedEvents {i : ℕ} {e : ItemDescriptor}
    (h : (storedEvents replicaId id ids changes)[i]? = some e) :
    changes[i]? = some e.change ∧ e.replicaWriteOffset = i + 1 ∧ e.entityId = id ∧
      e.replicaId = replicaId ∧ e.serverOffset = none ∧ e.serverTimeMs = none := by
  rw [storedEvents, DeviceEventLog.getElem?_authoredBatch, ItemStorage.appendEvents,
    List.getElem?_map, Option.map_map] at h
  obtain ⟨p, hp, rfl⟩ := Option.map_eq_some_iff.mp h
  exact ⟨(List.getElem?_zip_eq_some.mp hp).2, rfl, rfl, rfl, rfl, rfl⟩

theorem mem_storedEvents {e : ItemDescriptor} (h : e ∈ storedEvents replicaId id ids changes) :
    e.change ∈ changes ∧ e.entityId = id ∧ e.replicaId = replicaId ∧ e.serverOffset = none ∧
      e.serverTimeMs = none := by
  obtain ⟨i, hi⟩ := List.mem_iff_getElem?.mp h
  obtain ⟨hchange, -, hrest⟩ := getElem?_storedEvents hi
  exact ⟨List.mem_of_getElem? hchange, hrest⟩

private theorem map_change_storedEvents (hlength : ids.length = changes.length) :
    (storedEvents replicaId id ids changes).map EventDescriptor.change = changes := by
  conv_rhs => rw [← List.map_snd_zip hlength.ge, ← List.zipIdx_map_fst 1 (ids.zip changes)]
  rw [storedEvents, DeviceEventLog.authoredBatch, ItemStorage.appendEvents, List.zipIdx_map]
  simp only [List.map_map]
  rfl

private theorem eventIds_storedEvents (hlength : ids.length = changes.length) :
    eventIds (storedEvents replicaId id ids changes) = ids := by
  rw [storedEvents, DeviceEventLog.eventIds_authoredBatch,
    ItemStorage.map_replicaEventId_appendEvents, List.map_fst_zip hlength.le]

/-- The events of one store are in canonical order where the clock does not go back: the write
offset decides among those of one millisecond. -/
private theorem pairwise_storedEvents
    (htimes : changes.Pairwise fun c c' => c.modifiedAtMs ≤ c'.modifiedAtMs) :
    (storedEvents replicaId id ids changes).Pairwise fun e e' => orderKey e ≤ orderKey e' := by
  rw [List.pairwise_iff_getElem]
  intro i j hi hj hij
  obtain ⟨hi', hoi, -⟩ := getElem?_storedEvents (List.getElem?_eq_getElem hi)
  obtain ⟨hj', hoj, -⟩ := getElem?_storedEvents (List.getElem?_eq_getElem hj)
  obtain ⟨hi'', hi'⟩ := List.getElem?_eq_some_iff.mp hi'
  obtain ⟨hj'', hj'⟩ := List.getElem?_eq_some_iff.mp hj'
  have htime := List.pairwise_iff_getElem.mp htimes i j hi'' hj'' hij
  rw [hi', hj'] at htime
  refine le_of_lt (orderKey_lt_iff.mpr ?_)
  rcases lt_or_eq_of_le htime with hlt | heq
  · exact .inl hlt
  · refine .inr ⟨heq, .inl ?_⟩
    omega

/-- Events above every clock reading of an item's history end it. -/
private theorem eventsOf_append_storedEvents {entries : List ItemDescriptor}
    (htimes : changes.Pairwise fun c c' => c.modifiedAtMs ≤ c'.modifiedAtMs)
    (hlater : ∀ c ∈ changes.head?, ∀ e ∈ entries, e.entityId = id →
      e.replicaTimeMs < c.modifiedAtMs) :
    eventsOf (entries ++ storedEvents replicaId id ids changes) id
      = eventsOf entries id ++ storedEvents replicaId id ids changes := by
  have hall : (storedEvents replicaId id ids changes).filter (fun e => e.entityId = id)
      = storedEvents replicaId id ids changes := by
    refine List.filter_eq_self.mpr fun e he => ?_
    exact decide_eq_true (mem_storedEvents he).2.1
  rw [eventsOf, List.filter_append, hall]
  refine sortByKey_append (fun e he e' he' => ?_) (pairwise_storedEvents htimes)
  obtain ⟨he, hid⟩ := List.mem_filter.mp he
  have hc := (mem_storedEvents he').1
  obtain ⟨c, rest, rfl⟩ := List.exists_cons_of_ne_nil (List.ne_nil_of_mem hc)
  have hlt : e.replicaTimeMs < c.modifiedAtMs := hlater c rfl e he (of_decide_eq_true hid)
  refine le_of_lt (orderKey_lt_iff.mpr (.inl ?_))
  rcases List.mem_cons.mp hc with rfl | hc
  · exact hlt
  · exact hlt.trans_le ((List.pairwise_cons.mp htimes).1 _ hc)

end StoredEvents

/-! ### What `store` leaves -/

namespace ItemStorage

variable {storage : ItemStorage} {log : DeviceEventLog} {item : Item} {ids : List Uuid}

/-- An item as its owner may hold it before editing it: just made under an id of its own, or
loaded from a row that is up to date. -/
inductive Editable (storage : ItemStorage) (log : DeviceEventLog) : Item → Prop
  | created {id : ItemId} (name : String) (quantity nowMs : ℤ)
      (unused : ∀ e ∈ log.entries, e.entityId ≠ id) :
      Editable storage log (Item.create id name quantity nowMs)
  | loaded {id : ItemId} {item : Item} (found : storage.findById id = some item)
      (fresh : rowAt log.entries id = some item) : Editable storage log item

/-- An item in memory is where its history and then its uncommitted changes lead. -/
private theorem Editable.drained_eq (h : storage.Editable log item) :
    item.drained = item.uncommitted.foldl Item.applyChange
      ((eventsOf log.entries item.id).foldl Item.applyDescriptor { id := item.id }) := by
  cases h with
  | @created id name quantity nowMs unused =>
    have hnil : eventsOf log.entries id = [] :=
      List.eq_nil_iff_forall_not_mem.mpr fun e he =>
        unused e (mem_eventsOf.mp he).1 (mem_eventsOf.mp he).2
    change (Item.create id name quantity nowMs).drained = List.foldl Item.applyChange
      ((eventsOf log.entries id).foldl Item.applyDescriptor { id := id }) _
    rw [hnil]
    rfl
  | @loaded id item found fresh =>
    have hun := rowAt_uncommitted fresh
    obtain rfl := rowAt_id fresh
    simp only [rowAt, rowOf] at fresh
    split_ifs at fresh with hnil hdel
    obtain heq := Option.some.inj fresh
    rw [Item.buildFromHistory_eq_foldl hnil fun e he => (mem_eventsOf.mp he).2] at heq
    rw [heq, hun, Item.drained]
    exact (congrArg (fun u => ({ item with uncommitted := u } : Item)) hun.symm)

/-- A new item has its creation to store; a loaded one has a history and nothing to store. -/
private theorem Editable.uncommitted_cases (h : storage.Editable log item) :
    (∃ c, item.uncommitted = [c] ∧ ∀ e ∈ log.entries, e.entityId ≠ item.id) ∨
      item.uncommitted = [] ∧ eventsOf log.entries item.id ≠ [] := by
  cases h with
  | created name quantity nowMs unused => exact .inl ⟨_, rfl, unused⟩
  | loaded found fresh =>
    obtain rfl := rowAt_id fresh
    refine .inr ⟨rowAt_uncommitted fresh, fun hnil => ?_⟩
    rw [rowAt, hnil] at fresh
    cases fresh

/-- The changes to store are in order, and a history there is ends before them. -/
private theorem Editable.changes_ordered (h : storage.Editable log item) {edits : List Edit}
    (htimes : edits.Pairwise fun a b => a.2 ≤ b.2)
    (hlater : ∀ first ∈ edits.head?, ∀ e ∈ log.entries, e.entityId = item.id →
      e.replicaTimeMs < first.2)
    (hcreated : ∀ first ∈ edits.head?, ∀ c ∈ item.uncommitted, c.modifiedAtMs ≤ first.2) :
    (item.uncommitted ++ edits.map Edit.change).Pairwise
        (fun c c' => c.modifiedAtMs ≤ c'.modifiedAtMs) ∧
      ∀ c ∈ (item.uncommitted ++ edits.map Edit.change).head?, ∀ e ∈ log.entries,
        e.entityId = item.id → e.replicaTimeMs < c.modifiedAtMs := by
  constructor
  · refine List.pairwise_append.mpr ⟨?_, List.pairwise_map.mpr htimes, ?_⟩
    · rcases h.uncommitted_cases with ⟨c, hc, -⟩ | ⟨hc, -⟩
      · exact hc ▸ List.pairwise_singleton _ c
      · exact hc ▸ List.Pairwise.nil
    · intro c hc c' hc'
      obtain ⟨e, he, rfl⟩ := List.mem_map.mp hc'
      obtain ⟨first, rest, rfl⟩ := List.exists_cons_of_ne_nil (List.ne_nil_of_mem he)
      have hfirst : c.modifiedAtMs ≤ first.2 := hcreated first rfl c hc
      rcases List.mem_cons.mp he with rfl | he
      · exact hfirst
      · exact hfirst.trans ((List.pairwise_cons.mp htimes).1 e he)
  · rcases h.uncommitted_cases with ⟨c, -, hunused⟩ | ⟨hc, -⟩
    · intro _ _ e he hid
      exact absurd hid (hunused e he)
    · rw [hc, List.nil_append, List.head?_map]
      intro c hc e he hid
      obtain ⟨first, hfirst, rfl⟩ := Option.map_eq_some_iff.mp hc
      exact hlater first hfirst e he hid

/-- The rebuilt row of the longer log is the item in memory. -/
theorem Editable.rowAt_stored (h : storage.Editable log item) {edits : List Edit}
    (replicaId : String)
    (hpairwise : (item.uncommitted ++ edits.map Edit.change).Pairwise
      fun c c' => c.modifiedAtMs ≤ c'.modifiedAtMs)
    (habove : ∀ c ∈ (item.uncommitted ++ edits.map Edit.change).head?, ∀ e ∈ log.entries,
      e.entityId = item.id → e.replicaTimeMs < c.modifiedAtMs)
    (hlength : ids.length = (item.uncommitted ++ edits.map Edit.change).length) :
    rowAt (log.entries ++
        storedEvents replicaId item.id ids (item.uncommitted ++ edits.map Edit.change)) item.id
      = if (item.edit edits).drained.deleted then none else some (item.edit edits).drained := by
  set batch := storedEvents replicaId item.id ids (item.uncommitted ++ edits.map Edit.change)
    with hbatch
  have hmap : batch.map EventDescriptor.change = item.uncommitted ++ edits.map Edit.change :=
    map_change_storedEvents hlength
  have hmem : ∀ e ∈ eventsOf log.entries item.id ++ batch, e.entityId = item.id := by
    intro e he
    rcases List.mem_append.mp he with he | he
    · exact (mem_eventsOf.mp he).2
    · exact (mem_storedEvents he).2.1
  have hne : eventsOf log.entries item.id ++ batch ≠ [] := by
    rcases h.uncommitted_cases with ⟨c, hc, -⟩ | ⟨-, hne⟩
    · intro hnil
      rw [(List.append_eq_nil_iff.mp hnil).2, hc] at hmap
      exact List.cons_ne_nil _ _ hmap.symm
    · exact fun hnil => hne (List.append_eq_nil_iff.mp hnil).1
  have hfold : Item.buildFromHistory (eventsOf log.entries item.id ++ batch)
      = (item.edit edits).drained := by
    rw [Item.buildFromHistory_eq_foldl hne hmem, List.foldl_append,
      Item.foldl_applyDescriptor_eq_changes _ batch, hmap, List.foldl_append, ← h.drained_eq,
      ← Item.edit_drained]
  rw [rowAt, eventsOf_append_storedEvents hpairwise habove, rowOf, if_neg hne, ← hbatch]
  simp only [hfold]

/-- `store` with fresh event ids: the changes go to the end of the log, and the row is rebuilt
over the longer log. -/
theorem store_of_fresh (storage : ItemStorage) (now : ℕ → ℤ)
    (hlength : ids.length = item.uncommitted.length) (hnd : ids.Nodup)
    (hfresh : ∀ i ∈ ids, i ∉ log.ids) :
    storage.store log now item ids =
      let entries := log.entries ++
        storedEvents storage.replicaIdProvider.get item.id ids item.uncommitted
      (storage.project item.id (eventsOf entries item.id), ⟨entries⟩, item.drained) := by
  have hids : (appendEvents storage.replicaIdProvider.get item.id
      (ids.zip item.uncommitted)).map AppendEvent.replicaEventId = ids := by
    rw [map_replicaEventId_appendEvents, List.map_fst_zip hlength.le]
  have happend : log.appendLocal _ = _ := DeviceEventLog.appendLocal_of_fresh (hids.symm ▸ hnd)
    fun ev hev => hfresh _ (hids ▸ List.mem_map_of_mem hev)
  unfold store
  simp only [EntityEventLog.appendLocal, happend]
  rfl

end ItemStorage

/-- **The optimistic state is the rebuilt row.** -/
theorem optimistic_store (storage : ItemStorage) (log : DeviceEventLog) (now : ℕ → ℤ)
    (item : Item) (edits : List Edit) (ids : List Uuid) (hitem : storage.Editable log item)
    (htimes : edits.Pairwise fun a b => a.2 ≤ b.2)
    (hlater : ∀ first ∈ edits.head?, ∀ e ∈ log.entries, e.entityId = item.id →
      e.replicaTimeMs < first.2)
    (hcreated : ∀ first ∈ edits.head?, ∀ c ∈ item.uncommitted, c.modifiedAtMs ≤ first.2)
    (hlength : ids.length = (item.edit edits).uncommitted.length) (hnd : ids.Nodup)
    (hfresh : ∀ i ∈ ids, i ∉ log.ids) :
    let stored := storage.store log now (item.edit edits) ids
    stored.2.2 = (item.edit edits).drained ∧
      stored.1.findById item.id = (if stored.2.2.deleted then none else some stored.2.2) ∧
      (∀ id ≠ item.id, stored.1.findById id = storage.findById id) ∧
      ∃ new, stored.2.1.entries = log.entries ++ new ∧ eventIds new = ids ∧
        new.map EventDescriptor.change = item.uncommitted ++ edits.map Edit.change ∧
        ∀ e ∈ new, e.entityId = item.id ∧ e.replicaId = storage.replicaIdProvider.get ∧
          e.serverOffset = none ∧ e.serverTimeMs = none := by
  intro stored
  have hchanges := item.edit_uncommitted edits
  have hlength' := hchanges ▸ hlength
  obtain ⟨hpairwise, habove⟩ := hitem.changes_ordered htimes hlater hcreated
  have hstored := ItemStorage.store_of_fresh storage now hlength hnd hfresh
  rw [item.edit_id, hchanges] at hstored
  have hrow := hitem.rowAt_stored storage.replicaIdProvider.get hpairwise habove hlength'
  refine ⟨congrArg (fun p => p.2.2) hstored, ?_, fun id hid => ?_, _,
    congrArg (fun p => p.2.1.entries) hstored, eventIds_storedEvents hlength',
    map_change_storedEvents hlength', fun e he => (mem_storedEvents he).2⟩
  · simp only [stored, hstored]
    exact (ItemTable.lookup_setRow_self _ _ _).trans hrow
  · simp only [stored, hstored]
    exact ItemTable.lookup_setRow_of_ne _ _ hid

/-- A device that has stored an item. -/
def stockedLog : DeviceEventLog where
  entries := [⟨1, 1, 100, "A", none, none, ⟨7⟩, .created "milk" 2⟩]

def stockedItem : Item where
  id := ⟨7⟩
  name := "milk"
  quantity := 2
  lastModifiedMs := 100

def stockedStorage : ItemStorage :=
  (ItemStorage.new ⟨"A"⟩).buildProjection stockedLog ⟨7⟩

/-- Two edits in one millisecond: the write offset keeps them in order. -/
theorem optimistic_store_stockedItem :
    (stockedStorage.store stockedLog (fun _ => 0)
      (stockedItem.edit [(.rename "oat milk", 200), (.rename "soy milk", 200)])
      [2, 3]).1.findById ⟨7⟩
        = some { stockedItem with name := "soy milk", lastModifiedMs := 200 } :=
  (optimistic_store stockedStorage stockedLog (fun _ => 0) stockedItem
    [(.rename "oat milk", 200), (.rename "soy milk", 200)] [2, 3]
    (.loaded (show stockedStorage.findById ⟨7⟩ = some stockedItem by decide +kernel)
      (by decide +kernel))
    (by decide) (by decide) (by decide) (by decide) (by decide) (by decide)).2.1

/-- **A new item edited before its creation**, by a clock that was set back in between: the edit
holds in memory, and the creation overwrites it in the rebuilt row. -/
theorem edit_before_creation :
    let storage := ItemStorage.new ⟨"A"⟩
    let log := DeviceEventLog.new
    let item := Item.create ⟨7⟩ "milk" 2 100
    let edits : List Edit := [(.rename "oat milk", 50)]
    let ids : List Uuid := [1, 2]
    let stored := storage.store log (fun _ => 0) (item.edit edits) ids
    storage.Editable log item ∧
      (edits.Pairwise fun a b => a.2 ≤ b.2) ∧
      (∀ first ∈ edits.head?, ∀ e ∈ log.entries, e.entityId = item.id →
        e.replicaTimeMs < first.2) ∧
      ids.length = (item.edit edits).uncommitted.length ∧ ids.Nodup ∧ (∀ i ∈ ids, i ∉ log.ids) ∧
      stored.2.2.deleted = false ∧ stored.2.2.name = "oat milk" ∧
      (stored.1.findById item.id).map Item.name = some "milk" ∧
      stored.1.findById item.id ≠ some stored.2.2 := by
  refine ⟨.created "milk" 2 100 (by decide), ?_⟩
  decide +kernel

end OfflineSync
