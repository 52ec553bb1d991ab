import OfflineSync.Core

/-!
# The demo domain

`shared/src/item.rs`: an inventory item, the events that can happen to it, and the fold of
its history. The fold is one `applyEvent` per event, guarded by `deleted`, so whatever is
ordered after a deletion is dropped; `buildFromHistory_deleted_iff` is that rule for a whole
history, whatever the position of the deletion. The fold sees an event only through its
payload and its author's clock, so the server's stamps do not matter
(`buildFromHistory_map_unstamped`).
-/

namespace OfflineSync

/-- Everything that can happen to an item, as facts in the past tense. -/
inductive ItemEvent
  | created (name : String) (quantity : ℤ)
  | renamed (name : String)
  | quantityChanged (quantity : ℤ)
  | noteChanged (note : Option String)
  | deleted
deriving DecidableEq, Repr

structure ItemId where
  val : Uuid := 0
deriving DecidableEq, Repr

/-- The current, folded state of an item. -/
structure Item where
  id : ItemId := {}
  name : String := ""
  quantity : ℤ := 0
  note : Option String := none
  /-- Soft delete; terminal. -/
  deleted : Bool := false
  lastModifiedMs : ℤ := 0
  /-- Events recorded in memory and not persisted yet, oldest first. -/
  uncommitted : List (EntityEvent ItemEvent) := []
deriving DecidableEq, Repr

/-- A stored item event. -/
abbrev ItemDescriptor : Type := EventDescriptor ItemEvent ItemId

/-- An appendable item event. -/
abbrev ItemAppend : Type := AppendEvent ItemEvent ItemId

namespace Item

/-- `apply_event`: the next state after one event. Deletion is terminal. -/
def applyEvent (item : Item) (event : ItemEvent) (modifiedAtMs : ℤ) : Item :=
  if item.deleted then item
  else
    let item := { item with lastModifiedMs := modifiedAtMs }
    match event with
    | .created name quantity => { item with name := name, quantity := quantity }
    | .renamed name => { item with name := name }
    | .quantityChanged quantity => { item with quantity := quantity }
    | .noteChanged note => { item with note := note }
    | .deleted => { item with deleted := true }

/-- `new_event`: remember a local change as uncommitted and apply it at once. -/
def newEvent (item : Item) (event : EntityEvent ItemEvent) : Item :=
  { item with uncommitted := item.uncommitted ++ [event] }.applyEvent event.event
    event.modifiedAtMs

/-- `Item::create`. -/
def create (id : ItemId) (name : String) (quantity : ℤ) (nowMs : ℤ) : Item :=
  { ({} : Item) with id := id }.newEvent ⟨.created name quantity, nowMs⟩

/-- `Item::set_quantity`. -/
def setQuantity (item : Item) (quantity : ℤ) (nowMs : ℤ) : Item :=
  item.newEvent ⟨.quantityChanged quantity, nowMs⟩

/-- `Item::rename`. -/
def rename (item : Item) (name : String) (nowMs : ℤ) : Item :=
  item.newEvent ⟨.renamed name, nowMs⟩

/-- `Item::set_note`. -/
def setNote (item : Item) (note : Option String) (nowMs : ℤ) : Item :=
  item.newEvent ⟨.noteChanged note, nowMs⟩

/-- `Item::delete`. -/
def delete (item : Item) (nowMs : ℤ) : Item :=
  item.newEvent ⟨.deleted, nowMs⟩

/-- One pass of the fold's loop. -/
def applyDescriptor (item : Item) (event : ItemDescriptor) : Item :=
  item.applyEvent event.payload event.replicaTimeMs

/-- `build_from_history`: fold a full history, which must be in canonical order. The id is
the entity id of the first event. -/
def buildFromHistory (events : List ItemDescriptor) : Item :=
  let entity : Item := match events.head? with
    | some first => { ({} : Item) with id := first.entityId }
    | none => {}
  events.foldl applyDescriptor entity

/-! ### What one event does -/

theorem applyEvent_of_deleted {item : Item} (h : item.deleted = true) (event : ItemEvent)
    (t : ℤ) : item.applyEvent event t = item :=
  if_pos h

@[simp] theorem applyEvent_id (item : Item) (event : ItemEvent) (t : ℤ) :
    (item.applyEvent event t).id = item.id := by
  unfold applyEvent
  split_ifs
  · rfl
  · cases event <;> rfl

@[simp] theorem applyEvent_uncommitted (item : Item) (event : ItemEvent) (t : ℤ) :
    (item.applyEvent event t).uncommitted = item.uncommitted := by
  unfold applyEvent
  split_ifs
  · rfl
  · cases event <;> rfl

/-- An item is deleted after an event if it was before, or the event deletes it. -/
private theorem applyEvent_deleted_iff {item : Item} {event : ItemEvent} {t : ℤ} :
    (item.applyEvent event t).deleted = true ↔ item.deleted = true ∨ event = .deleted := by
  by_cases h : item.deleted = true
  · simp [applyEvent_of_deleted h, h]
  · cases event <;> simp [applyEvent, h]

/-- A domain operation keeps the item's id. -/
@[simp] theorem newEvent_id (item : Item) (event : EntityEvent ItemEvent) :
    (item.newEvent event).id = item.id :=
  applyEvent_id _ _ _

/-- A domain operation records its event last. -/
@[simp] theorem newEvent_uncommitted (item : Item) (event : EntityEvent ItemEvent) :
    (item.newEvent event).uncommitted = item.uncommitted ++ [event] :=
  applyEvent_uncommitted _ _ _

/-! ### What a history does -/

private theorem foldl_applyDescriptor_id (events : List ItemDescriptor) (item : Item) :
    (events.foldl applyDescriptor item).id = item.id := by
  induction events generalizing item with
  | nil => rfl
  | cons e events ih => rw [List.foldl_cons, ih, applyDescriptor, applyEvent_id]

private theorem foldl_applyDescriptor_uncommitted (events : List ItemDescriptor) (item : Item) :
    (events.foldl applyDescriptor item).uncommitted = item.uncommitted := by
  induction events generalizing item with
  | nil => rfl
  | cons e events ih => rw [List.foldl_cons, ih, applyDescriptor, applyEvent_uncommitted]

private theorem foldl_applyDescriptor_deleted_iff (events : List ItemDescriptor) (item : Item) :
    (events.foldl applyDescriptor item).deleted = true ↔
      item.deleted = true ∨ ∃ e ∈ events, e.payload = .deleted := by
  induction events generalizing item with
  | nil => simp
  | cons e events ih =>
    rw [List.foldl_cons, ih, applyDescriptor, applyEvent_deleted_iff, or_assoc]
    simp only [List.mem_cons, exists_eq_or_imp]

private theorem foldl_applyDescriptor_map_unstamped (events : List ItemDescriptor) (item : Item) :
    (events.map EventDescriptor.unstamped).foldl applyDescriptor item
      = events.foldl applyDescriptor item := by
  rw [List.foldl_map]
  rfl

/-- **Deletion wins.** A history folds to a deleted item exactly when it has a deletion,
whatever its position. -/
theorem buildFromHistory_deleted_iff (events : List ItemDescriptor) :
    (buildFromHistory events).deleted = true ↔ ∃ e ∈ events, e.payload = .deleted := by
  rw [buildFromHistory, foldl_applyDescriptor_deleted_iff]
  cases events with
  | nil => simp
  | cons e events => simp

/-- The fold of a non-empty history has the entity id of its first event. -/
theorem buildFromHistory_id {events : List ItemDescriptor} {id : ItemId} (hne : events ≠ [])
    (h : ∀ e ∈ events, e.entityId = id) : (buildFromHistory events).id = id := by
  rw [buildFromHistory, foldl_applyDescriptor_id]
  cases events with
  | nil => exact absurd rfl hne
  | cons e events => exact h e List.mem_cons_self

/-- A rebuilt item has nothing uncommitted. -/
theorem buildFromHistory_uncommitted (events : List ItemDescriptor) :
    (buildFromHistory events).uncommitted = [] := by
  rw [buildFromHistory, foldl_applyDescriptor_uncommitted]
  cases events <;> rfl

/-- The fold does not look at the server's stamps. -/
theorem buildFromHistory_map_unstamped (events : List ItemDescriptor) :
    buildFromHistory (events.map EventDescriptor.unstamped) = buildFromHistory events := by
  rw [buildFromHistory, buildFromHistory, foldl_applyDescriptor_map_unstamped]
  cases events <;> rfl

end Item

end OfflineSync
