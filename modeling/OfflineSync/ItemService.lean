import OfflineSync.ItemView
import OfflineSync.OptimisticStore

/-!
# The item service

`client-sdk/src/item_service.rs` and the layer over it in `client-sdk/src/ffi.rs`, called from the
app: every call loads an item, changes it and stores it, and what it leaves is a log of events and
rows rebuilt from it. The calls of one session follow one another here; `Device` has the
interleaving of their steps.

`Shelf` is what the app may think it is working on: a table of names, quantities and notes, that is
written in place. `shelf_of_session` says that it cannot tell the difference, as long as the clock
goes on from call to call: whatever it calls, with ids of items there are or with any other text,
the items listed afterwards are those of a shelf on which the same was done.
-/

namespace OfflineSync

/-! ### The service -/

/-- `EventSourcedStores`. -/
structure EventSourcedStores where
  replicaId : String
  itemLog : DeviceEventLog
  itemStorage : ItemStorage

/-- `EventSourcedStores::new`. -/
def EventSourcedStores.new (replicaId : String) : EventSourcedStores where
  replicaId := replicaId
  itemLog := .new
  itemStorage := .new ⟨replicaId⟩

/-- `ItemStorage::store` over the log of the stores, of an item with one event to store. -/
def EventSourcedStores.store (stores : EventSourcedStores) (item : Item) (eventId : Uuid) :
    EventSourcedStores :=
  let stored := stores.itemStorage.store stores.itemLog (fun _ => 0) item [eventId]
  { stores with itemLog := stored.2.1, itemStorage := stored.1 }

/-- What a call draws as it runs: a clock reading, and ids for a new item and a new event. -/
structure Draws where
  nowMs : ℤ
  itemId : ItemId
  eventId : Uuid

namespace SdkItemService

/-- `SdkItemService::create_item`. -/
def createItem (stores : EventSourcedStores) (draws : Draws) (name : String) (quantity : ℤ) :
    EventSourcedStores × ItemId :=
  let item := Item.create draws.itemId name quantity draws.nowMs
  (stores.store item draws.eventId, item.id)

/-- What the mutations do: find the item, carry out the operation, and store it. -/
def mutate (op : Operation) (stores : EventSourcedStores) (draws : Draws) (id : ItemId) :
    EventSourcedStores :=
  match stores.itemStorage.findById id with
  | some item => stores.store (op.apply item draws.nowMs) draws.eventId
  | none => stores

/-- `SdkItemService::set_quantity`. -/
def setQuantity (stores : EventSourcedStores) (draws : Draws) (id : ItemId) (quantity : ℤ) :
    EventSourcedStores :=
  mutate (.setQuantity quantity) stores draws id

/-- `SdkItemService::rename`. -/
def rename (stores : EventSourcedStores) (draws : Draws) (id : ItemId) (name : String) :
    EventSourcedStores :=
  mutate (.rename name) stores draws id

/-- `SdkItemService::set_note`. -/
def setNote (stores : EventSourcedStores) (draws : Draws) (id : ItemId) (note : Option String) :
    EventSourcedStores :=
  mutate (.setNote note) stores draws id

/-- `SdkItemService::delete`. -/
def delete (stores : EventSourcedStores) (draws : Draws) (id : ItemId) : EventSourcedStores :=
  mutate .delete stores draws id

/-- `SdkItemService::items`. -/
def items (stores : EventSourcedStores) : List Item :=
  stores.itemStorage.findAll

end SdkItemService

namespace ItemService

variable (text : UuidText)

/-- `parse_id`. -/
def parseId (s : String) : Option ItemId :=
  (text.parse s).map ItemId.mk

/-- `ItemService::create_item`. -/
def createItem (stores : EventSourcedStores) (draws : Draws) (name : String) (quantity : ℤ) :
    EventSourcedStores × String :=
  let created := SdkItemService.createItem stores draws name quantity
  (created.1, text.print created.2.val)

/-- `ItemService::set_quantity`. -/
def setQuantity (stores : EventSourcedStores) (draws : Draws) (id : String) (quantity : ℤ) :
    EventSourcedStores :=
  match parseId text id with
  | some id => SdkItemService.setQuantity stores draws id quantity
  | none => stores

/-- `ItemService::rename`. -/
def rename (stores : EventSourcedStores) (draws : Draws) (id : String) (name : String) :
    EventSourcedStores :=
  match parseId text id with
  | some id => SdkItemService.rename stores draws id name
  | none => stores

/-- `ItemService::set_note`. -/
def setNote (stores : EventSourcedStores) (draws : Draws) (id : String) (note : Option String) :
    EventSourcedStores :=
  match parseId text id with
  | some id => SdkItemService.setNote stores draws id note
  | none => stores

/-- `ItemService::delete`. -/
def delete (stores : EventSourcedStores) (draws : Draws) (id : String) : EventSourcedStores :=
  match parseId text id with
  | some id => SdkItemService.delete stores draws id
  | none => stores

/-- `ItemService::items`. -/
def items (stores : EventSourcedStores) : List ItemView :=
  (SdkItemService.items stores).map (ItemView.ofItem text)

end ItemService

/-- A call from the app. The ids are whatever text it passes. -/
inductive ServiceCall
  | createItem (name : String) (quantity : ℤ)
  | setQuantity (id : String) (quantity : ℤ)
  | rename (id : String) (name : String)
  | setNote (id : String) (note : Option String)
  | delete (id : String)
deriving DecidableEq, Repr

namespace ServiceCall

variable (text : UuidText)

/-- What a call does to the stores. -/
def run (stores : EventSourcedStores) (draws : Draws) : ServiceCall → EventSourcedStores
  | .createItem name quantity => (ItemService.createItem text stores draws name quantity).1
  | .setQuantity id quantity => ItemService.setQuantity text stores draws id quantity
  | .rename id name => ItemService.rename text stores draws id name
  | .setNote id note => ItemService.setNote text stores draws id note
  | .delete id => ItemService.delete text stores draws id

/-- The item that a call is about, if it is about one. -/
def item (draws : Draws) : ServiceCall → Option ItemId
  | .createItem _ _ => some draws.itemId
  | .setQuantity id _ | .rename id _ | .setNote id _ | .delete id => ItemService.parseId text id

end ServiceCall

/-- The stores after the calls of a session. -/
def EventSourcedStores.session (text : UuidText) (stores : EventSourcedStores)
    (calls : List (Draws × ServiceCall)) : EventSourcedStores :=
  calls.foldl (fun stores call => call.2.run text stores call.1) stores

/-! ### A table that is written in place -/

/-- What the app sees of an item. -/
structure Card where
  name : String
  quantity : ℤ
  note : Option String
deriving DecidableEq, Repr

/-- The card of an item. -/
def Item.card (item : Item) : Card where
  name := item.name
  quantity := item.quantity
  note := item.note

/-- The items of the app, as it would keep them itself. -/
abbrev Shelf : Type := ItemId → Option Card

namespace Shelf

/-- Change the card of an item that there is. -/
def change (shelf : Shelf) (id : ItemId) (f : Card → Card) : Shelf :=
  Function.update shelf id ((shelf id).map f)

/-- What a call should do to a shelf; text that is no id names no item. -/
def call (text : UuidText) (shelf : Shelf) (draws : Draws) : ServiceCall → Shelf
  | .createItem name quantity => Function.update shelf draws.itemId (some ⟨name, quantity, none⟩)
  | .setQuantity id quantity =>
    match ItemService.parseId text id with
    | some id => shelf.change id fun card => { card with quantity }
    | none => shelf
  | .rename id name =>
    match ItemService.parseId text id with
    | some id => shelf.change id fun card => { card with name }
    | none => shelf
  | .setNote id note =>
    match ItemService.parseId text id with
    | some id => shelf.change id fun card => { card with note }
    | none => shelf
  | .delete id =>
    match ItemService.parseId text id with
    | some id => Function.update shelf id none
    | none => shelf

/-- The shelf after the calls of a session. -/
def session (text : UuidText) (shelf : Shelf) (calls : List (Draws × ServiceCall)) : Shelf :=
  calls.foldl (fun shelf call => shelf.call text call.1 call.2) shelf

end Shelf

/-- The shelf that the rows of the stores show. -/
def EventSourcedStores.shelf (stores : EventSourcedStores) : Shelf := fun id =>
  (stores.itemStorage.findById id).map Item.card

/-! ### Calls, uniformly -/

/-- What an operation makes of a card. -/
def Operation.onCard : Operation → Card → Option Card
  | .setQuantity quantity, card => some { card with quantity }
  | .rename name, card => some { card with name }
  | .setNote note, card => some { card with note }
  | .delete, _ => none

/-- The operation of a mutation. -/
def ServiceCall.operation : ServiceCall → Option Operation
  | .createItem _ _ => none
  | .setQuantity _ quantity => some (.setQuantity quantity)
  | .rename _ name => some (.rename name)
  | .setNote _ note => some (.setNote note)
  | .delete _ => some .delete

section Mutations

variable {text : UuidText} {call : ServiceCall} {op : Operation} {draws : Draws}

private theorem ServiceCall.run_mutation (h : call.operation = some op)
    (stores : EventSourcedStores) : call.run text stores draws = match call.item text draws with
      | some id => SdkItemService.mutate op stores draws id
      | none => stores := by
  cases call with
  | createItem => cases h
  | setQuantity | rename | setNote | delete =>
    obtain rfl := Option.some.inj h
    rfl

private theorem Shelf.call_mutation (h : call.operation = some op) (shelf : Shelf) :
    shelf.call text draws call = match call.item text draws with
      | some id => Function.update shelf id ((shelf id).bind op.onCard)
      | none => shelf := by
  cases call with
  | createItem => cases h
  | setQuantity id | rename id | setNote id | delete id =>
    obtain rfl := Option.some.inj h
    simp only [Shelf.call, ServiceCall.item]
    cases ItemService.parseId text id with
    | none => rfl
    | some id =>
      simp only [Shelf.change]
      cases shelf id <;> rfl

end Mutations

/-! ### One call -/

private theorem rowAt_deleted {l : List ItemDescriptor} {id : ItemId} {item : Item}
    (h : rowAt l id = some item) : item.deleted = false := by
  simp only [rowAt, rowOf] at h
  split_ifs at h with hnil hdel
  obtain rfl := Option.some.inj h
  exact Bool.eq_false_iff.mpr hdel

/-- An edit in memory does to the card what the operation does to it. -/
private theorem Item.card_edit {item : Item} (h : item.deleted = false) (op : Operation)
    (nowMs : ℤ) : (if (item.edit [(op, nowMs)]).drained.deleted then none
      else some (item.edit [(op, nowMs)]).drained).map Item.card = op.onCard item.card := by
  cases op <;>
    simp [Item.edit, Item.drained, Operation.apply, Item.setQuantity, Item.rename, Item.setNote,
      Item.delete, Item.newEvent, Item.applyEvent, h, Operation.onCard, Item.card]

/-- The rows of the stores are rebuilt from their log, and its ids are distinct. -/
structure EventSourcedStores.Sound (stores : EventSourcedStores) : Prop where
  nodup : stores.itemLog.ids.Nodup
  row : ∀ id, stores.itemStorage.findById id = rowAt stores.itemLog.entries id

namespace EventSourcedStores

variable {stores : EventSourcedStores} {text : UuidText} {draws : Draws} {call : ServiceCall}

private theorem sound_new (replicaId : String) : (new replicaId).Sound where
  nodup := List.nodup_nil
  row := fun _ => rfl

/-- What a call adds to the log: nothing, or an event of the item that it is about. -/
def Records (text : UuidText) (draws : Draws) (call : ServiceCall)
    (log log' : DeviceEventLog) : Prop :=
  log' = log ∨ ∃ e, log'.entries = log.entries ++ [e] ∧ e.replicaEventId = draws.eventId ∧
    e.replicaTimeMs = draws.nowMs ∧ call.item text draws = some e.entityId ∧
    (e.entityId = draws.itemId ∨ ∃ e' ∈ log.entries, e'.entityId = e.entityId)

/-- A store of an item with one change. -/
private theorem Sound.store (h : stores.Sound) {item : Item} (edits : List Edit)
    {change : EntityEvent ItemEvent} {eventId : Uuid}
    (hitem : stores.itemStorage.Editable stores.itemLog item)
    (hone : item.uncommitted ++ edits.map Edit.change = [change])
    (hlater : ∀ e ∈ stores.itemLog.entries, e.entityId = item.id →
      e.replicaTimeMs < change.modifiedAtMs)
    (hfresh : eventId ∉ stores.itemLog.ids) :
    let stores' := stores.store (item.edit edits) eventId
    stores'.Sound ∧
      (∃ e, stores'.itemLog.entries = stores.itemLog.entries ++ [e] ∧
        e.replicaEventId = eventId ∧ e.replicaTimeMs = change.modifiedAtMs ∧
        e.entityId = item.id) ∧
      stores'.shelf = Function.update stores.shelf item.id
        ((if (item.edit edits).drained.deleted then none
          else some (item.edit edits).drained).map Item.card) := by
  intro stores'
  have hchanges : (item.edit edits).uncommitted = [change] :=
    (item.edit_uncommitted edits).trans hone
  have hstored : stores.itemStorage.store stores.itemLog (fun _ => 0) (item.edit edits) [eventId]
      = _ := ItemStorage.store_of_fresh stores.itemStorage (fun _ => 0) (by rw [hchanges]; rfl)
    (List.nodup_singleton _) (fun i hi => List.mem_singleton.mp hi ▸ hfresh)
  rw [item.edit_id, hchanges] at hstored
  have habove : ∀ c ∈ (item.uncommitted ++ edits.map Edit.change).head?,
      ∀ e ∈ stores.itemLog.entries, e.entityId = item.id → e.replicaTimeMs < c.modifiedAtMs := by
    rw [hone]
    rintro c hc e he hid
    obtain rfl := Option.some.inj hc
    exact hlater e he hid
  have hlength : [eventId].length = (item.uncommitted ++ edits.map Edit.change).length := by
    rw [hone]
    rfl
  have hrow := hitem.rowAt_stored stores.itemStorage.replicaIdProvider.get
    (by rw [hone]; exact List.pairwise_singleton _ _) habove hlength
  rw [hone] at hrow
  set new := storedEvents stores.itemStorage.replicaIdProvider.get item.id [eventId] [change]
    with hnew
  have hentries : stores'.itemLog.entries = stores.itemLog.entries ++ new :=
    congrArg (fun stored => stored.2.1.entries) hstored
  have hstorage : stores'.itemStorage = stores.itemStorage.project item.id
      (eventsOf (stores.itemLog.entries ++ new) item.id) := congrArg Prod.fst hstored
  have hself : stores'.itemStorage.findById item.id
      = rowAt (stores.itemLog.entries ++ new) item.id := by
    rw [hstorage]
    exact ItemTable.lookup_setRow_self _ _ _
  have hother : ∀ id ≠ item.id,
      stores'.itemStorage.findById id = stores.itemStorage.findById id := by
    intro id hid
    rw [hstorage]
    exact ItemTable.lookup_setRow_of_ne _ _ hid
  refine ⟨⟨?_, fun id => ?_⟩, ⟨_, hentries, rfl, rfl, rfl⟩, funext fun id => ?_⟩
  · rw [DeviceEventLog.ids, hentries, eventIds_append]
    exact List.nodup_append_comm.mp (List.nodup_cons.mpr ⟨hfresh, h.nodup⟩)
  · rw [hentries]
    by_cases hid : id = item.id
    · rw [hid, hself]
    · rw [hother id hid, h.row id]
      refine (rowAt_append_of_ne fun e he => ?_).symm
      rw [(mem_storedEvents he).2.1]
      exact Ne.symm hid
  · by_cases hid : id = item.id
    · rw [hid, Function.update_self, shelf, hself, hrow]
    · rw [Function.update_of_ne hid, shelf, hother id hid]
      rfl

/-- **One call** does to the shelf what it should, when its clock reading is later than those of the
item it is about and what it draws is new. -/
theorem Sound.run (h : stores.Sound)
    (hlater : ∀ e ∈ stores.itemLog.entries, call.item text draws = some e.entityId →
      e.replicaTimeMs < draws.nowMs)
    (hunused : ∀ e ∈ stores.itemLog.entries, e.entityId ≠ draws.itemId)
    (hfresh : draws.eventId ∉ stores.itemLog.ids) :
    (call.run text stores draws).Sound ∧
      (call.run text stores draws).shelf = stores.shelf.call text draws call ∧
      Records text draws call stores.itemLog (call.run text stores draws).itemLog := by
  cases hop : call.operation with
  | none =>
    cases call with
    | createItem name quantity =>
      obtain ⟨hsound, ⟨e, hentries, heid, htime, hid⟩, hshelf⟩ := h.store []
        (.created name quantity draws.nowMs hunused) rfl
        (fun e he hid => absurd hid (hunused e he)) hfresh
      exact ⟨hsound, hshelf,
        .inr ⟨e, hentries, heid, htime, congrArg some hid.symm, .inl hid⟩⟩
    | setQuantity | rename | setNote | delete => cases hop
  | some op =>
    rw [ServiceCall.run_mutation hop, Shelf.call_mutation hop]
    cases hitem : call.item text draws with
    | none => exact ⟨h, rfl, .inl rfl⟩
    | some id =>
      simp only [SdkItemService.mutate]
      cases hfound : stores.itemStorage.findById id with
      | none =>
        refine ⟨h, ?_, .inl rfl⟩
        have hnone : stores.shelf id = none := congrArg (Option.map Item.card) hfound
        rw [hnone]
        exact (Function.update_eq_self_iff.mpr hnone.symm).symm
      | some item =>
        have hrow := (h.row id).symm.trans hfound
        obtain rfl := rowAt_id hrow
        have hone : item.uncommitted ++ [(op, draws.nowMs)].map Edit.change
            = [⟨op.event, draws.nowMs⟩] := by
          rw [rowAt_uncommitted hrow]
          rfl
        obtain ⟨hsound, ⟨e, hentries, heid, htime, hid⟩, hshelf⟩ := h.store _
          (.loaded hfound hrow) hone (fun e he hid => hlater e he (hid ▸ hitem)) hfresh
        rw [Item.card_edit (rowAt_deleted hrow)] at hshelf
        have hcard : stores.shelf item.id = some item.card :=
          congrArg (Option.map Item.card) hfound
        refine ⟨hsound, ?_, .inr ⟨e, hentries, heid, htime, hid ▸ hitem, .inr ?_⟩⟩
        · rw [hcard]
          exact hshelf
        · obtain ⟨e', he', hid'⟩ := exists_mem_of_rowAt hrow
          exact ⟨e', he', hid'.trans hid.symm⟩

/-! ### A session -/

/-- What the calls of a session draw. Two calls about one item come with increasing clock readings,
above those of its events in the log, and no id is drawn that was there before. -/
structure Session (text : UuidText) (log : DeviceEventLog) (calls : List (Draws × ServiceCall)) :
    Prop where
  clock : calls.Pairwise fun c c' => ∀ id, c.2.item text c.1 = some id →
    c'.2.item text c'.1 = some id → c.1.nowMs < c'.1.nowMs
  later : ∀ c ∈ calls, ∀ e ∈ log.entries, c.2.item text c.1 = some e.entityId →
    e.replicaTimeMs < c.1.nowMs
  itemIds : calls.Pairwise fun c c' => c.1.itemId ≠ c'.1.itemId
  unused : ∀ c ∈ calls, ∀ e ∈ log.entries, e.entityId ≠ c.1.itemId
  eventIds : calls.Pairwise fun c c' => c.1.eventId ≠ c'.1.eventId
  fresh : ∀ c ∈ calls, c.1.eventId ∉ log.ids

/-- The rest of a session goes on from what its first call recorded. -/
private theorem Session.tail {log log' : DeviceEventLog} {c : Draws × ServiceCall}
    {calls : List (Draws × ServiceCall)} (h : Session text log (c :: calls))
    (hrecords : Records text c.1 c.2 log log') : Session text log' calls := by
  obtain ⟨hclock, hclocks⟩ := List.pairwise_cons.mp h.clock
  obtain ⟨hitemId, hitemIds⟩ := List.pairwise_cons.mp h.itemIds
  obtain ⟨heventId, heventIds⟩ := List.pairwise_cons.mp h.eventIds
  rcases hrecords with rfl | ⟨e, hentries, heid, htime, hitem, hentity⟩
  · exact ⟨hclocks, fun c hc => h.later c (List.mem_cons_of_mem _ hc), hitemIds,
      fun c hc => h.unused c (List.mem_cons_of_mem _ hc), heventIds,
      fun c hc => h.fresh c (List.mem_cons_of_mem _ hc)⟩
  · refine ⟨hclocks, fun c' hc' e' he' hid => ?_, hitemIds, fun c' hc' e' he' => ?_, heventIds,
      fun c' hc' hmem => ?_⟩
    · rw [hentries, List.mem_append, List.mem_singleton] at he'
      rcases he' with he' | rfl
      · exact h.later c' (List.mem_cons_of_mem _ hc') e' he' hid
      · exact htime ▸ hclock c' hc' _ hitem hid
    · rw [hentries, List.mem_append, List.mem_singleton] at he'
      rcases he' with he' | rfl
      · exact h.unused c' (List.mem_cons_of_mem _ hc') e' he'
      · -- the new event is of an item just made, or of one that the log had
        rcases hentity with hnew | ⟨old, hold, hid⟩
        · exact hnew ▸ hitemId c' hc'
        · exact hid ▸ h.unused c' (List.mem_cons_of_mem _ hc') old hold
    · rw [DeviceEventLog.ids, hentries, eventIds_append, List.mem_append] at hmem
      rcases hmem with hmem | hmem
      · exact h.fresh c' (List.mem_cons_of_mem _ hc') hmem
      · exact heventId c' hc' ((heid.symm.trans (List.mem_singleton.mp hmem).symm))

private theorem Sound.session (h : stores.Sound) {calls : List (Draws × ServiceCall)}
    (hcalls : Session text stores.itemLog calls) :
    (stores.session text calls).Sound ∧
      (stores.session text calls).shelf = stores.shelf.session text calls := by
  induction calls generalizing stores with
  | nil => exact ⟨h, rfl⟩
  | cons c calls ih =>
    have hc : c ∈ c :: calls := List.mem_cons_self
    obtain ⟨hsound, hshelf, hrecords⟩ :=
      h.run (hcalls.later c hc) (hcalls.unused c hc) (hcalls.fresh c hc)
    obtain ⟨hsound', hshelf'⟩ := ih hsound (hcalls.tail hrecords)
    refine ⟨hsound', hshelf'.trans ?_⟩
    rw [hshelf]
    rfl

end EventSourcedStores

/-- The list of the items on a shelf, as the app gets it. -/
structure Shelf.Lists (text : UuidText) (shelf : Shelf) (views : List ItemView) : Prop where
  ordered : views.Pairwise fun a b => a.name ≤ b.name
  cards : ∀ view, view ∈ views ↔ ∃ id card, shelf id = some card ∧
    view = ⟨text.print id.val, card.name, card.quantity, card.note⟩
  once : (views.map ItemView.id).Nodup

/-- **The event-sourced service is a table, to the app.** From stores whose rows are up to date,
whatever calls a session makes, the rows are up to date again and show what the same calls make of
a shelf that is written in place; and `items` lists that shelf, each item once, by name. -/
theorem shelf_of_session {text : UuidText} {stores : EventSourcedStores} (h : stores.Sound)
    {calls : List (Draws × ServiceCall)}
    (hcalls : EventSourcedStores.Session text stores.itemLog calls) :
    (stores.session text calls).Sound ∧
      (stores.session text calls).shelf = stores.shelf.session text calls ∧
      (stores.shelf.session text calls).Lists text
        (ItemService.items text (stores.session text calls)) := by
  obtain ⟨hsound, hshelf⟩ := h.session hcalls
  have hkeyed : (stores.session text calls).itemStorage.Keyed := fun id _ hitem =>
    rowAt_id ((hsound.row id).symm.trans hitem)
  have hshows := hkeyed.showsRows text
  refine ⟨hsound, hshelf, hshows.ordered, fun view => ?_, hshows.once⟩
  rw [← hshelf]
  refine (hshows.rows view).trans ⟨?_, ?_⟩
  · rintro ⟨id, item, hrow, rfl⟩
    obtain rfl := hkeyed id item hrow
    exact ⟨_, _, congrArg (Option.map Item.card) hrow, rfl⟩
  · rintro ⟨id, card, hcard, rfl⟩
    obtain ⟨item, hrow, rfl⟩ := Option.map_eq_some_iff.mp hcard
    obtain rfl := hkeyed id item hrow
    exact ⟨_, item, hrow, rfl⟩

/-- An item is made and changed, another one deleted, and some text is no id. -/
def editedItems : List (Draws × ServiceCall) :=
  [(⟨100, ⟨7⟩, 1⟩, .createItem "milk" 2), (⟨200, ⟨8⟩, 2⟩, .createItem "eggs" 6),
    (⟨300, ⟨9⟩, 3⟩, .setQuantity (Uuid.toString 7) 5), (⟨400, ⟨10⟩, 4⟩, .delete (Uuid.toString 8)),
    (⟨500, ⟨11⟩, 5⟩, .rename "milk" "cream")]

theorem shelf_of_session_editedItems :
    ((EventSourcedStores.new "A").session .hyphenated editedItems).shelf ⟨7⟩
        = some ⟨"milk", 5, none⟩ ∧
      ((EventSourcedStores.new "A").session .hyphenated editedItems).shelf ⟨8⟩ = none := by
  have hcalls : EventSourcedStores.Session .hyphenated DeviceEventLog.new editedItems := by
    refine ⟨?_, fun _ _ e he => absurd he List.not_mem_nil, by decide,
      fun _ _ e he => absurd he List.not_mem_nil, by decide, fun _ _ => List.not_mem_nil⟩
    have hclock : editedItems.Pairwise fun c c' => c.1.nowMs < c'.1.nowMs := by decide
    exact hclock.imp fun h _ _ _ => h
  obtain ⟨-, hshelf, -⟩ := shelf_of_session (EventSourcedStores.sound_new "A") hcalls
  rw [hshelf]
  decide +kernel

end OfflineSync
