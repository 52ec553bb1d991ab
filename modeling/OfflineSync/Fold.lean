import OfflineSync.ItemStorage
import OfflineSync.Lib.LastWrite

/-!
# What the fold of a history computes

`build_from_history` goes once through the events of an item, each of which overwrites some
fields, and stops at the first deletion. Read by fields it is four registers with a last writer:
each field has the value of the event with the greatest order key among those that write it, up
to the first deletion (`buildFromHistory_lastWrite`). A creation writes name and quantity but not
the note, so it never takes a note back.
-/

namespace OfflineSync

namespace ItemEvent

/-- The name an event writes. -/
def name? : ItemEvent → Option String
  | .created name _ | .renamed name => some name
  | _ => none

/-- The quantity an event writes. -/
def quantity? : ItemEvent → Option ℤ
  | .created _ quantity | .quantityChanged quantity => some quantity
  | _ => none

/-- The note an event writes, which may be the absence of a note. -/
def note? : ItemEvent → Option (Option String)
  | .noteChanged note => some note
  | _ => none

end ItemEvent

/-- The events of a history up to and including the first deletion. -/
def untilDeletion : List ItemDescriptor → List ItemDescriptor
  | [] => []
  | e :: events => if e.payload = .deleted then [e] else e :: untilDeletion events

private theorem untilDeletion_isPrefix (events : List ItemDescriptor) :
    untilDeletion events <+: events := by
  induction events with
  | nil => exact List.prefix_rfl
  | cons e events ih =>
    rw [untilDeletion]
    split_ifs
    · exact List.prefix_append [e] events
    · exact List.cons_prefix_cons.mpr ⟨rfl, ih⟩

namespace Item

/-- A deleted item stays as it is. -/
private theorem foldl_applyDescriptor_of_deleted {item : Item} (h : item.deleted = true)
    (events : List ItemDescriptor) : events.foldl applyDescriptor item = item := by
  induction events with
  | nil => rfl
  | cons e events ih => rw [List.foldl_cons, applyDescriptor, applyEvent_of_deleted h, ih]

/-- One event, field by field. -/
private theorem applyEvent_eq {item : Item} (h : item.deleted = false) (event : ItemEvent) (t : ℤ) :
    item.applyEvent event t = { item with
      name := event.name?.getD item.name
      quantity := event.quantity?.getD item.quantity
      note := event.note?.getD item.note
      deleted := event = .deleted
      lastModifiedMs := t } := by
  rw [applyEvent, if_neg (by rw [h]; exact Bool.false_ne_true)]
  cases event <;> simp [ItemEvent.name?, ItemEvent.quantity?, ItemEvent.note?, h]

/-- **A history, field by field**: each field is a register of its own, cut at the first
deletion. -/
theorem foldl_applyDescriptor_eq {item : Item} (h : item.deleted = false)
    (events : List ItemDescriptor) : events.foldl applyDescriptor item = { item with
      name := lastWrite (fun e => e.payload.name?) item.name (untilDeletion events)
      quantity := lastWrite (fun e => e.payload.quantity?) item.quantity (untilDeletion events)
      note := lastWrite (fun e => e.payload.note?) item.note (untilDeletion events)
      deleted := decide (∃ e ∈ events, e.payload = .deleted)
      lastModifiedMs :=
        lastWrite (fun e => some e.replicaTimeMs) item.lastModifiedMs (untilDeletion events) } := by
  induction events generalizing item with
  | nil =>
    cases item
    simp_all [untilDeletion]
  | cons e events ih =>
    rw [List.foldl_cons, applyDescriptor, applyEvent_eq h, untilDeletion]
    by_cases hdel : e.payload = .deleted
    · rw [foldl_applyDescriptor_of_deleted (by simpa using hdel), if_pos hdel]
      simp [hdel]
    · rw [ih (by simpa using hdel), if_neg hdel]
      simp [hdel]

/-- The start of the fold: the id of the first event, and every field at its default. -/
theorem buildFromHistory_eq_foldl {events : List ItemDescriptor} {id : ItemId}
    (hne : events ≠ []) (h : ∀ e ∈ events, e.entityId = id) :
    buildFromHistory events = events.foldl applyDescriptor { id := id } := by
  obtain ⟨e, rest, rfl⟩ := List.exists_cons_of_ne_nil hne
  rw [buildFromHistory, List.head?_cons]
  dsimp only
  rw [h e List.mem_cons_self]

end Item

/-- Distinct ids put the events of a history in strictly increasing order. -/
private theorem pairwise_lt_sortEvents {l : List ItemDescriptor} (h : (eventIds l).Nodup) :
    (sortEvents l).Pairwise fun a b => orderKey a < orderKey b := by
  refine pairwise_lt_sortByKey ((List.pairwise_map.mpr ?_ : (l.map orderKey).Nodup))
  exact (List.pairwise_map.mp h).imp fun hne heq => hne (replicaEventId_eq_of_orderKey_eq heq)

/-- **The fold is last-writer-wins in each field, cut at the first deletion.** For the events of
one item with distinct ids, in any order, let `P` be those up to the first deletion in canonical
order. A deletion anywhere deletes; each field has what the event of `P` with the greatest order
key wrote to it, or its default; the last modification is the latest time in `P`. -/
theorem buildFromHistory_lastWrite (L : List ItemDescriptor) (id : ItemId)
    (hid : ∀ e ∈ L, e.entityId = id) (hnd : (eventIds L).Nodup) :
    let P := untilDeletion (sortEvents L)
    let item := Item.buildFromHistory (sortEvents L)
    (item.deleted = true ↔ ∃ e ∈ L, e.payload = .deleted) ∧
      IsLastWrite orderKey (fun e => e.payload.name?) "" P item.name ∧
      IsLastWrite orderKey (fun e => e.payload.quantity?) 0 P item.quantity ∧
      IsLastWrite orderKey (fun e => e.payload.note?) none P item.note ∧
      ((P = [] ∧ item.lastModifiedMs = 0) ∨
        ∃ e ∈ P, item.lastModifiedMs = e.replicaTimeMs ∧
          ∀ e' ∈ P, e'.replicaTimeMs ≤ e.replicaTimeMs) ∧
      (L ≠ [] → item.id = id) ∧ item.uncommitted = [] := by
  intro P item
  have hsorted : P.Pairwise fun a b => orderKey a < orderKey b :=
    (pairwise_lt_sortEvents hnd).sublist (untilDeletion_isPrefix _).sublist
  have hmem : ∀ {e}, e ∈ sortEvents L ↔ e ∈ L := mem_sortByKey
  have hitem : ∃ id', item = (sortEvents L).foldl Item.applyDescriptor { id := id' } := by
    by_cases hnil : sortEvents L = []
    · exact ⟨{}, by rw [show item = Item.buildFromHistory (sortEvents L) from rfl, hnil]; rfl⟩
    · exact ⟨id, Item.buildFromHistory_eq_foldl hnil fun e he => hid e (hmem.mp he)⟩
  obtain ⟨id', hitem⟩ := hitem
  rw [Item.foldl_applyDescriptor_eq rfl] at hitem
  refine ⟨?_, ?_, ?_, ?_, ?_, fun hne => ?_, Item.buildFromHistory_uncommitted _⟩
  · rw [Item.buildFromHistory_deleted_iff]
    exact exists_congr fun e => and_congr_left fun _ => hmem
  · rw [hitem]
    exact isLastWrite_lastWrite hsorted _ _
  · rw [hitem]
    exact isLastWrite_lastWrite hsorted _ _
  · rw [hitem]
    exact isLastWrite_lastWrite hsorted _ _
  · -- every event writes its time, and a greater key has no smaller time
    have htime : IsLastWrite orderKey (fun e : ItemDescriptor => some e.replicaTimeMs) 0 P
        item.lastModifiedMs := by
      rw [hitem]
      exact isLastWrite_lastWrite hsorted _ _
    rcases htime with ⟨e, he, hv, hlast⟩ | ⟨hnone, hv⟩
    · refine .inr ⟨e, he, (Option.some.inj hv).symm, fun e' he' => ?_⟩
      rcases hlast e' he' (Option.some_ne_none _) with rfl | hlt
      · exact le_rfl
      · rcases orderKey_lt_iff.mp hlt with hlt | ⟨heq, -⟩
        · exact hlt.le
        · exact heq.le
    · refine .inl ⟨List.eq_nil_iff_forall_not_mem.mpr fun e he => ?_, hv⟩
      exact absurd (hnone e he) (Option.some_ne_none _)
  · refine Item.buildFromHistory_id (fun hnil => hne ?_) fun e he => hid e (hmem.mp he)
    exact sortByKey_eq_nil.mp hnil

/-- Two devices edit an item, one of them after the other has deleted it. -/
def contestedHistory : List ItemDescriptor :=
  [⟨4, 1, 400, "B", none, none, ⟨7⟩, .renamed "oat milk"⟩,
    ⟨3, 1, 300, "A", none, none, ⟨7⟩, .deleted⟩,
    ⟨2, 1, 200, "B", none, none, ⟨7⟩, .noteChanged (some "two for one")⟩,
    ⟨1, 1, 100, "A", none, none, ⟨7⟩, .created "milk" 2⟩]

theorem buildFromHistory_lastWrite_contestedHistory :
    IsLastWrite orderKey (fun e => e.payload.name?) ""
      (untilDeletion (sortEvents contestedHistory))
      (Item.buildFromHistory (sortEvents contestedHistory)).name :=
  (buildFromHistory_lastWrite contestedHistory ⟨7⟩ (by decide) (by decide)).2.1

end OfflineSync
