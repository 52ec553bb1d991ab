import OfflineSync.Listing
import OfflineSync.UuidText

/-!
# Items as others see them

`ItemView` of `client-sdk/src/ffi.rs` and `ItemDto` of `backend/src/server.rs`, the flattened items
that the app and the readers of the server get. `ShowsRows` is what a list of them should be.
-/

namespace OfflineSync

/-- `ItemView`: a flattened item. -/
structure ItemView where
  id : String
  name : String
  quantity : ℤ
  note : Option String
deriving DecidableEq, Repr

/-- `ItemView::from`. -/
def ItemView.ofItem (text : UuidText) (item : Item) : ItemView where
  id := text.print item.id.val
  name := item.name
  quantity := item.quantity
  note := item.note

/-- `ItemDto`, which has the same fields. -/
abbrev ItemDto : Type := ItemView

/-- `ItemDto::from`. -/
def ItemDto.ofItem (text : UuidText) (item : Item) : ItemDto :=
  ItemView.ofItem text item

/-- `items` shows the given rows, each once, in the order of their names. -/
structure ShowsRows (text : UuidText) (row : ItemId → Option Item) (items : List ItemView) :
    Prop where
  ordered : items.Pairwise fun a b => a.name ≤ b.name
  rows : ∀ view, view ∈ items ↔ ∃ id item, row id = some item ∧ view = .ofItem text item
  once : (items.map ItemView.id).Nodup

private theorem ItemId.print_injective (text : UuidText) :
    Function.Injective fun id : ItemId => text.print id.val := fun _ _ h =>
  congrArg ItemId.mk (text.print_injective h)

/-- What `find_all` returns shows the rows of the table. -/
theorem ItemStorage.Keyed.showsRows {storage : ItemStorage} (h : storage.Keyed) (text : UuidText) :
    ShowsRows text storage.findById (storage.findAll.map (ItemView.ofItem text)) where
  ordered := by
    rw [List.pairwise_map]
    exact pairwise_sortByKey Item.name (storage.matching .empty)
  rows view := by
    rw [List.mem_map]
    constructor
    · rintro ⟨item, hitem, rfl⟩
      obtain ⟨⟨id, hrow⟩, -⟩ := ItemStorage.mem_find_iff.mp hitem
      exact ⟨id, item, hrow, rfl⟩
    · rintro ⟨id, item, hrow, rfl⟩
      exact ⟨item, ItemStorage.mem_find_iff.mpr ⟨⟨id, hrow⟩, rfl⟩, rfl⟩
  once := by
    have hperm : storage.findAll.Perm (storage.matching .empty) := sortByKey_perm Item.name _
    have hnodup := (hperm.map Item.id).nodup_iff.mpr (h.nodup_ids .empty)
    have hids : (storage.findAll.map (ItemView.ofItem text)).map ItemView.id
        = (storage.findAll.map Item.id).map fun id => text.print id.val := by
      rw [List.map_map, List.map_map]
      rfl
    rw [hids]
    exact hnodup.map (ItemId.print_injective text)

/-- An item without a row is not shown. -/
theorem ShowsRows.notMem {text : UuidText} {row : ItemId → Option Item} {items : List ItemView}
    (h : ShowsRows text row items) (hkeyed : ∀ id item, row id = some item → item.id = id)
    {id : ItemId} (hnone : row id = none) : text.print id.val ∉ items.map ItemView.id := by
  intro hmem
  obtain ⟨view, hview, hid⟩ := List.mem_map.mp hmem
  obtain ⟨id', item, hrow, rfl⟩ := (h.rows view).mp hview
  have heq : id' = id := by
    rw [← hkeyed id' item hrow]
    exact ItemId.print_injective text hid
  rw [heq, hnone] at hrow
  cases hrow

end OfflineSync
