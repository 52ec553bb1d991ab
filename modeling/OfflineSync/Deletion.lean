import OfflineSync.Table
import OfflineSync.Backend

/-!
# Deletion

A deletion anywhere in the history of an item leaves it no row (`rowAt_eq_none_of_deleted`),
and nothing is ever taken out of a log. So once a rebuild of the item has read a log with its
deletion, every version of the row is one of a log with the deletion, on a device and on the
server alike, and no row comes back, whatever is appended afterwards: edits with later clocks, a
creation that arrives late, edits of an item that was loaded before the deletion.
-/

namespace OfflineSync

/-- A log holds a deletion of an item. -/
def HasDeletion (l : List ItemDescriptor) (id : ItemId) : Prop :=
  ∃ e ∈ l, e.entityId = id ∧ e.payload = .deleted

instance (l : List ItemDescriptor) (id : ItemId) : Decidable (HasDeletion l id) :=
  inferInstanceAs (Decidable (∃ e ∈ l, e.entityId = id ∧ e.payload = .deleted))

private theorem HasDeletion.mono {l l' : List ItemDescriptor} {id : ItemId} (h : HasDeletion l id)
    (hl : l.map EventDescriptor.unstamped ⊆ l'.map EventDescriptor.unstamped) :
    HasDeletion l' id := by
  obtain ⟨e, he, hid, hdel⟩ := h
  obtain ⟨e', he', heq⟩ := List.mem_map.mp (hl (List.mem_map_of_mem he))
  refine ⟨e', he', ?_, ?_⟩
  · exact (congrArg EventDescriptor.entityId heq).trans hid
  · exact (congrArg EventDescriptor.payload heq).trans hdel

/-- An item is gone from a storage: no lookup and no query returns it. -/
def ItemStorage.Gone (storage : ItemStorage) (id : ItemId) : Prop :=
  storage.findById id = none ∧ ∀ filter, ∀ item ∈ storage.find filter, item.id ≠ id

/-- An item without a row is gone, when every row is stored under its own id. -/
private theorem ItemStorage.Gone.of_findById {storage : ItemStorage} {id : ItemId}
    (hkey : ∀ id' item, storage.findById id' = some item → item.id = id')
    (h : storage.findById id = none) : storage.Gone id := by
  refine ⟨h, fun filter item hitem hid => ?_⟩
  obtain ⟨⟨id', hrow⟩, -⟩ := mem_find_iff.mp hitem
  obtain rfl : id' = id := (hkey id' item hrow).symm.trans hid
  rw [h] at hrow
  cases hrow

/-- A row whose version has the deletion is not there. -/
private theorem SystemRun.gone_of_version {ι : Type} [DecidableEq ι] {r : SystemRun ι} {d : ι}
    {t : ℕ} {id : ItemId} (ht : t ≤ r.length)
    (h : HasDeletion ((r.state (r.version d t id)).entries d) id) :
    ((r.state t).storage d).Gone id := by
  refine .of_findById (fun id' item hrow => (id_of_row ht hrow).1) ?_
  obtain ⟨e, he, hid, hdel⟩ := h
  exact (r.row_eq d ht id).trans (rowAt_eq_none_of_deleted he hid hdel)

/-- A row of the server whose version has the deletion is not there. -/
private theorem BackendRun.gone_of_version {r : BackendRun} {t : ℕ} {id : ItemId}
    (ht : t ≤ r.length) (h : HasDeletion (r.state (r.version t id)).log.entries id) :
    (r.state t).storage.Gone id := by
  refine .of_findById (fun id' item hrow => ?_) ?_
  · exact rowAt_id ((r.row_eq ht id').symm.trans hrow)
  · obtain ⟨e, he, hid, hdel⟩ := h
    exact (r.row_eq ht id).trans (rowAt_eq_none_of_deleted he hid hdel)

/-- **Deletion is permanent.** On a device and on the server, in every run: from a rebuild of an
item on that began with a deletion of the item in the log, no state has a row for it. -/
theorem deletion_permanent {ι : Type} [DecidableEq ι] :
    (∀ (r : SystemRun ι) (d : ι) (id : ItemId) (ρ ω : ℕ), r.Rebuild d id ρ ω →
      HasDeletion ((r.state ρ).entries d) id →
      ∀ t, ω < t → t ≤ r.length → ((r.state t).storage d).Gone id) ∧
    ∀ (r : BackendRun) (id : ItemId) (ρ ω : ℕ), r.Rebuild id ρ ω →
      HasDeletion (r.state ρ).log.entries id →
      ∀ t, ω < t → t ≤ r.length → (r.state t).storage.Gone id := by
  refine ⟨fun r d id ρ ω hrebuild hdel t hωt ht => ?_,
    fun r id ρ ω hrebuild hdel t hωt ht => ?_⟩
  · have hρ := hrebuild.refresh.le_version hωt
    have hv := (r.version_le d t id).trans ht
    have hprefix := (r.netRun.sound (hρ.trans hv)).unstamped_isPrefix (r.netRun.sound hv)
      (r.netRun.extends_of_le hρ hv) d
    exact SystemRun.gone_of_version ht (hdel.mono hprefix.subset)
  · have hρ := hrebuild.refresh.le_version hωt
    have hv := (r.version_le t id).trans ht
    exact BackendRun.gone_of_version ht (hdel.mono ((r.entries_isPrefix hρ hv).map _).subset)

/-- A device creates an item and deletes it, at an earlier clock reading, and then stores an edit
of the item as it was before the deletion. -/
def staleEdit : List (Action Unit) :=
  [.create () ⟨7⟩ "milk" 2 100, .lockCreated () 0, .append () [1], .read (), .write (), .unlock (),
    .edit () ⟨7⟩ .delete 50, .append () [2], .read (), .write (), .unlock (),
    .store () (({ id := ⟨7⟩, name := "milk", quantity := 2 } : Item).rename "oat milk" 900),
    .append () [3], .read (), .write (), .unlock ()]

def staleEditRun : SystemRun Unit :=
  .ofList (fun _ => ⟨"A"⟩) staleEdit (.unlock ()) (by decide +kernel)

/-- Another device pushes a late creation of the item after its deletion. -/
def lateCreation : List BackendAction :=
  [.post [⟨2, ⟨7⟩, .deleted, "A", 50, some 1, none, none⟩] fun _ => 0, .lock 0, .read, .write,
    .respond, .post [⟨1, ⟨7⟩, .created "milk" 2, "B", 100, some 1, none, none⟩] fun _ => 0,
    .lock 0, .read, .write, .respond]

def lateCreationRun : BackendRun :=
  Machine.Run.ofList Backend.machine .start rfl lateCreation .respond (by decide +kernel)

theorem deletion_permanent_staleEdit :
    ((staleEditRun.state 16).storage ()).Gone ⟨7⟩ ∧
      (lateCreationRun.state 10).storage.Gone ⟨7⟩ := by
  refine ⟨deletion_permanent.1 staleEditRun () ⟨7⟩ 8 9 ?_ (by decide +kernel) 16 (by decide)
      (by decide), (@deletion_permanent Unit _).2 lateCreationRun ⟨7⟩ 2 3 ?_
      (by decide +kernel) 10 (by decide) (by decide)⟩
  · exact ⟨⟨[], by decide +kernel⟩, rfl, rfl, by decide, by decide, fun u hu hu' => by omega⟩
  · exact ⟨⟨_, [], rfl⟩, rfl, rfl, by decide, by decide, fun u hu hu' => by omega⟩

end OfflineSync
