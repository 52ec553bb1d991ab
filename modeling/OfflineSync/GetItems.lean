import OfflineSync.Server

/-!
# Reading the items from the server

`get_items` of `backend/src/server.rs`, among the push handlers at work. It takes the storage lock,
so it runs when no handler holds it; but a handler may have appended its events and not have the
lock yet, or may have been dropped, so that the rows of a listing need not be the rows of the log,
nor of one log.

`items_never_go_back` says what a reader may rely on all the same. Each row of a listing is that of
an earlier log, one that holds all that was acknowledged by then; from one listing to the next
these logs only grow. In particular an item whose deletion was acknowledged is not seen again.
-/

namespace OfflineSync

/-- `get_items`, once it gets the storage lock. -/
def Backend.getItems (text : UuidText) (s : Backend) : Option (List ItemDto) :=
  match s.lock with
  | none => some (s.state.getItems text)
  | some _ => none

namespace BackendRun

variable {r : BackendRun} {t : ℕ}

private theorem keyed (ht : t ≤ r.length) : (r.state t).storage.Keyed := fun id _ hitem =>
  rowAt_id ((r.row_eq ht id).symm.trans hitem)

private theorem showsRows_getItems (ht : t ≤ r.length) {text : UuidText} {items : List ItemDto}
    (h : (r.state t).getItems text = some items) :
    ShowsRows text (fun id => rowAt (r.state (r.version t id)).log.entries id) items := by
  have hitems : (r.state t).storage.findAll.map (ItemDto.ofItem text) = items := by
    unfold Backend.getItems at h
    split at h
    · exact Option.some.inj h
    · cases h
  have hrow : (r.state t).storage.findById
      = fun id => rowAt (r.state (r.version t id)).log.entries id := funext (r.row_eq ht)
  rw [← hitems, ← hrow]
  exact (r.keyed ht).showsRows text

end BackendRun

/-- **Listings never go back.** In every run of the push handlers each item has a version at every
time, the time of an earlier log, that only grows. A listing taken at any time shows just the rows
of the logs at these versions, each once and ordered by name. Those logs hold every event that was
acknowledged by then; so an item whose deletion was acknowledged is not listed, then or later. -/
theorem items_never_go_back (text : UuidText) (r : BackendRun) :
    ∃ version : ℕ → ItemId → ℕ, (∀ t id, version t id ≤ t) ∧
      (∀ id, Monotone fun t => version t id) ∧
      ∀ t ≤ r.length, ∀ items, (r.state t).getItems text = some items →
        ShowsRows text (fun id => rowAt (r.state (version t id)).log.entries id) items ∧
          ∀ h ∈ (r.state t).responded, ∀ d ∈ h.stored,
            d ∈ (r.state (version t d.entityId)).log.entries ∧
              (d.payload = .deleted → text.print d.entityId.val ∉ items.map ItemView.id) := by
  refine ⟨r.version, r.version_le, fun id _ _ hle => Snapshot.version_mono _ id hle,
    fun t ht items hitems => ?_⟩
  have hshows := r.showsRows_getItems ht hitems
  refine ⟨hshows, fun h hh d hd => ?_⟩
  have hshown := (r.rowsOk ht).responded h hh d hd
  exact ⟨hshown, fun hdeleted => hshows.notMem (fun _ _ => rowAt_id)
    (rowAt_eq_none_of_deleted hshown rfl hdeleted)⟩

/-- Two items are pushed and one of them is deleted. A late edit of it comes after that. -/
def deletedItem : List BackendAction :=
  [.post [⟨1, ⟨7⟩, .created "milk" 2, "A", 100, some 1, none, none⟩,
      ⟨2, ⟨8⟩, .created "eggs" 6, "A", 110, some 1, none, none⟩] fun _ => 500,
    .lock 0, .read, .write, .read, .write, .respond,
    .post [⟨3, ⟨7⟩, .deleted, "A", 120, some 1, none, none⟩] fun _ => 600, .lock 0, .read, .write,
    .respond,
    .post [⟨4, ⟨7⟩, .renamed "oat milk", "B", 130, some 1, none, none⟩] fun _ => 700, .lock 0,
    .read, .write, .respond]

def deletedItemRun : BackendRun :=
  Machine.Run.ofList Backend.machine .start rfl deletedItem .respond (by decide +kernel)

theorem items_never_go_back_deletedItem :
    ∃ items, (deletedItemRun.state 17).getItems .hyphenated = some items ∧
      items.map ItemView.name = ["eggs"] ∧
      UuidText.hyphenated.print 7 ∉ items.map ItemView.id := by
  have hitems : (deletedItemRun.state 17).getItems .hyphenated
      = some ((deletedItemRun.state 17).state.getItems .hyphenated) := by
    have hlock : (deletedItemRun.state 17).lock = none := by decide +kernel
    simp only [Backend.getItems, hlock]
  obtain ⟨version, -, -, hlisting⟩ := items_never_go_back .hyphenated deletedItemRun
  obtain ⟨-, hacked⟩ := hlisting 17 (by decide) _ hitems
  have hdeleted : ∃ h ∈ (deletedItemRun.state 17).responded, ∃ d ∈ h.stored,
      d.entityId = ⟨7⟩ ∧ d.payload = .deleted := by decide +kernel
  obtain ⟨h, hh, d, hd, hid, hpayload⟩ := hdeleted
  have hgone := (hacked h hh d hd).2 hpayload
  rw [hid] at hgone
  exact ⟨_, hitems, by decide +kernel, hgone⟩

end OfflineSync
