import OfflineSync.Device

/-!
# Causality

An author has seen an event when its log holds it. The stream of the server and every log
list an event after all that its author had seen (`causally_ordered`): the invariant
`Replicas.Sound` has every log closed under `Replicas.Causal`, a local append makes what the log
holds causes of what it adds (`causal_of_author`), and no later step takes that back
(`Causal.mono`).
-/

namespace OfflineSync

open Dedup

variable {ι : Type} [DecidableEq ι]

namespace Replicas

variable {s s' : Replicas ι}

omit [DecidableEq ι] in
/-- What an author had seen it has seen ever after. -/
theorem Causal.mono {x y : Uuid} (h : s.Causal x y) (hext : s.Extends s') : s'.Causal x y := by
  obtain ⟨d, e, he, hid, hp⟩ := h
  exact ⟨d, e, hext.authored.subset he, hid, hp.sublist (hext.log d).sublist⟩

/-- The log of an author is what its new events follow. -/
theorem Sound.causal_of_author (h : s.Sound) {d : ι} {events : List ItemAppend}
    (hf : s.Fresh events) {x y : Uuid} (hy : y ∈ events.map AppendEvent.replicaEventId)
    (hx : x ∈ (s.log d).ids ∨ Precedes (events.map AppendEvent.replicaEventId) x y) :
    (s.author d events).Causal x y := by
  have hp : Precedes ((s.author d events).log d).ids x y := by
    rw [h.ids_author hf]
    rcases hx with hx | hx
    · exact precedes_append_of_mem hx hy
    · exact hx.sublist (List.sublist_append_right _ _)
  rw [← DeviceEventLog.eventIds_authoredBatch] at hy
  obtain ⟨e, he, rfl⟩ := List.mem_map.mp hy
  exact ⟨d, e, (h.mem_authored_author hf).mpr (.inr ⟨rfl, he⟩), rfl, hp⟩

/-- Where the server lists an event, it lists what the author had seen at smaller offsets. -/
private theorem Sound.server_offset_lt (h : s.Sound) {x : Uuid} {e : ItemDescriptor}
    (hc : s.Causal x e.replicaEventId) (he : e ∈ s.server.entries) :
    ∃ e' ∈ s.server.entries, e'.replicaEventId = x ∧
      ∃ o' o : ServerOffset, e'.serverOffset = some o' ∧ e.serverOffset = some o ∧
        o'.val < o.val := by
  have hp := h.causal_server x _ hc (mem_eventIds_of_mem he)
  obtain ⟨e', he', rfl⟩ := List.mem_map.mp hp.mem_left
  exact ⟨e', he', rfl, h.server_wf.precedes_of_lt hp he' he⟩

end Replicas

namespace NetRun

variable {r : NetRun ι} {t t' : ℕ} {d : ι} {id : ItemId}
  {changes : List (Uuid × EntityEvent ItemEvent)}

/-- An id that a store draws is in no log before. -/
private theorem not_mem_of_act (ht : t < r.length) (ha : r.act t = some (.author d id changes))
    {y : Uuid} (hy : y ∈ changes.map Prod.fst) (ht' : t' ≤ t) :
    y ∉ (r.state t').server.ids ∧ ∀ d', y ∉ ((r.state t').log d').ids := by
  have hfresh : y ∉ (r.state t).authoredIds := by
    obtain ⟨hf, -⟩ := author_of_act ht ha
    rw [← ItemStorage.map_replicaEventId_appendEvents ((r.state t).provider d).get id] at hy
    obtain ⟨ev, hev, rfl⟩ := List.mem_map.mp hy
    exact hf.2 ev hev
  have hext := r.extends_of_le ht' ht.le
  have hs := r.sound ht.le
  exact ⟨fun hmem => hfresh (hs.server_subset_authored y (hext.server_ids.subset hmem)),
    fun d' hmem => hfresh (hs.log_subset_authored d' y ((hext.log d').subset hmem))⟩

end NetRun

/-- **The stream and every log extend causality.** Let a device draw the id `y` for an event it
authors, and let `x` be in its log at that time, or drawn before `y` in the same store. At every
time of the run: if the server holds `y`, it holds `x` at a smaller offset, and if a device log
holds `y`, it holds `x` at an earlier position. -/
theorem causally_ordered (r : SystemRun ι) {t : ℕ} (ht : t < r.length) {d : ι}
    {eventIds : List Uuid} (ha : r.act t = .append d eventIds) {x y : Uuid} (hy : y ∈ eventIds)
    (hx : x ∈ ((r.state t).net.log d).ids ∨ Precedes eventIds x y) :
    ∀ t' ≤ r.length,
      (∀ e ∈ (r.state t').net.server.entries, e.replicaEventId = y →
        ∃ e' ∈ (r.state t').net.server.entries, e'.replicaEventId = x ∧
          ∃ o' o : ServerOffset, e'.serverOffset = some o' ∧ e.serverOffset = some o ∧
            o'.val < o.val) ∧
      ∀ d', y ∈ ((r.state t').net.log d').ids →
        Precedes ((r.state t').net.log d').ids x y := by
  obtain ⟨item, -, hlength, hact⟩ := SystemRun.author_of_append ht ha
  have hids : (eventIds.zip item.uncommitted).map Prod.fst = eventIds :=
    List.map_fst_zip hlength.le
  intro t' ht'
  rcases Nat.lt_or_ge t t' with hlt | hle
  · -- after the store `x` is a cause of `y`, and every log is closed under causes
    obtain ⟨hf, hstate⟩ := NetRun.author_of_act ht hact
    have hc : (r.netRun.state (t + 1)).toReplicas.Causal x y := by
      rw [hstate]
      refine (r.netRun.sound ht.le).causal_of_author hf ?_ ?_ <;>
        rw [ItemStorage.map_replicaEventId_appendEvents, hids]
      · exact hy
      · exact hx
    have hc := hc.mono (r.netRun.extends_of_le hlt ht')
    have hs := r.netRun.sound ht'
    refine ⟨fun e he hid => hs.server_offset_lt (hid ▸ hc) he, fun d' hmem => ?_⟩
    exact hs.causal_log d' x y hc hmem
  · -- before it nobody holds `y`
    obtain ⟨hserver, hlog⟩ := NetRun.not_mem_of_act ht hact (hids.symm ▸ hy) hle
    exact ⟨fun e he hid => absurd (hid ▸ mem_eventIds_of_mem he) hserver,
      fun d' hmem => absurd hmem (hlog d')⟩

/-- A device creates an item, edits it, and pushes both events. -/
def twoStores : List (Action Unit) :=
  [.create () ⟨7⟩ "milk" 2 100, .lockCreated () 0, .append () [9], .read (), .write (), .unlock (),
    .edit () ⟨7⟩ (.setQuantity 5) 101, .append () [4], .read (), .write (), .unlock (),
    .sync (.beginRound () 500), .sync (.send ()), .sync (.handle () fun _ => 200)]

def twoStoresRun : SystemRun Unit :=
  .ofList (fun _ => ⟨"A"⟩) twoStores (.unlock ()) (by decide +kernel)

theorem causally_ordered_twoStores : ∃ e' ∈ (twoStoresRun.state 14).net.server.entries,
    e'.replicaEventId = 9 ∧ ∃ o' o : ServerOffset, e'.serverOffset = some o' ∧
      some (⟨2⟩ : ServerOffset) = some o ∧ o'.val < o.val :=
  (causally_ordered twoStoresRun (t := 7) (by decide) rfl (x := 9) (y := 4)
    (by decide +kernel) (.inl (by decide +kernel)) 14 (by decide)).1
    ⟨4, 1, 101, "A", some ⟨2⟩, some 200, ⟨7⟩, .quantityChanged 5⟩ (by decide +kernel) rfl

end OfflineSync
