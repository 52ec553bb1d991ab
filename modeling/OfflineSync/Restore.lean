import OfflineSync.Delivery
import OfflineSync.Freshness

/-!
# A phone that only reads

A device that has authored nothing, such as a new install, takes all its log from `pull`, and
`pull` pages through the server's stream from the start. Its log is then a copy of that stream,
entry by entry and stamps included, up to some position (`new_phone_mirrors_server`): pages that
overlap what is there already, after a failed round or with a new runner, neither repeat nor
reorder anything. A round that returns `Ok` carries the copy past everything that was on the server
when it began.
-/

namespace OfflineSync

open Dedup

variable {ι : Type} [DecidableEq ι]

namespace Net

/-- Device `d` is not pushing, and its log is an initial segment of the server's stream. -/
structure Mirrors (s : Net ι) (d : ι) : Prop where
  entries : (s.log d).entries <+: s.server.entries
  pushing : ∀ batch events, s.round d ≠ some ⟨batch, .pushing events⟩
  acknowledged : ∀ batch stored, s.round d ≠ some ⟨batch, .acknowledged stored⟩

variable {s s' : Net ι} {a : NetAction ι} {d : ι}

/-- A page is copied to where the copy ends. -/
private theorem Inv.isPrefix_receive (h : s.Inv) {page : EventsPage ItemEvent ItemId}
    (hp : s.toReplicas.PageOf d page) (hd : (s.log d).entries <+: s.server.entries) :
    ((s.receive d page).log d).entries <+: s.server.entries := by
  obtain ⟨rest, hrest⟩ := hp.entries_eq
  refine isPrefix_of_map_isPrefix (f := EventDescriptor.replicaEventId) ?_ h.sound.server_wf.nodup
    fun e he => ?_
  · have hids : eventIds ((s.receive d page).log d).entries
        = addAll (s.log d).ids (eventIds page.events) := Replicas.ids_receive_self
    rw [← eventIds, hids]
    refine isPrefix_addAll_of_isPrefix (p := eventIds (s.server.entries.take (s.cursor d)))
      h.sound.server_wf.nodup (hd.map _) ?_ fun x hx => ?_
    · rw [← eventIds_append]
      refine List.IsPrefix.map _ ?_
      nth_rewrite 2 [hrest]
      rw [← List.append_assoc]
      exact List.prefix_append _ _
    · obtain ⟨e, he, rfl⟩ := List.mem_map.mp hx
      exact h.sound.pulled_known d e he
  · obtain ⟨new, hentries, hnew⟩ := s.toReplicas.exists_entries_receive d page
    rw [hentries] at he
    exact (List.mem_append.mp he).elim (fun he => hd.subset he) fun he => hp.mem_server (hnew e he)

/-- **A device that authors nothing goes on copying the stream.** -/
theorem Inv.mirrors_of_step (h : s.Inv) (hstep : Step s a s') (hnone : s'.authoredBy d = [])
    (hd : s.Mirrors d) : s'.Mirrors d := by
  have hext := h.extends_of_step hstep
  by_cases had : a.device = some d
  · cases hstep with
    | @author d' id changes unlocked nodup fresh =>
      obtain rfl := Option.some.inj had
      have hf : s.toReplicas.Fresh (ItemStorage.appendEvents (s.provider d').get id changes) :=
        fresh_appendEvents nodup fresh
      have hbatch : DeviceEventLog.authoredBatch
          (ItemStorage.appendEvents (s.provider d').get id changes) = [] :=
        (List.append_eq_nil_iff.mp ((h.sound.authoredBy_author_self hf).symm.trans hnone)).2
      have hentries := h.sound.entries_author (d := d') hf
      rw [hbatch, List.append_nil] at hentries
      refine ⟨?_, hd.pushing, hd.acknowledged⟩
      exact (congrArg (· <+: s.server.entries) hentries).mpr hd.entries
    | @send d' batch phase unsynced =>
      obtain rfl := Option.some.inj had
      -- what it would send it has authored
      obtain ⟨e, he⟩ := List.exists_mem_of_ne_nil _ unsynced
      have hauthored : e ∈ s.authoredBy d' := Replicas.mem_authoredBy.mpr (h.mem_unsynced he).2
      rw [show s.authoredBy d' = [] from hnone] at hauthored
      exact absurd hauthored List.not_mem_nil
    | @handle d' now batch events phase =>
      obtain rfl := Option.some.inj had
      exact absurd phase (hd.pushing batch events)
    | @ack d' batch stored phase =>
      obtain rfl := Option.some.inj had
      exact absurd phase (hd.acknowledged batch stored)
    | @take d' batch touched page phase more =>
      obtain rfl := Option.some.inj had
      exact ⟨h.isPrefix_receive (h.phase d' _ phase).2 hd.entries, by simp [setRound],
        by simp [setRound]⟩
    | deliver => cases had
    | newRunner => exact ⟨hd.entries, hd.pushing, hd.acknowledged⟩
    | beginRound | pushed | answer | finish | fail =>
      obtain rfl := Option.some.inj had
      exact ⟨hd.entries, by simp, by simp⟩
  · obtain ⟨hlog, -, hround⟩ := hstep.frame had
    refine ⟨?_, by rw [hround]; exact hd.pushing, by rw [hround]; exact hd.acknowledged⟩
    rw [hlog]
    exact hd.entries.trans hext.server

end Net

namespace NetRun

variable {r : NetRun ι} {d : ι} {t t₀ t₁ : ℕ}

/-- Along a run a device that has authored nothing copies the stream. -/
private theorem mirrors (r : NetRun ι) (ht : t ≤ r.length) (hnone : (r.state t).authoredBy d = []) :
    (r.state t).Mirrors d := by
  induction t with
  | zero =>
    obtain ⟨-, -, -, hd⟩ := r.init_state
    obtain ⟨hlog, -, hround⟩ := hd d
    refine ⟨?_, by simp [hround], by simp [hround]⟩
    rw [hlog]
    exact List.nil_prefix
  | succ t ih =>
    have hext := (r.extends_of_le (Nat.le_succ t) ht).authored
    have hnone' : (r.state t).authoredBy d = [] := by
      have hsub := (hext.sublist.filter fun p => p.1 = d).map Prod.snd
      exact List.sublist_nil.mp (hnone ▸ hsub)
    have hmirrors := ih (Nat.le_of_succ_le ht) hnone'
    rcases r.step_cases ht with ⟨-, heq⟩ | ⟨a, -, hstep⟩
    · rw [heq]
      exact hmirrors
    · exact (r.inv (Nat.le_of_succ_le ht)).mirrors_of_step hstep hnone hmirrors

end NetRun

/-- **A new phone mirrors the server.** As long as a device has authored nothing, its log is the
server's stream up to some position. The position is past all that was on the server when a round
of the device began that returned `Ok`; and when the device is idle, with no round lost, each row
is what the stream up to there makes it. -/
theorem new_phone_mirrors_server (r : SystemRun ι) (d : ι) {t : ℕ} (ht : t ≤ r.length)
    (hnone : (r.state t).net.authoredBy d = []) :
    ∃ n ≤ (r.state t).net.server.entries.length,
      (r.state t).entries d = (r.state t).net.server.entries.take n ∧
      (∀ t₀ t₁, r.netRun.ReturnsOk d t₀ t₁ → t₁ ≤ t →
        (r.state t₀).net.server.entries.length ≤ n) ∧
      (r.NoLoss d → (r.state t).Idle d →
        ∀ id, (r.state t).row d id = rowAt ((r.state t).net.server.entries.take n) id) := by
  have hmirrors : (r.state t).entries d <+: (r.state t).net.server.entries :=
    (r.netRun.mirrors ht hnone).entries
  have htake := List.prefix_iff_eq_take.mp hmirrors
  refine ⟨((r.state t).entries d).length, hmirrors.length_le, htake, fun t₀ t₁ hok htt => ?_,
    fun hloss hidle id => ?_⟩
  · have hle₀ : t₀ ≤ t := hok.inRound.lt.le.trans htt
    have hnd : (r.state t₀).net.server.ids.Nodup :=
      (r.netRun.sound (hle₀.trans ht)).server_wf.nodup
    have hsub : (r.state t₀).net.server.ids ⊆ ((r.state t).net.log d).ids := by
      intro x hx
      obtain ⟨a, ha, rfl⟩ := List.mem_map.mp hx
      obtain ⟨a', ha', heq⟩ := hok.exists_log htt ht ha
      rw [← EventDescriptor.unstamped_replicaEventId a, ← heq,
        EventDescriptor.unstamped_replicaEventId]
      exact mem_eventIds_of_mem ha'
    have hlen := hnd.length_le_of_subset hsub
    simpa [ServerEventLog.ids, DeviceEventLog.ids, eventIds, System.entries] using hlen
  · rw [← htake]
    exact hloss.row_eq ht hidle id

/-- Device 1 creates two items and syncs. Device 0 is new: it takes the first event with a batch of
one and fails, gets a new runner, and syncs. -/
def newPhone : List (Action ℕ) :=
  [.create 1 ⟨7⟩ "milk" 2 100, .lockCreated 1 0, .append 1 [1], .read 1, .write 1, .unlock 1,
    .create 1 ⟨8⟩ "tea" 1 200, .lockCreated 1 0, .append 1 [2], .read 1, .write 1, .unlock 1,
    .sync (.beginRound 1 500), .sync (.send 1), .sync (.handle 1 fun _ => 0), .sync (.ack 1),
    .sync (.beginRound 0 1), .sync (.send 0), .sync (.answer 0), .sync (.take 0), .sync (.fail 0),
    .sync (.newRunner 0),
    .sync (.beginRound 0 500), .sync (.send 0), .sync (.answer 0), .sync (.take 0),
    .sync (.answer 0), .sync (.take 0)]

def newPhoneRun : SystemRun ℕ :=
  .ofList (fun d => ⟨if d = 0 then "A" else "B"⟩) newPhone (.unlock 0) (by decide +kernel)

theorem new_phone_mirrors_server_newPhone : ∃ n, 2 ≤ n ∧
    (newPhoneRun.state 28).entries 0 = (newPhoneRun.state 28).net.server.entries.take n := by
  have hok : newPhoneRun.netRun.ReturnsOk 0 22 27 := by
    refine ⟨⟨⟨500, rfl⟩, by decide, by decide, fun u hu hu' => ?_⟩, by decide, .take 0,
      [⟨7⟩, ⟨8⟩], rfl, by decide +kernel⟩
    interval_cases u <;> decide +kernel
  obtain ⟨n, -, htake, hpast, -⟩ :=
    new_phone_mirrors_server newPhoneRun 0 (t := 28) (by decide) (by decide +kernel)
  have hlength : 2 ≤ (newPhoneRun.state 22).net.server.entries.length := by decide +kernel
  exact ⟨n, hlength.trans (hpast 22 27 hok (by decide)), htake⟩

end OfflineSync
