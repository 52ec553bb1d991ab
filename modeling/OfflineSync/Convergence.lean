import OfflineSync.Device

/-!
# Convergence

A state is *quiescent* when no device has anything unsynced and every cursor is at the end of
the stream. Then all logs hold the same events, stamps included, and fold every item alike
(`Sound.mem_entries_iff`, `convergence`).

Two rounds of every device are enough to get there, once nobody authors. After the first one
everything authored is on the server, so that the stream does not change any more, whatever
late requests still arrive (`server_entries_eq`); the second one pulls all of it.
-/

namespace OfflineSync

open Dedup

variable {ι : Type}

/-- No device has an unsynced event, and every cursor is the last offset of the server. -/
def Replicas.Quiescent (s : Replicas ι) : Prop :=
  ∀ d, s.Synced d ∧ (s.state d).pulled = s.server.lastOffset

variable [DecidableEq ι]

namespace Replicas

variable {s : Replicas ι}

/-- The cursor is the last offset exactly when it covers the whole stream. -/
theorem Sound.pulled_eq_lastOffset_iff (h : s.Sound) (d : ι) :
    (s.state d).pulled = s.server.lastOffset ↔ s.cursor d = s.server.entries.length := by
  have hlast := h.server_wf.lastOffset_eq
  rw [hlast, cursor]
  have hle := h.pulled_le d
  cases hp : (s.state d).pulled with
  | none =>
    have hval : ServerEventLog.cursorVal none = 0 := rfl
    rw [hval, eq_comm (a := 0), List.length_eq_zero_iff]
    split_ifs with hnil <;> simp [hnil]
  | some o =>
    obtain ⟨hpos, hole⟩ := hle o hp
    have hne : s.server.entries ≠ [] := List.length_pos_iff.mp (hpos.trans_le hole)
    have hval : ServerEventLog.cursorVal (some o) = o.val := rfl
    rw [hval, if_neg hne, Option.some_inj]
    exact ⟨fun heq => congrArg ServerOffset.val heq, fun heq => by rw [← heq]⟩

/-- **In a quiescent state every log holds the events of the server, stamps included.** -/
theorem Sound.mem_entries_iff (h : s.Sound) (hq : s.Quiescent) (d : ι) (e : ItemDescriptor) :
    e ∈ (s.log d).entries ↔ e ∈ s.server.entries := by
  obtain ⟨hsynced, hpulled⟩ := hq d
  refine ⟨fun he => h.server_of_synced he (hsynced e he), fun he => ?_⟩
  have hcursor := (h.pulled_eq_lastOffset_iff d).mp hpulled
  have hmem := h.pulled_known d e (by rwa [hcursor, List.take_length])
  obtain ⟨e', he', hid⟩ := List.mem_map.mp hmem
  have hserver := h.server_of_synced he' (hsynced e' he')
  rwa [← eq_of_replicaEventId_eq h.server_wf.nodup hserver he hid]

/-- In a quiescent state every log lists the events of an entity as the server does. -/
private theorem Sound.eventsOfEntity_eq (h : s.Sound) (hq : s.Quiescent) (d : ι) (id : ItemId) :
    (s.log d).eventsOfEntity id = s.server.eventsOfEntity id :=
  eventsOf_eq_of_mem_iff (h.log_nodup d) h.server_wf.nodup fun e _ => h.mem_entries_iff hq d e

end Replicas

namespace NetRun

variable {r : NetRun ι} {t t' : ℕ}

/-- Once everything authored is on the server, its log stays as it is. -/
theorem server_entries_eq (hle : t ≤ t') (ht' : t' ≤ r.length) (hq : ∀ d, Quiet r d t t')
    (hsynced : ∀ d, (r.state t).toReplicas.Synced d) :
    (r.state t').server.entries = (r.state t).server.entries := by
  have hs := r.sound (hle.trans ht')
  have hs' := r.sound ht'
  obtain ⟨new, hnew⟩ := (r.extends_of_le hle ht').server
  rw [← hnew, List.append_right_eq_self]
  refine List.eq_nil_iff_forall_not_mem.mpr fun e he => ?_
  -- a new entry would be an authored event, and those are all there already
  have hmem : e ∈ (r.state t').server.entries := hnew ▸ List.mem_append_right _ he
  obtain ⟨d, hd⟩ := hs'.server_known e hmem
  have hd : (d, e.unstamped) ∈ (r.state t).authored := by
    rw [← Replicas.mem_authoredBy, ← (hq d).authoredBy_eq hle ht', Replicas.mem_authoredBy]
    exact hd
  obtain ⟨e₀, he₀, hid⟩ := List.mem_map.mp (hs.own_mem hd)
  have hold : e.replicaEventId ∈ eventIds (r.state t).server.entries := by
    have hid : e₀.replicaEventId = e.replicaEventId := hid
    rw [← hid]
    exact mem_eventIds_of_mem (hs.server_of_synced he₀ (hsynced d e₀ he₀))
  have hnd := hs'.server_wf.nodup
  rw [ServerEventLog.ids, ← hnew, eventIds_append] at hnd
  exact (List.nodup_append.mp hnd).2.2 _ hold _ (mem_eventIds_of_mem he) rfl

/-- **Two rounds of every device make the system quiescent**, if nobody authors meanwhile. -/
theorem quiescent_of_two_rounds {t₀ t₁ t₂ : ℕ} (h₀₁ : t₀ ≤ t₁) (h₁₂ : t₁ ≤ t₂)
    (ht₂ : t₂ ≤ r.length) (hq : ∀ d, Quiet r d t₀ t₂) (hs : ∀ d, SameRunner r d t₁ t₂)
    (hfirst : ∀ d, ∃ a b, t₀ ≤ a ∧ b < t₁ ∧ ReturnsOk r d a b)
    (hsecond : ∀ d, ∃ a b, t₁ ≤ a ∧ b < t₂ ∧ ReturnsOk r d a b) :
    (r.state t₂).toReplicas.Quiescent := by
  have hq₁ : ∀ d u, t₀ ≤ u → Quiet r d u t₂ := fun d u hu v hv => hq d v (hu.trans hv)
  have hsynced : ∀ d, (r.state t₁).toReplicas.Synced d := by
    intro d
    obtain ⟨a, b, ha, hb, hret⟩ := hfirst d
    have hlt := hret.inRound.lt
    have hquiet : Quiet r d (b + 1) t₁ := fun v hv hv' => hq d v (by omega) (by omega)
    exact hquiet.synced hb (h₁₂.trans ht₂) hret.synced
  intro d
  refine ⟨(hq₁ d t₁ h₀₁).synced h₁₂ ht₂ (hsynced d), ?_⟩
  obtain ⟨a, b, ha, hb, hret⟩ := hsecond d
  obtain ⟨-, u, hlast, -, hcursor⟩ := hret.spec
  have hau := hlast.after
  have hub := hlast.before
  -- the stream at the last answer is the stream at the end
  have hserver : (r.state t₂).server.entries = (r.state u).server.entries := by
    rw [server_entries_eq h₁₂ ht₂ (fun e => hq₁ e t₁ h₀₁) hsynced]
    refine (server_entries_eq (by omega) (by omega) (fun e v hv hv' => ?_) hsynced).symm
    exact hq e v (by omega) (by omega)
  have hsound := r.sound ht₂
  rw [hsound.pulled_eq_lastOffset_iff]
  refine le_antisymm (hsound.cursor_le d) ?_
  have hrunner : SameRunner r d u t₂ := fun v hv hv' => hs d v (by omega) hv'
  calc (r.state t₂).server.entries.length
      = (r.state u).cursor d := by rw [hserver, hcursor]
    _ ≤ (r.state t₂).cursor d := hrunner.cursor_le (by omega) ht₂

end NetRun

/-- **Convergence.** In every reachable state in which no device has an unsynced event and every
cursor is the last offset of the server, all device logs hold the events of the server's log and
no others, and every item folds alike everywhere. Such a state is reached whenever, with nothing
authored and no runner replaced meanwhile, every device completes a round and then every device
completes a second one. -/
theorem convergence (r : SystemRun ι) :
    (∀ t ≤ r.length, (r.state t).net.Quiescent →
      (∀ d e, e ∈ (r.state t).entries d ↔ e ∈ (r.state t).net.server.entries) ∧
      ∀ d id, Item.buildFromHistory (((r.state t).net.log d).eventsOfEntity id)
        = Item.buildFromHistory ((r.state t).net.server.eventsOfEntity id)) ∧
    ∀ t₀ t₁ t₂, t₀ ≤ t₁ → t₁ ≤ t₂ → t₂ ≤ r.length →
      (∀ d, r.netRun.Quiet d t₀ t₂) → (∀ d, r.netRun.SameRunner d t₁ t₂) →
      (∀ d, ∃ a b, t₀ ≤ a ∧ b < t₁ ∧ r.netRun.ReturnsOk d a b) →
      (∀ d, ∃ a b, t₁ ≤ a ∧ b < t₂ ∧ r.netRun.ReturnsOk d a b) →
      (r.state t₂).net.Quiescent := by
  refine ⟨fun t ht hq => ?_, fun t₀ t₁ t₂ h₀₁ h₁₂ ht₂ hq hs hfirst hsecond => ?_⟩
  · have hsound := r.netRun.sound ht
    exact ⟨fun d e => hsound.mem_entries_iff hq d e,
      fun d id => congrArg _ (hsound.eventsOfEntity_eq hq d id)⟩
  · exact NetRun.quiescent_of_two_rounds h₀₁ h₁₂ ht₂ hq hs hfirst hsecond

theorem convergence_exchangedItems : (exchangedItemsRun.state 40).net.Quiescent ∧
    (exchangedItemsRun.state 40).entries false ≠ [] ∧
      ∀ d e, e ∈ (exchangedItemsRun.state 40).entries d
        ↔ e ∈ (exchangedItemsRun.state 40).net.server.entries := by
  obtain ⟨⟨hfirst₀, hfirst₁⟩, ⟨hsecond₀, hsecond₁⟩, -⟩ := returnsOk_exchangedItems
  obtain ⟨hsame, hreached⟩ := convergence exchangedItemsRun
  have hq : (exchangedItemsRun.state 40).net.Quiescent := by
    refine hreached 12 30 40 (by decide) (by decide) (by decide) ?_ ?_ ?_ ?_
    · intro d u hu hu' id changes hact
      obtain ⟨a, ha, -⟩ := sync_exchangedItems hu hu'
      cases ha.symm.trans hact
    · intro d u hu hu' hact
      obtain ⟨a, ha, hsame⟩ := sync_exchangedItems (le_trans (by decide) hu) hu'
      exact hsame d (NetAction.sync.inj (Option.some.inj (ha.symm.trans hact)))
    · exact Bool.forall_bool.mpr
        ⟨⟨12, 20, by decide, by decide, hfirst₀⟩, ⟨21, 29, by decide, by decide, hfirst₁⟩⟩
    · exact Bool.forall_bool.mpr
        ⟨⟨30, 35, by decide, by decide, hsecond₀⟩, ⟨36, 39, by decide, by decide, hsecond₁⟩⟩
  exact ⟨hq, by decide +kernel, (hsame 40 (by decide) hq).1⟩

end OfflineSync
