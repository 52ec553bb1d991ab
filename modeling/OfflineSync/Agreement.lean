import OfflineSync.Device

/-!
# Device logs against the server log

A device log has three writers: a local append, the append of a page and the acknowledgement.
Over every run of the system they leave its entries where they are and as their authors made
them; all that ever happens to an entry is that it takes the server's stamps, once
(`StampedTo`). What carries stamps is the server's own entry, and what carries none is an event
of this device that its next push will send (`log_append_only`).

The stamps may reach a device by an acknowledgement or by a page, in either order. They agree,
because both are copies of the one entry the server has for the event: an acknowledged entry is
in the server's log, and ids are distinct there.
-/

namespace OfflineSync

open Dedup

/-- What may become of a log entry: it stays as it is, or takes the server's stamps when it had
none. -/
def EventDescriptor.StampedTo {E EntId : Type} (e e' : EventDescriptor E EntId) : Prop :=
  e' = e ∨ e.serverOffset = none ∧ e'.serverOffset ≠ none ∧ e'.unstamped = e.unstamped

namespace EventDescriptor.StampedTo

variable {E EntId : Type} {e₁ e₂ e₃ : EventDescriptor E EntId}

private theorem refl (e : EventDescriptor E EntId) : e.StampedTo e :=
  .inl rfl

private theorem trans (h : e₁.StampedTo e₂) (h' : e₂.StampedTo e₃) : e₁.StampedTo e₃ := by
  rcases h with rfl | ⟨hnone, hsome, hunst⟩
  · exact h'
  · rcases h' with rfl | ⟨hnone', -, -⟩
    · exact .inr ⟨hnone, hsome, hunst⟩
    · exact absurd hnone' hsome

end EventDescriptor.StampedTo

variable {ι : Type} [DecidableEq ι]

namespace Replicas

variable {s : Replicas ι} {d : ι}

/-- An acknowledgement stamps an entry that had no stamps, and leaves the others. -/
private theorem Sound.stampedTo_acknowledge (h : s.Sound) {stored : List ItemDescriptor}
    (hstored : ∀ a ∈ stored, a ∈ s.server.entries) {e : ItemDescriptor}
    (he : e ∈ (s.log d).entries) :
    e.StampedTo (stored.foldl DeviceEventLog.acknowledge e) := by
  have hunst := DeviceEventLog.foldl_acknowledge_unstamped stored e
  rcases h.acknowledge_known hstored he with ⟨heq, -⟩ | hserver
  · exact .inl heq
  · by_cases hnone : e.serverOffset = none
    · exact .inr ⟨hnone, Net.serverOffset_ne_none h.server_wf hserver, hunst⟩
    · -- an entry with stamps is the server's entry already
      have hid := congrArg EventDescriptor.replicaEventId hunst
      rw [EventDescriptor.unstamped_replicaEventId, EventDescriptor.unstamped_replicaEventId] at hid
      exact .inl (eq_of_replicaEventId_eq h.server_wf.nodup hserver (h.server_of_synced he hnone)
        hid)

/-- An entry without stamps is among those a push sends, as soon as the limit reaches it. -/
private theorem Sound.mem_getUnsynced (h : s.Sound) {i limit : ℕ} {e : ItemDescriptor}
    (he : (s.log d).entries[i]? = some e) (hnone : e.serverOffset = none)
    (hlimit : ((s.log d).entries.take i).countP (fun a => a.serverOffset.isNone) < limit) :
    e ∈ (s.log d).getUnsynced (s.state d).replicaId limit := by
  set p : ItemDescriptor → Bool :=
    fun a => a.serverOffset.isNone && a.replicaId == (s.state d).replicaId with hp
  have hmem := List.mem_of_getElem? he
  have hid := h.authored_replicaId d e (h.authored_of_unsynced hmem hnone)
  have hpe : p e = true := by simp [hp, hnone, hid, h.replicaId]
  have hsplit : (s.log d).entries
      = (s.log d).entries.take i ++ e :: (s.log d).entries.drop (i + 1) := by
    obtain ⟨hi, rfl⟩ := List.getElem?_eq_some_iff.mp he
    rw [List.getElem_cons_drop, List.take_append_drop]
  have hcount : ((s.log d).entries.take i).countP p
      ≤ ((s.log d).entries.take i).countP (fun a => a.serverOffset.isNone) := by
    refine List.countP_mono_left fun a _ ha => ?_
    exact (Bool.and_eq_true_iff.mp ha).1
  rw [List.countP_eq_length_filter] at hcount
  rw [DeviceEventLog.getUnsynced, hsplit, List.filter_append, List.filter_cons_of_pos hpe,
    List.take_append, List.mem_append]
  refine .inr ?_
  obtain ⟨n, hn⟩ : ∃ n, limit - (((s.log d).entries.take i).filter p).length = n + 1 :=
    ⟨limit - (((s.log d).entries.take i).filter p).length - 1, by omega⟩
  rw [hn, List.take_succ_cons]
  exact List.mem_cons_self

end Replicas

namespace Net

variable {s s' : Net ι} {a : NetAction ι} {d : ι}

/-- **A step leaves every log entry in its place**, and at most stamps it. -/
theorem Inv.stampedTo_of_step (h : s.Inv) (hstep : Step s a s') {i : ℕ} {e : ItemDescriptor}
    (he : (s.log d).entries[i]? = some e) :
    ∃ e', (s'.log d).entries[i]? = some e' ∧ e.StampedTo e' := by
  have hgrow : ∀ new, (s'.log d).entries = (s.log d).entries ++ new →
      ∃ e', (s'.log d).entries[i]? = some e' ∧ e.StampedTo e' := by
    intro new hnew
    obtain ⟨hi, -⟩ := List.getElem?_eq_some_iff.mp he
    exact ⟨e, by rw [hnew, List.getElem?_append_left hi, he], .refl e⟩
  by_cases hd : a.device = some d
  · cases hstep with
    | @author d' id changes _ hnd hfresh =>
      obtain rfl := Option.some.inj hd
      exact hgrow _ (h.sound.entries_author (fresh_appendEvents hnd hfresh))
    | @ack d' batch stored phase =>
      obtain rfl := Option.some.inj hd
      refine ⟨stored.foldl DeviceEventLog.acknowledge e, ?_,
        h.sound.stampedTo_acknowledge (h.phase d' _ phase) (List.mem_of_getElem? he)⟩
      rw [Replicas.log_record_self, DeviceEventLog.entries_markSynced (h.sound.log_nodup d'),
        List.getElem?_map, he, Option.map_some]
    | @take d' batch touched page =>
      obtain rfl := Option.some.inj hd
      obtain ⟨new, hnew, -⟩ := s.toReplicas.exists_entries_receive d' page
      exact hgrow new hnew
    | _ => exact ⟨e, he, .refl e⟩
  · rw [(hstep.frame hd).1]
    exact ⟨e, he, .refl e⟩

end Net

/-- **Log entries stay in place** along a run, and take the server's stamps at most once. -/
theorem NetRun.stampedTo_of_le (r : NetRun ι) {d : ι} {t t' : ℕ} (h : t ≤ t')
    (ht' : t' ≤ r.length) {i : ℕ} {e : ItemDescriptor}
    (he : ((r.state t).log d).entries[i]? = some e) :
    ∃ e', ((r.state t').log d).entries[i]? = some e' ∧ e.StampedTo e' := by
  refine r.le_induction (P := fun t' => ∃ e', ((r.state t').log d).entries[i]? = some e' ∧
    e.StampedTo e') ⟨e, he, .refl e⟩ (fun u _ hu ih => ?_) t' h ht'
  obtain ⟨e', he', hstamped⟩ := ih
  rcases r.step_cases hu with ⟨-, heq⟩ | ⟨a, -, hstep⟩
  · exact ⟨e', by rw [heq, he'], hstamped⟩
  · obtain ⟨e'', he'', hstamped'⟩ := (r.inv hu.le).stampedTo_of_step hstep he'
    exact ⟨e'', he'', hstamped.trans hstamped'⟩

namespace SystemRun

variable {r : SystemRun ι} {d : ι} {t : ℕ}

/-- Events are authored by the append of a store. -/
private theorem append_of_author {id : ItemId} {changes : List (Uuid × EntityEvent ItemEvent)}
    (ha : r.netRun.act t = some (.author d id changes)) :
    ∃ eventIds, r.act t = .append d eventIds := by
  change (r.state t).netAction (r.act t) = _ at ha
  generalize r.act t = a at ha ⊢
  cases a with
  | append d' eventIds =>
    rw [System.netAction] at ha
    split at ha
    · obtain ⟨rfl, -, -⟩ := NetAction.author.inj (Option.some.inj ha)
      exact ⟨eventIds, rfl⟩
    · cases ha
  | _ => cases ha

/-- What a device authored entered its log by one of its stores. -/
private theorem exists_append_of_authored (ht : t ≤ r.length) {e : ItemDescriptor}
    (he : (d, e) ∈ (r.state t).net.authored) :
    ∃ u < t, ∃ eventIds, r.act u = .append d eventIds ∧ e.replicaEventId ∈ eventIds := by
  induction t with
  | zero =>
    rw [r.init_state.1.2.1] at he
    exact absurd he List.not_mem_nil
  | succ t ih =>
    have hold : (d, e) ∈ (r.state t).net.authored →
        ∃ u < t + 1, ∃ eventIds, r.act u = .append d eventIds ∧ e.replicaEventId ∈ eventIds := by
      intro hmem
      obtain ⟨u, hu, happend⟩ := ih (Nat.le_of_succ_le ht) hmem
      exact ⟨u, hu.trans (Nat.lt_succ_self t), happend⟩
    have he : (d, e) ∈ (r.netRun.state (t + 1)).authored := he
    rcases r.netRun.step_cases ht with ⟨-, heq⟩ | ⟨a, hact, hstep⟩
    · rw [heq] at he
      exact hold he
    · generalize hs' : r.netRun.state (t + 1) = s' at hstep he
      cases hstep with
      | @author d' id changes _ hnd hfresh =>
        obtain ⟨eventIds, ha⟩ := append_of_author hact
        obtain ⟨item, -, hlength, hact'⟩ := author_of_append ht ha
        obtain ⟨-, rfl, rfl⟩ := NetAction.author.inj (Option.some.inj (hact.symm.trans hact'))
        have hf : (r.netRun.state t).toReplicas.Fresh (ItemStorage.appendEvents
            ((r.netRun.state t).provider d').get item.id (eventIds.zip item.uncommitted)) :=
          Net.fresh_appendEvents hnd hfresh
        rcases ((r.netRun.sound (Nat.le_of_succ_le ht)).mem_authored_author hf).mp he with
          he | ⟨rfl, hmem⟩
        · exact hold he
        · -- the new events carry the ids drawn for them
          have hmem := mem_eventIds_of_mem hmem
          rw [DeviceEventLog.eventIds_authoredBatch,
            ItemStorage.map_replicaEventId_appendEvents, List.map_fst_zip hlength.le] at hmem
          exact ⟨t, Nat.lt_succ_self t, eventIds, ha, hmem⟩
      | _ => exact hold he

end SystemRun

/-- **A device log is append-only and agrees with the server.** At every time of every run its
ids are distinct. Between two times an entry keeps its position and all that its author fixed,
and changes at most by taking stamps it did not have. An entry with stamps is the server's entry,
at its offset and equal in every field. One without was appended by a store of this device,
carries the device's replica id and is what the next push sends, when the limit allows. -/
theorem log_append_only (r : SystemRun ι) (d : ι) :
    (∀ t ≤ r.length, ((r.state t).net.log d).ids.Nodup) ∧
    (∀ t t', t ≤ t' → t' ≤ r.length → ∀ (i : ℕ) (e : ItemDescriptor),
      ((r.state t).entries d)[i]? = some e →
      ∃ e', ((r.state t').entries d)[i]? = some e' ∧ e.StampedTo e') ∧
    ∀ t ≤ r.length, ∀ (i : ℕ) (e : ItemDescriptor), ((r.state t).entries d)[i]? = some e →
      (∀ o, e.serverOffset = some o → e ∈ (r.state t).net.server.entries) ∧
      (e.serverOffset = none →
        (∃ u < t, ∃ eventIds, r.act u = .append d eventIds ∧ e.replicaEventId ∈ eventIds) ∧
        e.replicaId = ((r.state t).net.provider d).get ∧
        ∀ limit, (((r.state t).entries d).take i).countP (fun a => a.serverOffset.isNone) < limit →
          e ∈ (r.state t).net.unsynced d limit) := by
  refine ⟨fun t ht => (r.netRun.sound ht).log_nodup d,
    fun t t' h ht' i e he => r.netRun.stampedTo_of_le h ht' he,
    fun t ht i e he => ⟨fun o ho => ?_, fun hnone => ?_⟩⟩
  · refine (r.netRun.sound ht).server_of_synced (List.mem_of_getElem? he) ?_
    rw [ho]
    exact Option.some_ne_none o
  · have hauth := (r.netRun.sound ht).authored_of_unsynced (List.mem_of_getElem? he) hnone
    exact ⟨r.exists_append_of_authored ht hauth, (r.netRun.sound ht).authored_replicaId d e hauth,
      fun limit hlimit => (r.netRun.sound ht).mem_getUnsynced he hnone hlimit⟩

theorem log_append_only_exchangedItems :
    ∃ e e', ((exchangedItemsRun.state 12).entries false)[0]? = some e ∧ e.serverOffset = none ∧
      e ∈ (exchangedItemsRun.state 12).net.unsynced false 1 ∧
      ((exchangedItemsRun.state 47).entries false)[0]? = some e' ∧ e'.serverOffset ≠ none ∧
      e.StampedTo e' ∧ e' ∈ (exchangedItemsRun.state 47).net.server.entries := by
  obtain ⟨-, hstays, hentry⟩ := log_append_only exchangedItemsRun false
  have hbefore : ((exchangedItemsRun.state 12).entries false)[0]?.any
      (fun e => decide (e.serverOffset = none)) = true := by decide +kernel
  have hafter : ∀ e ∈ ((exchangedItemsRun.state 47).entries false)[0]?,
      e.serverOffset.isSome = true := by decide +kernel
  obtain ⟨e, he, hnone⟩ := (Option.any_eq_true _ _).mp hbefore
  have hnone := of_decide_eq_true hnone
  obtain ⟨e', he', hstamped⟩ := hstays 12 47 (by decide) (by decide) 0 e he
  obtain ⟨o, ho⟩ := Option.isSome_iff_exists.mp (hafter e' he')
  obtain ⟨-, -, hunsynced⟩ := (hentry 12 (by decide) 0 e he).2 hnone
  exact ⟨e, e', he, hnone, hunsynced 1 (by simp), he', ho ▸ Option.some_ne_none o, hstamped,
    (hentry 47 (by decide) 0 e' he').1 o ho⟩

end OfflineSync
