import OfflineSync.SyncInvariant

/-!
# The invariant of the rounds

What a round under way may rely on, and the invariant of the protocol.

A round that has left `push` has nothing unsynced, because it got there by an empty
`get_unsynced` and nothing is authored while it runs; the page it waits for stays a segment of
the stream after its cursor. A push request is a `BatchOf` its sender from the moment it is
sent, whenever the server gets to store it. `Net.Inv.step` is the preservation of all this
together with `Replicas.Sound`, and `Net.extends_of_step` says that a step only adds to the
logs.
-/

namespace OfflineSync

open Dedup

variable {ι : Type} [DecidableEq ι]

namespace Net

/-- What the round of a device relies on in each phase. -/
def PhaseOk (s : Net ι) (d : ι) : SyncPhase → Prop
  | .push => True
  | .pushing events => events ∈ s.inflight
  | .acknowledged stored => ∀ a ∈ stored, a ∈ s.server.entries
  | .pull _ => s.toReplicas.Synced d
  | .pulled _ page => s.toReplicas.Synced d ∧ s.toReplicas.PageOf d page

/-- The invariant of the protocol. -/
structure Inv (s : Net ι) : Prop where
  sound : s.toReplicas.Sound
  inflight : ∀ events ∈ s.inflight, ∃ d, s.toReplicas.BatchOf d events
  batch_pos : ∀ d r, s.round d = some r → 0 < r.batch
  phase : ∀ d r, s.round d = some r → s.PhaseOk d r.phase

variable {s s' : Net ι}

/-- A round goes on as before while the other parties act. -/
private theorem PhaseOk.mono {d : ι} {phase : SyncPhase} (h : s.PhaseOk d phase)
    (hs : s.toReplicas.Sound) (hext : s.toReplicas.Extends s'.toReplicas)
    (hlog : s'.log d = s.log d) (hstate : s'.state d = s.state d)
    (hinflight : s.inflight ⊆ s'.inflight) : s'.PhaseOk d phase := by
  have hsynced : s.toReplicas.Synced d → s'.toReplicas.Synced d := by
    intro h
    rw [Replicas.Synced, hlog]
    exact h
  cases phase with
  | push => trivial
  | pushing events => exact hinflight h
  | acknowledged stored => exact fun a ha => hext.server.subset (h a ha)
  | pull touched => exact hsynced h
  | pulled touched page => exact ⟨hsynced h.1, h.2.mono hs hext hstate⟩

/-- A request may be stored whatever happened since it was sent. -/
private theorem Inv.inflight_mono (h : s.Inv) (hext : s.toReplicas.Extends s'.toReplicas)
    (hs' : s'.toReplicas.Sound) {events : List ItemAppend} (hmem : events ∈ s.inflight) :
    ∃ d, s'.toReplicas.BatchOf d events := by
  obtain ⟨d, hb⟩ := h.inflight events hmem
  exact ⟨d, hb.mono h.sound hext (hs'.log_nodup d)⟩

/-- The invariant after a step of device `d`: the other devices are as they were. -/
private theorem Inv.of_step (h : s.Inv) {a : NetAction ι} {d : ι} (hstep : Step s a s')
    (ha : a.device = some d) (hs' : s'.toReplicas.Sound)
    (hext : s.toReplicas.Extends s'.toReplicas) (hsub : s.inflight ⊆ s'.inflight)
    (hinflight : ∀ events ∈ s'.inflight, events ∉ s.inflight → s'.toReplicas.BatchOf d events)
    (hround : ∀ r, s'.round d = some r → 0 < r.batch ∧ s'.PhaseOk d r.phase) : s'.Inv where
  sound := hs'
  inflight := by
    intro events hmem
    by_cases hold : events ∈ s.inflight
    · exact h.inflight_mono hext hs' hold
    · exact ⟨d, hinflight events hmem hold⟩
  batch_pos := by
    intro e r hr
    by_cases he : a.device = some e
    · obtain rfl := Option.some.inj (ha.symm.trans he)
      exact (hround r hr).1
    · rw [(hstep.frame he).2.2] at hr
      exact h.batch_pos e r hr
  phase := by
    intro e r hr
    by_cases he : a.device = some e
    · obtain rfl := Option.some.inj (ha.symm.trans he)
      exact (hround r hr).2
    · obtain ⟨hlog, hstate, hre⟩ := hstep.frame he
      rw [hre] at hr
      exact (h.phase e r hr).mono h.sound hext hlog hstate hsub

/-! ### Pushing -/

/-- A device with nothing to push has nothing unsynced. -/
private theorem Inv.synced_of_unsynced_nil (h : s.Inv) {d : ι} {batch : ℕ} (hpos : 0 < batch)
    (hnil : s.unsynced d batch = []) : s.toReplicas.Synced d := by
  intro e he hnone
  rw [unsynced, DeviceEventLog.getUnsynced, List.take_eq_nil_iff] at hnil
  have hnil := hnil.resolve_left hpos.ne'
  have hid := h.sound.authored_replicaId d e (h.sound.authored_of_unsynced he hnone)
  have hmem := List.filter_eq_nil_iff.mp hnil e he
  rw [h.sound.replicaId d] at hmem
  exact hmem (by simp [hnone, hid])

/-- What `get_unsynced` gives is what the device authored and the server did not
acknowledge. -/
theorem Inv.mem_unsynced (h : s.Inv) {d : ι} {batch : ℕ} {e : ItemDescriptor}
    (he : e ∈ s.unsynced d batch) : e ∈ (s.log d).entries ∧ (d, e) ∈ s.authored := by
  have hmem := List.mem_filter.mp (List.mem_of_mem_take he)
  have hnone : e.serverOffset = none := by
    have := hmem.2
    simp only [Bool.and_eq_true, Option.isNone_iff_eq_none] at this
    exact this.1
  exact ⟨hmem.1, h.sound.authored_of_unsynced hmem.1 hnone⟩

/-- **A push request is causally complete when it is sent.** -/
theorem Inv.batchOf_unsynced (h : s.Inv) (d : ι) (batch : ℕ) :
    s.toReplicas.BatchOf d ((s.unsynced d batch).map AppendEvent.ofDescriptor) := by
  set p : ItemDescriptor → Bool :=
    fun e => e.serverOffset.isNone && e.replicaId == (s.state d).replicaId with hp
  have hids : ((s.unsynced d batch).map AppendEvent.ofDescriptor).map AppendEvent.replicaEventId
      = eventIds (((s.log d).entries.filter p).take batch) := by
    rw [List.map_map]
    rfl
  have hnd : (eventIds ((s.log d).entries.filter p)).Nodup :=
    (h.sound.log_nodup d).sublist (List.filter_sublist.map _)
  refine ⟨?_, fun ev hev => ?_, fun x y hxy hy => ?_⟩
  · rw [hids]
    exact hnd.sublist ((List.take_sublist _ _).map _)
  · obtain ⟨e, he, rfl⟩ := List.mem_map.mp hev
    exact ⟨e, (h.mem_unsynced he).2, rfl⟩
  · rw [hids] at hy ⊢
    obtain ⟨ex, ey, hlog, rfl, rfl⟩ := precedes_map_iff.mp hxy
    by_cases hex : ex.serverOffset = none
    · -- both events are unsynced, and the limit cuts their list behind `y`
      right
      have hauth := h.sound.authored_of_unsynced hlog.mem_left hex
      have hpx : p ex = true := by
        simp [hp, hex, h.sound.replicaId, h.sound.authored_replicaId d ex hauth]
      obtain ⟨ey', hey', hid⟩ := List.mem_map.mp hy
      have hmem := List.mem_filter.mp (List.mem_of_mem_take hey')
      obtain rfl := eq_of_replicaEventId_eq (h.sound.log_nodup d) hmem.1 hlog.mem_right hid
      have hfilter := (hlog.filter hpx hmem.2).map EventDescriptor.replicaEventId
      rw [← List.take_append_drop batch ((s.log d).entries.filter p), List.map_append] at hfilter
      refine hfilter.of_append ?_ hy
      rw [← List.map_append, List.take_append_drop]
      exact hnd
    · -- an acknowledged event is on the server
      exact .inl (mem_eventIds_of_mem (h.sound.server_of_synced hlog.mem_left hex))

/-! ### Pulling -/

/-- The answer to a pull is the segment of the stream after the cursor. -/
private theorem Inv.pageOf_eventsAfter (h : s.Inv) (d : ι) (batch : ℕ) :
    s.toReplicas.PageOf d (s.server.eventsAfter (s.state d).pulled batch) where
  segment := by
    rw [h.sound.server_wf.eventsAfter_events]
    exact List.take_prefix _ _
  nextOffset := ServerEventLog.eventsAfter_nextOffset _ _ _

omit [DecidableEq ι] in
/-- An entry of the server has an offset. -/
theorem serverOffset_ne_none {r : Replicas ι} (h : r.server.WellFormed) {e : ItemDescriptor}
    (he : e ∈ r.server.entries) : e.serverOffset ≠ none := by
  obtain ⟨i, hi⟩ := List.mem_iff_getElem?.mp he
  rw [h.offset i e hi]
  exact Option.some_ne_none _

/-- A page leaves nothing unsynced behind. -/
theorem synced_receive {r : Replicas ι} {d : ι} {page : EventsPage ItemEvent ItemId}
    (h : r.Sound) (hsynced : r.Synced d) (hp : r.PageOf d page) :
    (r.receive d page).Synced d := by
  obtain ⟨new, hlog, hnew⟩ := r.exists_entries_receive d page
  intro e he
  rw [hlog] at he
  rcases List.mem_append.mp he with he | he
  · exact hsynced e he
  · exact serverOffset_ne_none h.server_wf (hp.mem_server (hnew e he))

/-! ### Every step -/

theorem Inv.init (h : s.Init) : s.Inv := by
  obtain ⟨hserver, hauth, hinflight, hd⟩ := h
  have hlog : ∀ d, (s.log d).entries = [] := fun d => by rw [(hd d).1]; rfl
  have hids : ∀ d, (s.log d).ids = [] := fun d => by rw [(hd d).1]; rfl
  have hentries : s.server.entries = [] := by rw [hserver]; rfl
  have hsids : s.server.ids = [] := by rw [hserver]; rfl
  refine ⟨?_, ?_, ?_, ?_⟩
  · constructor
    · rw [hserver]
      exact ServerEventLog.wellFormed_new
    · intro d
      rw [(hd d).2.1]
      rfl
    · simp [Replicas.authoredIds, hauth]
    · simp [hauth]
    · simp [hauth]
    · simp [hentries]
    · simp [hids]
    · simp [hlog]
    · simp [Replicas.authoredBy, hauth]
    · intro d o ho
      rw [(hd d).2.1] at ho
      cases ho
    · simp [hentries]
    · intro x y _ hy
      simp [hsids] at hy
    · intro d x y _ hy
      simp [hids] at hy
  · simp [hinflight]
  · intro d r hr
    rw [(hd d).2.2] at hr
    cases hr
  · intro d r hr
    rw [(hd d).2.2] at hr
    cases hr

omit [DecidableEq ι] in
/-- The ids the storage draws for a store make its events fresh. -/
theorem fresh_appendEvents {r : Replicas ι} {replicaId : String} {id : ItemId}
    {changes : List (Uuid × EntityEvent ItemEvent)} (hnd : (changes.map Prod.fst).Nodup)
    (hfresh : ∀ e ∈ changes.map Prod.fst, e ∉ r.authoredIds) :
    r.Fresh (ItemStorage.appendEvents replicaId id changes) := by
  refine ⟨by rwa [ItemStorage.map_replicaEventId_appendEvents], fun ev hev => hfresh _ ?_⟩
  rw [← ItemStorage.map_replicaEventId_appendEvents replicaId id changes]
  exact List.mem_map_of_mem hev

omit [DecidableEq ι] in
private theorem replicaId_of_mem_appendEvents {replicaId : String} {id : ItemId}
    {changes : List (Uuid × EntityEvent ItemEvent)} {ev : ItemAppend}
    (h : ev ∈ ItemStorage.appendEvents replicaId id changes) : ev.replicaId = replicaId := by
  obtain ⟨change, -, rfl⟩ := List.mem_map.mp h
  rfl

/-- **A step only adds to the logs.** -/
theorem Inv.extends_of_step (h : s.Inv) {a : NetAction ι} (hstep : Step s a s') :
    s.toReplicas.Extends s'.toReplicas := by
  cases hstep with
  | author _ hnd hfresh => exact h.sound.extends_author (fresh_appendEvents hnd hfresh)
  | handle | deliver => exact s.toReplicas.extends_store _ _
  | ack => exact h.sound.extends_record _ _
  | take => exact s.toReplicas.extends_receive _ _
  | newRunner => exact s.toReplicas.extends_restart _
  | beginRound | pushed | send | answer | finish | fail => exact .refl _

/-- **Every step preserves the invariant.** -/
theorem Inv.step (h : s.Inv) {a : NetAction ι} (hstep : Step s a s') : s'.Inv := by
  have hext := h.extends_of_step hstep
  have hround : ∀ {d : ι} {t : Net ι} {r₀ : Option Round} (r : Round),
      (t.setRound d r₀).round d = some r → r₀ = some r := by
    intro d t r₀ r hr
    rwa [round_setRound_self] at hr
  -- most steps send nothing
  have hsame : ∀ {d : ι}, ∀ events ∈ s.inflight, events ∉ s.inflight →
      s'.toReplicas.BatchOf d events := fun _ hm hn => absurd hm hn
  have hrefl := List.Subset.refl s.inflight
  cases hstep with
  | @author d id changes unlocked hnd hfresh =>
    have hf : s.Fresh (ItemStorage.appendEvents (s.provider d).get id changes) :=
      fresh_appendEvents hnd hfresh
    refine h.of_step (.author unlocked hnd hfresh) rfl
      (h.sound.author hf fun ev hev => replicaId_of_mem_appendEvents hev) hext hrefl hsame
      fun r hr => ?_
    rw [show _ = none from unlocked] at hr
    cases hr
  | beginRound idle pos =>
    refine h.of_step (.beginRound idle pos) rfl h.sound hext hrefl hsame fun r hr => ?_
    obtain rfl := Option.some.inj (hround r hr)
    exact ⟨pos, trivial⟩
  | pushed phase synced =>
    refine h.of_step (.pushed phase synced) rfl h.sound hext hrefl hsame fun r hr => ?_
    obtain rfl := Option.some.inj (hround r hr)
    exact ⟨(h.batch_pos _ _ phase :), h.synced_of_unsynced_nil (h.batch_pos _ _ phase) synced⟩
  | @send d batch phase unsynced =>
    refine h.of_step (.send phase unsynced) rfl h.sound hext (List.subset_cons_self _ _)
      (fun events hm hn => ?_) fun r hr => ?_
    · -- the one new request is the one this step sends
      obtain rfl := (List.mem_cons.mp hm).resolve_right hn
      exact h.batchOf_unsynced d batch
    · obtain rfl := Option.some.inj (hround r hr)
      exact ⟨(h.batch_pos _ _ phase :), List.mem_cons_self⟩
  | @handle d now batch events phase =>
    obtain ⟨d', hb⟩ := h.inflight events (h.phase d _ phase)
    refine h.of_step (.handle phase) rfl (h.sound.store hb now) hext hrefl hsame fun r hr => ?_
    obtain rfl := Option.some.inj (hround r hr)
    exact ⟨(h.batch_pos _ _ phase :), s.server.mem_entries_of_mem_append_snd now events⟩
  | ack phase =>
    refine h.of_step (.ack phase) rfl (h.sound.record (h.phase _ _ phase)) hext hrefl hsame
      fun r hr => ?_
    obtain rfl := Option.some.inj (hround r hr)
    exact ⟨(h.batch_pos _ _ phase :), trivial⟩
  | @answer d batch touched phase =>
    refine h.of_step (.answer phase) rfl h.sound hext hrefl hsame fun r hr => ?_
    obtain rfl := Option.some.inj (hround r hr)
    exact ⟨(h.batch_pos _ _ phase :), h.phase d _ phase, h.pageOf_eventsAfter d batch⟩
  | finish phase empty =>
    refine h.of_step (.finish phase empty) rfl h.sound hext hrefl hsame fun r hr => ?_
    cases hround r hr
  | take phase more =>
    obtain ⟨hsynced, hp⟩ := h.phase _ _ phase
    refine h.of_step (.take phase more) rfl (h.sound.receive hp more) hext hrefl hsame
      fun r hr => ?_
    obtain rfl := Option.some.inj (hround r hr)
    exact ⟨(h.batch_pos _ _ phase :), synced_receive h.sound hsynced hp⟩
  | fail phase pending =>
    refine h.of_step (.fail phase pending) rfl h.sound hext hrefl hsame fun r hr => ?_
    cases hround r hr
  | @deliver events now sent =>
    -- no device takes this step: a late request moves the server alone
    obtain ⟨d, hb⟩ := h.inflight events sent
    have hs' := h.sound.store hb now
    refine ⟨hs', fun events' hm => h.inflight_mono hext hs' hm, h.batch_pos, fun e r hr => ?_⟩
    exact (h.phase e r hr).mono h.sound hext rfl rfl hrefl
  | @newRunner d idle =>
    refine h.of_step (.newRunner idle) rfl (h.sound.restart d) hext hrefl hsame fun r hr => ?_
    rw [show _ = none from idle] at hr
    cases hr

end Net

end OfflineSync
