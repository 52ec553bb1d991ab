import OfflineSync.Sync

/-!
# The invariant of the sync protocol

What holds of the replicas in every state, whatever the interleaving and the network do.
`Replicas.Sound` is about the logs alone: every log holds authored events, each once and as
authored up to the server's stamps; an entry of a device log is either the server's own entry
or an event of the device that the server has not acknowledged; a device holds everything up
to its cursor; and every log is closed under `Causal`, the order in which an author saw other
events before it authored one.

What is under way is described relative to the logs. A push request is a `BatchOf` its sender:
authored by it, and causally complete, so that the server may store it at any later time; a
page in flight is a segment of the stream after the cursor. Both survive every later step
because the logs only grow (`Extends`).

`Net.Inv` collects the three parts and `Net.Inv.step` is its preservation, one lemma for each
way a step changes the replicas.
-/

namespace OfflineSync

open Dedup

variable {ι : Type}

namespace Replicas

/-- `x` was in the log of the author of `y` when `y` was authored: it still stands before `y`
there, since logs only grow at the end. -/
def Causal (s : Replicas ι) (x y : Uuid) : Prop :=
  ∃ d e, (d, e) ∈ s.authored ∧ e.replicaEventId = y ∧ Precedes (s.log d).ids x y

/-- The cursor of a device as a number; 0 before the first page. -/
def cursor (s : Replicas ι) (d : ι) : ℕ :=
  ServerEventLog.cursorVal (s.state d).pulled

/-- Every event in the log of a device has been acknowledged by the server. -/
def Synced (s : Replicas ι) (d : ι) : Prop :=
  ∀ e ∈ (s.log d).entries, e.serverOffset ≠ none

/-- What holds of the replicas in every state. -/
structure Sound [DecidableEq ι] (s : Replicas ι) : Prop where
  server_wf : s.server.WellFormed
  replicaId : ∀ d, (s.state d).replicaId = (s.provider d).get
  authored_nodup : s.authoredIds.Nodup
  authored_unstamped : ∀ d e, (d, e) ∈ s.authored → e.unstamped = e
  authored_replicaId : ∀ d e, (d, e) ∈ s.authored → e.replicaId = (s.provider d).get
  server_known : ∀ e ∈ s.server.entries, ∃ d, (d, e.unstamped) ∈ s.authored
  log_nodup : ∀ d, (s.log d).ids.Nodup
  log_known : ∀ d, ∀ e ∈ (s.log d).entries, e ∈ s.server.entries ∨ (d, e) ∈ s.authored
  own_sublist : ∀ d,
    (s.authoredBy d).Sublist ((s.log d).entries.map EventDescriptor.unstamped)
  pulled_le : ∀ d o, (s.state d).pulled = some o →
    0 < o.val ∧ o.val ≤ s.server.entries.length
  pulled_known : ∀ d, ∀ e ∈ s.server.entries.take (s.cursor d),
    e.replicaEventId ∈ (s.log d).ids
  causal_server : Closed s.Causal s.server.ids
  causal_log : ∀ d, Closed s.Causal (s.log d).ids

/-- A push request of device `d`: events `d` authored, each with everything `d` had seen
before it either at the server or earlier in the request. -/
structure BatchOf (s : Replicas ι) (d : ι) (events : List ItemAppend) : Prop where
  nodup : (events.map AppendEvent.replicaEventId).Nodup
  authored : ∀ ev ∈ events, ∃ e, (d, e) ∈ s.authored ∧ ev = AppendEvent.ofDescriptor e
  complete : ∀ x y, Precedes (s.log d).ids x y → y ∈ events.map AppendEvent.replicaEventId →
    x ∈ s.server.ids ∨ Precedes (events.map AppendEvent.replicaEventId) x y

/-- A page in flight to device `d`: the segment of the stream that starts after the cursor. -/
structure PageOf (s : Replicas ι) (d : ι) (page : EventsPage ItemEvent ItemId) : Prop where
  segment : page.events <+: s.server.entries.drop (s.cursor d)
  nextOffset : page.nextOffset = page.events.getLast?.bind EventDescriptor.serverOffset

/-- The logs of `s'` continue those of `s`. -/
structure Extends (s s' : Replicas ι) : Prop where
  server : s.server.entries <+: s'.server.entries
  log : ∀ d, (s.log d).ids <+: (s'.log d).ids
  authored : s.authored <+: s'.authored

namespace Extends

theorem refl (s : Replicas ι) : s.Extends s :=
  ⟨List.prefix_rfl, fun _ => List.prefix_rfl, List.prefix_rfl⟩

theorem trans {s₁ s₂ s₃ : Replicas ι} (h : s₁.Extends s₂) (h' : s₂.Extends s₃) :
    s₁.Extends s₃ :=
  ⟨h.server.trans h'.server, fun d => (h.log d).trans (h'.log d), h.authored.trans h'.authored⟩

theorem server_ids {s s' : Replicas ι} (h : s.Extends s') : s.server.ids <+: s'.server.ids :=
  h.server.map _

/-- The server's entries keep their positions. -/
theorem take_server {s s' : Replicas ι} (h : s.Extends s') {n : ℕ}
    (hn : n ≤ s.server.entries.length) :
    s'.server.entries.take n = s.server.entries.take n := by
  obtain ⟨new, hnew⟩ := h.server
  rw [← hnew, List.take_append_of_le_length hn]

end Extends

/-! ### Consequences -/

section Sound

variable [DecidableEq ι] {s : Replicas ι}

theorem mem_authoredBy {d : ι} {e : ItemDescriptor} :
    e ∈ s.authoredBy d ↔ (d, e) ∈ s.authored := by
  simp [authoredBy]

omit [DecidableEq ι] in
theorem mem_authoredIds {d : ι} {e : ItemDescriptor} (h : (d, e) ∈ s.authored) :
    e.replicaEventId ∈ s.authoredIds :=
  mem_eventIds_of_mem (List.mem_map_of_mem (f := Prod.snd) h)

omit [DecidableEq ι] in
/-- An event id has one author and one authored form. -/
theorem author_unique (hnd : s.authoredIds.Nodup) {d d' : ι} {e e' : ItemDescriptor}
    (he : (d, e) ∈ s.authored) (he' : (d', e') ∈ s.authored)
    (hid : e.replicaEventId = e'.replicaEventId) : d = d' ∧ e = e' := by
  rw [authoredIds, eventIds, List.map_map] at hnd
  have hpair : (d, e) = (d', e') := List.inj_on_of_nodup_map hnd he he' hid
  exact ⟨congrArg Prod.fst hpair, congrArg Prod.snd hpair⟩

/-- Every entry of a device log is authored, up to the server's stamps. -/
theorem Sound.log_authored (h : s.Sound) {d : ι} {e : ItemDescriptor}
    (he : e ∈ (s.log d).entries) : ∃ d', (d', e.unstamped) ∈ s.authored := by
  rcases h.log_known d e he with hs | ha
  · exact h.server_known e hs
  · exact ⟨d, by rwa [h.authored_unstamped d e ha]⟩

theorem Sound.log_subset_authored (h : s.Sound) (d : ι) :
    ∀ x ∈ (s.log d).ids, x ∈ s.authoredIds := by
  intro x hx
  obtain ⟨e, he, rfl⟩ := List.mem_map.mp hx
  obtain ⟨d', hd'⟩ := h.log_authored he
  simpa using mem_authoredIds hd'

theorem Sound.server_subset_authored (h : s.Sound) :
    ∀ x ∈ s.server.ids, x ∈ s.authoredIds := by
  intro x hx
  obtain ⟨e, he, rfl⟩ := List.mem_map.mp hx
  obtain ⟨d', hd'⟩ := h.server_known e he
  simpa using mem_authoredIds hd'

/-- A device log and the server store one event alike. -/
theorem Sound.unstamped_eq (h : s.Sound) {d : ι} {e e' : ItemDescriptor}
    (he : e ∈ (s.log d).entries) (he' : e' ∈ s.server.entries)
    (hid : e.replicaEventId = e'.replicaEventId) : e.unstamped = e'.unstamped := by
  obtain ⟨d₁, h₁⟩ := h.log_authored he
  obtain ⟨d₂, h₂⟩ := h.server_known e' he'
  exact (author_unique h.authored_nodup h₁ h₂ hid).2

/-- A device holds what it authored. -/
theorem Sound.own_mem (h : s.Sound) {d : ι} {e : ItemDescriptor} (he : (d, e) ∈ s.authored) :
    e.replicaEventId ∈ (s.log d).ids := by
  have hmem := (h.own_sublist d).subset (mem_authoredBy.mpr he)
  rw [DeviceEventLog.ids, ← eventIds_map_unstamped]
  exact mem_eventIds_of_mem hmem

/-- An entry without an offset is an event of the device that the server did not acknowledge. -/
theorem Sound.authored_of_unsynced (h : s.Sound) {d : ι} {e : ItemDescriptor}
    (he : e ∈ (s.log d).entries) (hnone : e.serverOffset = none) : (d, e) ∈ s.authored := by
  refine (h.log_known d e he).resolve_left fun hs => ?_
  obtain ⟨i, hi⟩ := List.mem_iff_getElem?.mp hs
  rw [h.server_wf.offset i e hi] at hnone
  cases hnone

/-- An entry with an offset is the server's own entry. -/
theorem Sound.server_of_synced (h : s.Sound) {d : ι} {e : ItemDescriptor}
    (he : e ∈ (s.log d).entries) (hsome : e.serverOffset ≠ none) : e ∈ s.server.entries := by
  refine (h.log_known d e he).resolve_right fun ha => hsome ?_
  rw [← h.authored_unstamped d e ha]
  rfl

theorem Sound.cursor_le (h : s.Sound) (d : ι) : s.cursor d ≤ s.server.entries.length := by
  rw [cursor, ServerEventLog.cursorVal]
  cases hp : (s.state d).pulled with
  | none => exact Nat.zero_le _
  | some o => exact (h.pulled_le d o hp).2

/-- Growing logs do not change what an event causally follows. -/
private theorem Sound.causal_of_extends {s' : Replicas ι} (h : s.Sound) (hext : s.Extends s')
    (hauth : s'.authoredIds.Nodup) (hlog : ∀ d, (s'.log d).ids.Nodup) {x y : Uuid}
    (hy : y ∈ s.authoredIds) (hc : s'.Causal x y) : s.Causal x y := by
  obtain ⟨d, e, he, rfl, hp⟩ := hc
  obtain ⟨e₀, hmem, hid⟩ := List.mem_map.mp hy
  obtain ⟨⟨d₀, e₀⟩, he₀, rfl⟩ := List.mem_map.mp hmem
  obtain ⟨rfl, rfl⟩ := author_unique hauth (hext.authored.subset he₀) he hid
  obtain ⟨new, hnew⟩ := hext.log d₀
  have hnd₀ := hlog d₀
  rw [← hnew] at hp hnd₀
  exact ⟨d₀, e₀, he₀, rfl, hp.of_append hnd₀ (h.own_mem he₀)⟩

/-- **A log keeps its entries, their order, and what their authors fixed**, while it grows. -/
theorem Sound.unstamped_isPrefix {s' : Replicas ι} (h : s.Sound) (h' : s'.Sound)
    (hext : s.Extends s') (d : ι) :
    (s.log d).entries.map EventDescriptor.unstamped
      <+: (s'.log d).entries.map EventDescriptor.unstamped := by
  refine isPrefix_of_map_isPrefix (f := EventDescriptor.replicaEventId) ?_ ?_ fun a ha => ?_
  · rw [← eventIds, ← eventIds, eventIds_map_unstamped, eventIds_map_unstamped]
    exact hext.log d
  · rw [← eventIds, eventIds_map_unstamped]
    exact h'.log_nodup d
  · obtain ⟨e, he, rfl⟩ := List.mem_map.mp ha
    obtain ⟨e', he', hid⟩ := List.mem_map.mp ((hext.log d).subset (mem_eventIds_of_mem he))
    obtain ⟨d₁, h₁⟩ := h.log_authored he
    obtain ⟨d₂, h₂⟩ := h'.log_authored he'
    have heq := author_unique h'.authored_nodup (hext.authored.subset h₁) h₂ hid.symm
    exact List.mem_map.mpr ⟨e', he', heq.2.symm⟩

/-- A request stays causally complete while the logs grow. -/
theorem BatchOf.mono {s' : Replicas ι} {d : ι} {events : List ItemAppend}
    (hb : s.BatchOf d events) (h : s.Sound) (hext : s.Extends s')
    (hlog : (s'.log d).ids.Nodup) : s'.BatchOf d events where
  nodup := hb.nodup
  authored := by
    intro ev hev
    obtain ⟨e, he, rfl⟩ := hb.authored ev hev
    exact ⟨e, hext.authored.subset he, rfl⟩
  complete := by
    intro x y hp hy
    have hyl : y ∈ (s.log d).ids := by
      obtain ⟨ev, hev, rfl⟩ := List.mem_map.mp hy
      obtain ⟨e, he, rfl⟩ := hb.authored ev hev
      exact h.own_mem he
    obtain ⟨new, hnew⟩ := hext.log d
    have hp : Precedes (s.log d).ids x y := by
      rw [← hnew] at hp hlog
      exact hp.of_append hlog hyl
    exact (hb.complete x y hp hy).imp_left fun hx => hext.server_ids.subset hx

/-- A page stays a segment after the cursor while the server's log grows. -/
theorem PageOf.mono {s' : Replicas ι} {d : ι} {page : EventsPage ItemEvent ItemId}
    (hp : s.PageOf d page) (h : s.Sound) (hext : s.Extends s')
    (hstate : s'.state d = s.state d) : s'.PageOf d page where
  segment := by
    obtain ⟨new, hnew⟩ := hext.server
    rw [cursor, hstate, ← cursor, ← hnew, List.drop_append_of_le_length (h.cursor_le d)]
    exact hp.segment.trans (List.prefix_append _ new)
  nextOffset := hp.nextOffset

/-! ### Acknowledgements -/

/-- `mark_synced` changes nothing the authors fixed, on any device. -/
theorem Sound.unstamped_record (h : s.Sound) (d : ι) (stored : List ItemDescriptor) (e : ι) :
    ((s.record d stored).log e).entries.map EventDescriptor.unstamped
      = (s.log e).entries.map EventDescriptor.unstamped := by
  by_cases he : e = d
  · subst he
    rw [log_record_self, DeviceEventLog.map_unstamped_markSynced (h.log_nodup e)]
  · rw [log_record_of_ne he]

theorem Sound.ids_record (h : s.Sound) (d : ι) (stored : List ItemDescriptor) (e : ι) :
    ((s.record d stored).log e).ids = (s.log e).ids := by
  rw [DeviceEventLog.ids, ← eventIds_map_unstamped, h.unstamped_record, eventIds_map_unstamped,
    DeviceEventLog.ids]

theorem Sound.extends_record (h : s.Sound) (d : ι) (stored : List ItemDescriptor) :
    s.Extends (s.record d stored) where
  server := List.prefix_rfl
  log := fun e => (h.ids_record d stored e).symm ▸ List.prefix_rfl
  authored := List.prefix_rfl

/-- An entry after an acknowledgement is as it was, or the server's own entry. -/
theorem Sound.acknowledge_known (h : s.Sound) {d : ι} {stored : List ItemDescriptor}
    (hstored : ∀ a ∈ stored, a ∈ s.server.entries) {e : ItemDescriptor}
    (he : e ∈ (s.log d).entries) :
    (stored.foldl DeviceEventLog.acknowledge e = e ∧ e.replicaEventId ∉ eventIds stored) ∨
      stored.foldl DeviceEventLog.acknowledge e ∈ s.server.entries := by
  refine (DeviceEventLog.foldl_acknowledge_cases stored e).imp_right ?_
  rintro ⟨a, ha, hid, heq⟩
  have hunst := h.unstamped_eq he (hstored a ha) hid.symm
  -- the entry and the acknowledgement agree on what the author fixed
  have hea : stored.foldl DeviceEventLog.acknowledge e = a := by
    rw [heq]
    cases e
    cases a
    simp_all [EventDescriptor.unstamped]
  rw [hea]
  exact hstored a ha

/-- The entries of a device log after `mark_synced`. -/
theorem Sound.mem_entries_record (h : s.Sound) {d : ι} {stored : List ItemDescriptor}
    {a : ItemDescriptor} (ha : a ∈ ((s.record d stored).log d).entries) :
    ∃ e ∈ (s.log d).entries, a = stored.foldl DeviceEventLog.acknowledge e := by
  rw [log_record_self, DeviceEventLog.entries_markSynced (h.log_nodup d)] at ha
  obtain ⟨e, he, rfl⟩ := List.mem_map.mp ha
  exact ⟨e, he, rfl⟩

/-- `mark_synced` with stored entries. -/
theorem Sound.record (h : s.Sound) {d : ι} {stored : List ItemDescriptor}
    (hstored : ∀ a ∈ stored, a ∈ s.server.entries) : (s.record d stored).Sound := by
  have hcausal : (s.record d stored).Causal = s.Causal := by
    funext x y
    simp only [Causal, h.ids_record]
    rfl
  exact { h with
    log_nodup := by
      intro e
      rw [h.ids_record]
      exact h.log_nodup e
    log_known := by
      intro e a ha
      by_cases he : e = d
      · subst he
        -- an entry is as it was, or has become the stored form the answer had
        obtain ⟨a₀, ha₀, rfl⟩ := h.mem_entries_record ha
        rcases h.acknowledge_known hstored ha₀ with ⟨heq, -⟩ | hs
        · rw [heq]
          exact h.log_known e a₀ ha₀
        · exact .inl hs
      · rw [log_record_of_ne he] at ha
        exact h.log_known e a ha
    own_sublist := by
      intro e
      rw [h.unstamped_record]
      exact h.own_sublist e
    pulled_known := by
      intro e a ha
      rw [h.ids_record]
      exact h.pulled_known e a ha
    causal_server := hcausal ▸ h.causal_server
    causal_log := by
      intro e
      rw [hcausal, h.ids_record]
      exact h.causal_log e }

/-! ### Pushes -/

omit [DecidableEq ι] in
theorem extends_store (s : Replicas ι) (now : ℕ → ℤ) (events : List ItemAppend) :
    s.Extends (s.store now events) where
  server := by
    obtain ⟨new, hnew, -⟩ := s.server.exists_entries_append now events
    exact ⟨new, hnew.symm⟩
  log := fun _ => List.prefix_rfl
  authored := List.prefix_rfl

/-- What the server holds after a push was there before, or its author is the sender. -/
private theorem Sound.server_known_store (h : s.Sound) {d : ι} {events : List ItemAppend}
    (hb : s.BatchOf d events) (now : ℕ → ℤ) {e : ItemDescriptor}
    (he : e ∈ (s.store now events).server.entries) :
    e ∈ s.server.entries ∨ (d, e.unstamped) ∈ s.authored := by
  obtain ⟨new, hnew, hnewKnown⟩ := s.server.exists_entries_append now events
  rw [store, hnew] at he
  refine (List.mem_append.mp he).imp_right fun he => ?_
  obtain ⟨ev, hev, log', t, rfl⟩ := hnewKnown e he
  obtain ⟨a, ha, rfl⟩ := hb.authored ev hev
  have hassign : (log'.assign (AppendEvent.ofDescriptor a) 0 t).2.unstamped = a.unstamped := rfl
  rw [hassign, h.authored_unstamped d a ha]
  exact ha

/-- The server stores a causally complete request. -/
theorem Sound.store (h : s.Sound) {d : ι} {events : List ItemAppend}
    (hb : s.BatchOf d events) (now : ℕ → ℤ) : (s.store now events).Sound := by
  have hext := s.extends_store now events
  exact { h with
    server_wf := h.server_wf.append now events
    server_known := by
      intro e he
      rcases h.server_known_store hb now he with he | he
      · exact h.server_known e he
      · exact ⟨d, he⟩
    log_known := fun e a ha => (h.log_known e a ha).imp_left fun hs => hext.server.subset hs
    pulled_le := fun e o ho =>
      ⟨(h.pulled_le e o ho).1, (h.pulled_le e o ho).2.trans hext.server.length_le⟩
    pulled_known := fun e a ha => h.pulled_known e a <| by
      rwa [← hext.take_server (h.cursor_le e)]
    causal_server := by
      rw [Replicas.store, ServerEventLog.ids_append]
      refine h.causal_server.addAll hb.nodup fun x y hc hy => ?_
      -- the sender holds `y`, so it holds what `y` causally follows
      obtain ⟨ev, hev, rfl⟩ := List.mem_map.mp hy
      obtain ⟨a, ha, rfl⟩ := hb.authored ev hev
      exact hb.complete x _ (h.causal_log d x _ hc (h.own_mem ha)) hy }

/-! ### Pages -/

section Receive

variable {d : ι} {page : EventsPage ItemEvent ItemId}

theorem ids_receive_self :
    ((s.receive d page).log d).ids = addAll (s.log d).ids (eventIds page.events) := by
  rw [log_receive_self, DeviceEventLog.ids_append, List.map_map]
  rfl

/-- A page only adds entries, and only its own events. -/
theorem exists_entries_receive (s : Replicas ι) (d : ι) (page : EventsPage ItemEvent ItemId) :
    ∃ new, ((s.receive d page).log d).entries = (s.log d).entries ++ new ∧
      ∀ e ∈ new, e ∈ page.events := by
  obtain ⟨new, hnew, hnewKnown⟩ :=
    (s.log d).exists_entries_append (page.events.map AppendEvent.ofDescriptor)
  refine ⟨new, by rw [log_receive_self, hnew], fun e he => ?_⟩
  obtain ⟨ev, hev, rfl⟩ := hnewKnown e he
  obtain ⟨a, ha, rfl⟩ := List.mem_map.mp hev
  exact ha

theorem extends_receive (s : Replicas ι) (d : ι) (page : EventsPage ItemEvent ItemId) :
    s.Extends (s.receive d page) where
  server := List.prefix_rfl
  log := by
    intro e
    by_cases he : e = d
    · subst he
      rw [ids_receive_self]
      exact isPrefix_addAll _ _
    · exact (log_receive_of_ne he).symm ▸ List.prefix_rfl
  authored := List.prefix_rfl

private theorem Sound.nodup_receive (h : s.Sound) (e : ι) :
    ((s.receive d page).log e).ids.Nodup := by
  by_cases he : e = d
  · subst he
    rw [ids_receive_self]
    exact nodup_addAll (h.log_nodup e) _
  · rw [log_receive_of_ne he]
    exact h.log_nodup e

private theorem cursor_receive_of_ne {e : ι} (he : e ≠ d) :
    (s.receive d page).cursor e = s.cursor e := by
  rw [cursor, state_receive_of_ne he, cursor]

omit [DecidableEq ι] in
/-- The stream around a page. -/
theorem PageOf.entries_eq (hp : s.PageOf d page) : ∃ rest, s.server.entries
    = s.server.entries.take (s.cursor d) ++ (page.events ++ rest) := by
  obtain ⟨rest, hrest⟩ := hp.segment
  exact ⟨rest, by rw [hrest, List.take_append_drop]⟩

omit [DecidableEq ι] in
theorem PageOf.mem_server (hp : s.PageOf d page) {e : ItemDescriptor} (he : e ∈ page.events) :
    e ∈ s.server.entries := by
  obtain ⟨rest, hrest⟩ := hp.entries_eq
  rw [hrest]
  exact List.mem_append_right _ (List.mem_append_left _ he)

private theorem PageOf.cursor_add_le (hp : s.PageOf d page) (h : s.Sound) :
    s.cursor d + page.events.length ≤ s.server.entries.length := by
  have hlen := hp.segment.length_le
  have hle := h.cursor_le d
  rw [List.length_drop] at hlen
  omega

/-- The page ends at the position that the new cursor names. -/
private theorem PageOf.pulled_receive (hp : s.PageOf d page) (h : s.Sound)
    (hne : page.events ≠ []) :
    ((s.receive d page).state d).pulled = some ⟨s.cursor d + page.events.length⟩ := by
  have htake : (s.server.entries.drop (s.cursor d)).take page.events.length = page.events := by
    obtain ⟨rest, hrest⟩ := hp.segment
    rw [← hrest, List.take_append_of_le_length le_rfl, List.take_length]
  have hseg := h.server_wf.getLast?_segment (c := s.cursor d) (k := page.events.length)
    (by rw [htake]; exact hne)
  rw [htake] at hseg
  rw [state_receive_self, hp.nextOffset, hseg]

private theorem PageOf.cursor_receive (hp : s.PageOf d page) (h : s.Sound)
    (hne : page.events ≠ []) : (s.receive d page).cursor d = s.cursor d + page.events.length := by
  rw [cursor, hp.pulled_receive h hne]
  rfl

/-- What the new cursor covers is what the old one covered, and the page. -/
theorem PageOf.take_cursor_receive (hp : s.PageOf d page) (h : s.Sound)
    (hne : page.events ≠ []) : s.server.entries.take ((s.receive d page).cursor d)
      = s.server.entries.take (s.cursor d) ++ page.events := by
  obtain ⟨rest, hrest⟩ := hp.entries_eq
  have hlen : (s.server.entries.take (s.cursor d)).length = s.cursor d := by
    rw [List.length_take, min_eq_left (h.cursor_le d)]
  rw [hp.cursor_receive h hne]
  nth_rewrite 1 [hrest]
  rw [← List.append_assoc, List.take_left' (by rw [List.length_append, hlen])]

/-- A page is causally complete for its receiver: what one of its events follows is in the
log already, or earlier in the page. -/
private theorem PageOf.complete (hp : s.PageOf d page) (h : s.Sound) {x y : Uuid}
    (hc : s.Causal x y) (hy : y ∈ eventIds page.events) :
    x ∈ (s.log d).ids ∨ Precedes (eventIds page.events) x y := by
  obtain ⟨rest, hrest⟩ := hp.entries_eq
  have hids : s.server.ids = (eventIds (s.server.entries.take (s.cursor d))
      ++ eventIds page.events) ++ eventIds rest := by
    rw [ServerEventLog.ids]
    nth_rewrite 1 [hrest]
    simp
  have hys : y ∈ s.server.ids := by
    rw [hids]
    exact List.mem_append_left _ (List.mem_append_right _ hy)
  have hnd := h.server_wf.nodup
  have hxy := h.causal_server x y hc hys
  rw [hids] at hxy hnd
  -- the part of the stream after the page has no say: `y` stands before it
  have hxy := hxy.of_append hnd (List.mem_append_right _ hy)
  have hpulled : ∀ z ∈ eventIds (s.server.entries.take (s.cursor d)), z ∈ (s.log d).ids := by
    intro z hz
    obtain ⟨e, he, rfl⟩ := List.mem_map.mp hz
    exact h.pulled_known d e he
  rcases precedes_append_iff.mp hxy with hxy | ⟨hx, -⟩ | hxy
  · exact .inl (hpulled x hxy.mem_left)
  · exact .inl (hpulled x hx)
  · exact .inr hxy

/-- A page has each event once. -/
private theorem PageOf.nodup (hp : s.PageOf d page) (h : s.Sound) :
    (eventIds page.events).Nodup := by
  refine h.server_wf.nodup.sublist (List.Sublist.map _ ?_)
  exact hp.segment.sublist.trans (List.drop_sublist _ _)

/-- A device takes in a page. -/
theorem Sound.receive (h : s.Sound) (hp : s.PageOf d page) (hne : page.events ≠ []) :
    (s.receive d page).Sound := by
  have hcausal : ∀ x y, y ∈ s.authoredIds → (s.receive d page).Causal x y → s.Causal x y :=
    fun x y hy hc => h.causal_of_extends (s.extends_receive d page) h.authored_nodup
      h.nodup_receive hy hc
  obtain ⟨new, hlog, hnew⟩ := s.exists_entries_receive d page
  exact { h with
    replicaId := by
      intro e
      by_cases he : e = d
      · subst he
        rw [state_receive_self]
        exact h.replicaId e
      · rw [state_receive_of_ne he]
        exact h.replicaId e
    log_nodup := h.nodup_receive
    log_known := by
      intro e a ha
      by_cases he : e = d
      · subst he
        rw [hlog] at ha
        rcases List.mem_append.mp ha with ha | ha
        · exact h.log_known e a ha
        · exact .inl (hp.mem_server (hnew a ha))
      · rw [log_receive_of_ne he] at ha
        exact h.log_known e a ha
    own_sublist := by
      intro e
      by_cases he : e = d
      · subst he
        rw [hlog, List.map_append]
        exact (h.own_sublist e).trans (List.sublist_append_left _ _)
      · rw [log_receive_of_ne he]
        exact h.own_sublist e
    pulled_le := by
      intro e o ho
      by_cases he : e = d
      · subst he
        rw [hp.pulled_receive h hne] at ho
        obtain rfl := Option.some.inj ho
        have hpos := List.length_pos_iff.mpr hne
        exact ⟨by dsimp only; omega, hp.cursor_add_le h⟩
      · rw [state_receive_of_ne he] at ho
        exact h.pulled_le e o ho
    pulled_known := by
      intro e a ha
      by_cases he : e = d
      · subst he
        change a ∈ s.server.entries.take _ at ha
        rw [hp.take_cursor_receive h hne] at ha
        rw [ids_receive_self, mem_addAll]
        exact (List.mem_append.mp ha).imp (h.pulled_known e a) mem_eventIds_of_mem
      · rw [cursor_receive_of_ne he] at ha
        rw [log_receive_of_ne he]
        exact h.pulled_known e a ha
    causal_server := fun x y hc hy =>
      h.causal_server x y (hcausal x y (h.server_subset_authored y hy) hc) hy
    causal_log := by
      intro e x y hc hy
      by_cases he : e = d
      · subst he
        rw [ids_receive_self] at hy ⊢
        -- every event of the page has its author, so no new cause comes with it
        have hauth : y ∈ s.authoredIds := by
          rcases mem_addAll.mp hy with hy | hy
          · exact h.log_subset_authored e y hy
          · obtain ⟨a, ha, rfl⟩ := List.mem_map.mp hy
            exact h.server_subset_authored _ (mem_eventIds_of_mem (hp.mem_server ha))
        refine (h.causal_log e).addAll (hp.nodup h) ?_ x y (hcausal x y hauth hc) hy
        exact fun x y hc hy => hp.complete h hc hy
      · rw [log_receive_of_ne he] at hy ⊢
        exact h.causal_log e x y (hcausal x y (h.log_subset_authored e y hy) hc) hy }

end Receive

/-! ### Local events -/

section Author

variable {d : ι} {events : List ItemAppend}

/-- Events whose ids are new to the whole system. -/
def Fresh (s : Replicas ι) (events : List ItemAppend) : Prop :=
  (events.map AppendEvent.replicaEventId).Nodup ∧
    ∀ ev ∈ events, ev.replicaEventId ∉ s.authoredIds

private theorem Sound.appendLocal_eq (h : s.Sound) (hf : s.Fresh events) (d : ι) :
    (s.log d).appendLocal events =
      (⟨(s.log d).entries ++ DeviceEventLog.authoredBatch events⟩,
        DeviceEventLog.authoredBatch events) :=
  DeviceEventLog.appendLocal_of_fresh hf.1 fun ev hev hmem =>
    hf.2 ev hev (h.log_subset_authored d _ hmem)

theorem Sound.entries_author (h : s.Sound) (hf : s.Fresh events) :
    ((s.author d events).log d).entries
      = (s.log d).entries ++ DeviceEventLog.authoredBatch events := by
  rw [log_author_self, h.appendLocal_eq hf]

theorem Sound.ids_author (h : s.Sound) (hf : s.Fresh events) :
    ((s.author d events).log d).ids
      = (s.log d).ids ++ events.map AppendEvent.replicaEventId := by
  rw [DeviceEventLog.ids, h.entries_author hf, eventIds_append,
    DeviceEventLog.eventIds_authoredBatch, DeviceEventLog.ids]

private theorem Sound.authored_author (h : s.Sound) (hf : s.Fresh events) :
    (s.author d events).authored
      = s.authored ++ (DeviceEventLog.authoredBatch events).map fun e => (d, e) := by
  rw [Replicas.author, h.appendLocal_eq hf]

theorem Sound.mem_authored_author (h : s.Sound) (hf : s.Fresh events) {p : ι × ItemDescriptor} :
    p ∈ (s.author d events).authored ↔
      p ∈ s.authored ∨ p.1 = d ∧ p.2 ∈ DeviceEventLog.authoredBatch events := by
  obtain ⟨d', e⟩ := p
  rw [h.authored_author hf, List.mem_append, List.mem_map]
  refine or_congr_right ⟨?_, ?_⟩
  · rintro ⟨e', he', heq⟩
    obtain ⟨rfl, rfl⟩ := Prod.mk.inj heq
    exact ⟨rfl, he'⟩
  · rintro ⟨rfl, he⟩
    exact ⟨e, he, rfl⟩

theorem Sound.authoredIds_author (h : s.Sound) (hf : s.Fresh events) :
    (s.author d events).authoredIds
      = s.authoredIds ++ events.map AppendEvent.replicaEventId := by
  rw [authoredIds, h.authored_author hf, List.map_append, eventIds_append, List.map_map,
    ← DeviceEventLog.eventIds_authoredBatch, authoredIds]
  congr 2
  exact List.map_id _

theorem Sound.authoredBy_author_self (h : s.Sound) (hf : s.Fresh events) :
    (s.author d events).authoredBy d
      = s.authoredBy d ++ DeviceEventLog.authoredBatch events := by
  rw [authoredBy, h.authored_author hf, List.filter_append, List.map_append, authoredBy]
  congr 1
  rw [List.filter_eq_self.mpr (by simp), List.map_map]
  exact List.map_id _

theorem Sound.authoredBy_author_of_ne (h : s.Sound) (hf : s.Fresh events) {e : ι}
    (he : e ≠ d) : (s.author d events).authoredBy e = s.authoredBy e := by
  have hnone : ((DeviceEventLog.authoredBatch events).map fun a => (d, a)).filter
      (fun p => p.1 = e) = [] := List.filter_eq_nil_iff.mpr <| by simpa using fun _ _ => he.symm
  rw [authoredBy, h.authored_author hf, List.filter_append, hnone, List.append_nil, authoredBy]

private theorem Sound.nodup_author (h : s.Sound) (hf : s.Fresh events) (e : ι) :
    ((s.author d events).log e).ids.Nodup := by
  by_cases he : e = d
  · subst he
    rw [h.ids_author hf]
    refine List.nodup_append.mpr ⟨h.log_nodup e, hf.1, ?_⟩
    rintro x hx y hy rfl
    obtain ⟨ev, hev, rfl⟩ := List.mem_map.mp hy
    exact hf.2 ev hev (h.log_subset_authored e _ hx)
  · rw [log_author_of_ne he]
    exact h.log_nodup e

private theorem Sound.nodup_authoredIds_author (h : s.Sound) (hf : s.Fresh events) :
    (s.author d events).authoredIds.Nodup := by
  rw [h.authoredIds_author hf]
  refine List.nodup_append.mpr ⟨h.authored_nodup, hf.1, ?_⟩
  rintro x hx y hy rfl
  obtain ⟨ev, hev, rfl⟩ := List.mem_map.mp hy
  exact hf.2 ev hev hx

theorem Sound.extends_author (h : s.Sound) (hf : s.Fresh events) :
    s.Extends (s.author d events) where
  server := List.prefix_rfl
  log := by
    intro e
    by_cases he : e = d
    · subst he
      rw [h.ids_author hf]
      exact List.prefix_append _ _
    · exact (log_author_of_ne he).symm ▸ List.prefix_rfl
  authored := by
    rw [h.authored_author hf]
    exact List.prefix_append _ _

/-- A device authors events. -/
theorem Sound.author (h : s.Sound) (hf : s.Fresh events)
    (hid : ∀ ev ∈ events, ev.replicaId = (s.provider d).get) : (s.author d events).Sound := by
  have hcausal : ∀ x y, y ∈ s.authoredIds → (s.author d events).Causal x y → s.Causal x y :=
    fun x y hy hc => h.causal_of_extends (h.extends_author hf) (h.nodup_authoredIds_author hf)
      (h.nodup_author hf) hy hc
  exact { h with
    authored_nodup := h.nodup_authoredIds_author hf
    authored_unstamped := by
      intro e a ha
      rcases (h.mem_authored_author hf).mp ha with ha | ⟨-, ha⟩
      · exact h.authored_unstamped e a ha
      · obtain ⟨ev, -, k, rfl⟩ := DeviceEventLog.mem_authoredBatch ha
        rfl
    authored_replicaId := by
      intro e a ha
      rcases (h.mem_authored_author hf).mp ha with hold | ⟨hd, hnew⟩
      · exact h.authored_replicaId e a hold
      · obtain ⟨ev, hev, k, rfl⟩ := DeviceEventLog.mem_authoredBatch hnew
        obtain rfl : e = d := hd
        exact hid ev hev
    server_known := by
      intro e he
      obtain ⟨d', hd'⟩ := h.server_known e he
      exact ⟨d', (h.mem_authored_author hf).mpr (.inl hd')⟩
    log_nodup := h.nodup_author hf
    log_known := by
      intro e a ha
      by_cases he : e = d
      · subst he
        rw [h.entries_author hf] at ha
        rcases List.mem_append.mp ha with ha | ha
        · exact (h.log_known e a ha).imp_right fun ha => (h.mem_authored_author hf).mpr (.inl ha)
        · exact .inr ((h.mem_authored_author hf).mpr (.inr ⟨rfl, ha⟩))
      · rw [log_author_of_ne he] at ha
        exact (h.log_known e a ha).imp_right fun ha => (h.mem_authored_author hf).mpr (.inl ha)
    own_sublist := by
      intro e
      by_cases he : e = d
      · subst he
        rw [h.authoredBy_author_self hf, h.entries_author hf, List.map_append]
        refine (h.own_sublist e).append ?_
        have hunst : (DeviceEventLog.authoredBatch events).map EventDescriptor.unstamped
            = DeviceEventLog.authoredBatch events := by
          rw [DeviceEventLog.authoredBatch, List.map_map]
          rfl
        rw [hunst]
      · rw [h.authoredBy_author_of_ne hf he, log_author_of_ne he]
        exact h.own_sublist e
    pulled_known := fun e a ha => ((h.extends_author hf).log e).subset (h.pulled_known e a ha)
    causal_server := fun x y hc hy =>
      h.causal_server x y (hcausal x y (h.server_subset_authored y hy) hc) hy
    causal_log := by
      intro e x y hc hy
      by_cases hold : y ∈ (s.log e).ids
      · have hp := h.causal_log e x y (hcausal x y (h.log_subset_authored e y hold) hc) hold
        exact hp.sublist ((h.extends_author hf).log e).sublist
      · -- a new event follows what its author's log holds before it, and that log is `e`'s
        have he : e = d := by
          by_contra he
          rw [log_author_of_ne he] at hy
          exact hold hy
        subst he
        obtain ⟨d', a, ha, rfl, hp⟩ := hc
        rw [h.ids_author hf, List.mem_append] at hy
        rw [← DeviceEventLog.eventIds_authoredBatch] at hy
        obtain ⟨a', ha', hid'⟩ := List.mem_map.mp (hy.resolve_left hold)
        obtain ⟨rfl, -⟩ := author_unique (h.nodup_authoredIds_author hf)
          ((h.mem_authored_author hf).mpr (.inr ⟨rfl, ha'⟩)) ha hid'
        exact hp }

end Author

/-! ### A new runner -/

theorem extends_restart (s : Replicas ι) (d : ι) : s.Extends (s.restart d) :=
  ⟨List.prefix_rfl, fun _ => List.prefix_rfl, List.prefix_rfl⟩

theorem cursor_restart_self (s : Replicas ι) (d : ι) : (s.restart d).cursor d = 0 := by
  rw [cursor, state_restart_self]
  rfl

private theorem cursor_restart_of_ne (s : Replicas ι) {d e : ι} (he : e ≠ d) :
    (s.restart d).cursor e = s.cursor e := by
  rw [cursor, state_restart_of_ne he, cursor]

/-- The cursor of a device starts over. -/
theorem Sound.restart (h : s.Sound) (d : ι) : (s.restart d).Sound := { h with
  replicaId := by
    intro e
    by_cases he : e = d
    · subst he
      rw [state_restart_self]
      rfl
    · rw [state_restart_of_ne he]
      exact h.replicaId e
  pulled_le := by
    intro e o ho
    by_cases he : e = d
    · subst he
      rw [state_restart_self] at ho
      cases ho
    · rw [state_restart_of_ne he] at ho
      exact h.pulled_le e o ho
  pulled_known := by
    intro e a ha
    by_cases he : e = d
    · subst he
      rw [cursor_restart_self, List.take_zero] at ha
      exact absurd ha List.not_mem_nil
    · rw [cursor_restart_of_ne s he] at ha
      exact h.pulled_known e a ha }

end Sound

end Replicas

end OfflineSync
