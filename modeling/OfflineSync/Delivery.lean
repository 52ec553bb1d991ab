import OfflineSync.Device

/-!
# Delivery between a device and the server

What a device pushes and what it pulls, over every run of the system.

Pushing is exactly once and in order: what the server holds of a device's events is an initial
segment of what the device authored (`push_exactly_once`). The server never sees the order in
which a device authored; it is the causal closure of its log, read for the device's own events,
that gives the order and the absence of gaps (`Sound.own_server_isPrefix`).

Pulling has no gaps: a device holds, once, every event of the stream up to its cursor, and the
cursor of a runner only moves forward (`pull_no_gaps`). A new runner starts the cursor over,
downloads the stream again and leaves the entries of the log alone.
-/

namespace OfflineSync

open Dedup

variable {ι : Type} [DecidableEq ι]

namespace Replicas

/-- The events of device `d` among some entries. -/
def ownOf (s : Replicas ι) (d : ι) (entries : List ItemDescriptor) : List ItemDescriptor :=
  entries.filter fun e => (eventIds (s.authoredBy d)).contains e.replicaEventId

private theorem mem_ownOf {s : Replicas ι} {d : ι} {entries : List ItemDescriptor}
    {e : ItemDescriptor} :
    e ∈ s.ownOf d entries ↔ e ∈ entries ∧ e.replicaEventId ∈ eventIds (s.authoredBy d) := by
  rw [ownOf, List.mem_filter, List.contains_iff_mem]

private theorem eventIds_ownOf (s : Replicas ι) (d : ι) (entries : List ItemDescriptor) :
    eventIds (s.ownOf d entries)
      = (eventIds entries).filter fun x => x ∈ eventIds (s.authoredBy d) := by
  simp only [ownOf, eventIds, List.filter_map, List.contains_eq_mem]
  rfl

/-- A device log holds an event once, up to the server's stamps. -/
def HoldsOnce (s : Replicas ι) (d : ι) (e : ItemDescriptor) : Prop :=
  (s.log d).ids.count e.replicaEventId = 1 ∧
    ∃ e' ∈ (s.log d).entries, e'.unstamped = e.unstamped

variable {s : Replicas ι}

/-! ### What a device authored -/

private theorem Sound.nodup_authoredBy (h : s.Sound) (d : ι) :
    (eventIds (s.authoredBy d)).Nodup := by
  refine h.authored_nodup.sublist (List.Sublist.map _ ?_)
  exact List.filter_sublist.map Prod.snd

/-- The device's own events in its log are what it authored, in the order it did. -/
private theorem Sound.own_log (h : s.Sound) (d : ι) :
    (s.ownOf d (s.log d).entries).map EventDescriptor.unstamped = s.authoredBy d := by
  have hnd : (((s.log d).entries.map EventDescriptor.unstamped).map
      EventDescriptor.replicaEventId).Nodup := by
    rw [← eventIds, eventIds_map_unstamped]
    exact h.log_nodup d
  have hfilter := filter_mem_map_eq_of_sublist (h.own_sublist d) hnd
  rw [List.filter_map] at hfilter
  simp only [ownOf, List.contains_eq_mem]
  exact hfilter

/-- An event of the server with the id of an authored one is that one. -/
private theorem Sound.server_unstamped_mem (h : s.Sound) {d : ι} {e : ItemDescriptor}
    (he : e ∈ s.server.entries) (hid : e.replicaEventId ∈ eventIds (s.authoredBy d)) :
    e.unstamped ∈ s.authoredBy d := by
  obtain ⟨d', hd'⟩ := h.server_known e he
  obtain ⟨a, ha, heq⟩ := List.mem_map.mp hid
  have ha := mem_authoredBy.mp ha
  obtain ⟨rfl, rfl⟩ := author_unique h.authored_nodup ha hd' heq
  exact mem_authoredBy.mpr hd'

/-- **What the server holds of a device's events is an initial segment of what the device
authored.** -/
theorem Sound.own_server_isPrefix (h : s.Sound) (d : ι) :
    (s.ownOf d s.server.entries).map EventDescriptor.unstamped <+: s.authoredBy d := by
  -- an author has its own earlier events in its log, so they are causes of the later ones
  have hclosed : Closed (Precedes (eventIds (s.authoredBy d))) s.server.ids := by
    intro x y hxy hy
    refine h.causal_server x y ?_ hy
    obtain ⟨e, he, rfl⟩ := List.mem_map.mp hxy.mem_right
    refine ⟨d, e, mem_authoredBy.mp he, rfl, ?_⟩
    have hlog := hxy.sublist ((h.own_sublist d).map EventDescriptor.replicaEventId)
    rwa [← eventIds, eventIds_map_unstamped] at hlog
  have hids := hclosed.filter_isPrefix (h.nodup_authoredBy d) h.server_wf.nodup
  refine isPrefix_of_map_isPrefix (f := EventDescriptor.replicaEventId) ?_
    (h.nodup_authoredBy d) fun e he => ?_
  · rw [← eventIds, eventIds_map_unstamped, eventIds_ownOf]
    exact hids
  · obtain ⟨e₀, he₀, rfl⟩ := List.mem_map.mp he
    obtain ⟨hserver, hid⟩ := mem_ownOf.mp he₀
    exact h.server_unstamped_mem hserver hid

/-- What a synced device authored is on the server. -/
private theorem Sound.exists_server_of_synced (h : s.Sound) {d : ι} (hsynced : s.Synced d)
    {e : ItemDescriptor} (he : (d, e) ∈ s.authored) :
    ∃ e' ∈ s.server.entries, e'.unstamped = e := by
  obtain ⟨e', he', hid⟩ := List.mem_map.mp (h.own_mem he)
  have hserver := h.server_of_synced he' (hsynced e' he')
  obtain ⟨d', hd'⟩ := h.server_known e' hserver
  exact ⟨e', hserver, (author_unique h.authored_nodup hd' he hid).2⟩

/-! ### What a device pulled -/

/-- The events up to the cursor are in the log, once. -/
private theorem Sound.holdsOnce (h : s.Sound) {d : ι} {e : ItemDescriptor}
    (he : e ∈ s.server.entries.take (s.cursor d)) : s.HoldsOnce d e := by
  have hmem := h.pulled_known d e he
  refine ⟨List.count_eq_one_of_mem (h.log_nodup d) hmem, ?_⟩
  obtain ⟨e', he', hid⟩ := List.mem_map.mp hmem
  exact ⟨e', he', h.unstamped_eq he' (List.mem_of_mem_take he) hid⟩

/-- What a log holds once it holds once ever after. -/
private theorem HoldsOnce.mono {s' : Replicas ι} {d : ι} {e : ItemDescriptor} (hh : s.HoldsOnce d e)
    (he : e ∈ s.server.entries) (h' : s'.Sound) (hext : s.Extends s') : s'.HoldsOnce d e := by
  have hmem : e.replicaEventId ∈ (s'.log d).ids := by
    refine (hext.log d).subset (List.count_pos_iff.mp ?_)
    rw [hh.1]
    exact Nat.one_pos
  refine ⟨List.count_eq_one_of_mem (h'.log_nodup d) hmem, ?_⟩
  obtain ⟨e', he', hid⟩ := List.mem_map.mp hmem
  exact ⟨e', he', h'.unstamped_eq he' (hext.server.subset he) hid⟩

end Replicas

/-! ### Over a run -/

namespace NetRun

open Net

variable {r : NetRun ι} {d : ι} {t t' t₀ t₁ : ℕ}

/-- A cursor that was set stays set, at no smaller offset. -/
private theorem SameRunner.pulled_mono (hs : SameRunner r d t t') (h : t ≤ t') (ht' : t' ≤ r.length)
    {o : ServerOffset} (ho : ((r.state t).state d).pulled = some o) :
    ∃ o', ((r.state t').state d).pulled = some o' ∧ o.val ≤ o'.val := by
  have hle := hs.cursor_le h ht'
  have hpos := ((r.sound (h.trans ht')).pulled_le d o ho).1
  rw [Replicas.cursor, Replicas.cursor, ho] at hle
  change o.val ≤ _ at hle
  cases ho' : ((r.state t').state d).pulled with
  | none =>
    rw [ho'] at hle
    change o.val ≤ 0 at hle
    omega
  | some o' =>
    rw [ho'] at hle
    exact ⟨o', rfl, hle⟩

/-- A new runner starts from no cursor. -/
private theorem pulled_of_newRunner (ht : t < r.length)
    (ha : r.act t = some (.sync (.newRunner d))) : ((r.state (t + 1)).state d).pulled = none := by
  have hstep := r.step_of_act ht ha
  generalize r.state (t + 1) = s' at hstep
  cases hstep with
  | newRunner =>
    rw [Replicas.state_restart_self]
    rfl

/-- The pull side leaves the entries of the log alone: a page only adds entries at the end. -/
private theorem entries_isPrefix_of_take (ht : t < r.length)
    (ha : r.act t = some (.sync (.take d))) :
    ((r.state t).log d).entries <+: ((r.state (t + 1)).log d).entries := by
  have hstep := r.step_of_act ht ha
  generalize r.state (t + 1) = s' at hstep
  cases hstep with
  | finish => exact List.prefix_rfl
  | take =>
    obtain ⟨new, hnew, -⟩ := (r.state t).exists_entries_receive d _
    exact ⟨new, hnew.symm⟩

/-- **A new runner downloads the whole stream again.** -/
theorem downloaded_of_newRunner (ha : r.act t = some (.sync (.newRunner d))) (ht : t < r.length)
    {n : ℕ} (hn : t + 1 + n ≤ r.length) (hs : SameRunner r d (t + 1) (t + 1 + n)) :
    downloaded r d (t + 1) n
      = (r.state (t + 1 + n)).server.entries.take ((r.state (t + 1 + n)).cursor d) := by
  have hcursor : (r.state (t + 1)).cursor d = 0 := by
    rw [Replicas.cursor, pulled_of_newRunner ht ha]
    rfl
  rw [hs.take_cursor_eq hn, hcursor, List.take_zero, List.nil_append]

/-! ### Rounds that return `Ok` -/

/-- What a device has authored is on the server once a round returns `Ok`. -/
theorem ReturnsOk.exists_server {t₀ t₁ : ℕ} (h : r.ReturnsOk d t₀ t₁) (htt : t₁ ≤ t)
    (ht : t ≤ r.length) {e : ItemDescriptor} (he : (d, e) ∈ (r.state t₁).authored) :
    ∃ a ∈ (r.state t).server.entries, a.unstamped = e := by
  obtain ⟨a, ha, heq⟩ := (r.sound h.lt.le).exists_server_of_synced h.spec.1 he
  exact ⟨a, (r.extends_of_le htt ht).server.subset ha, heq⟩

/-- What is on the server when a round begins is in the log once it returns `Ok`. -/
theorem ReturnsOk.exists_log {t₀ t₁ : ℕ} (h : r.ReturnsOk d t₀ t₁) (htt : t₁ ≤ t)
    (ht : t ≤ r.length) {a : ItemDescriptor} (ha : a ∈ (r.state t₀).server.entries) :
    ∃ a' ∈ ((r.state t).log d).entries, a'.unstamped = a.unstamped := by
  obtain ⟨-, t₂, hlast, -, hcursor⟩ := h.spec
  have hbefore := hlast.before
  have hle₂ : t₂ ≤ r.length := hbefore.le.trans h.lt.le
  have hmem := (r.extends_of_le hlast.after.le hle₂).server.subset ha
  have hholds : (r.state t₂).toReplicas.HoldsOnce d a := (r.sound hle₂).holdsOnce (by
    rw [hcursor, List.take_length]
    exact hmem)
  exact (hholds.mono hmem (r.sound ht) (r.extends_of_le (hbefore.le.trans htt) ht)).2

end NetRun

/-- **Pushing is exactly once and in order.** At every time of every run the events of a device
that the server holds are, without the server's stamps, an initial segment of what the device
authored, which its own log has in that order; the server has each once and lists them by
increasing offset. When a round of the device returns `Ok`, that segment has reached everything
the device had authored when the round began, and its log has none of it unsynced. -/
theorem push_exactly_once (r : SystemRun ι) (d : ι) :
    (∀ t ≤ r.length,
      ((r.state t).net.ownOf d (r.state t).net.server.entries).map EventDescriptor.unstamped
          <+: (r.state t).net.authoredBy d ∧
        ((r.state t).net.ownOf d ((r.state t).entries d)).map EventDescriptor.unstamped
          = (r.state t).net.authoredBy d ∧
        (r.state t).net.server.ids.Nodup ∧
        (r.state t).net.server.entries.Pairwise fun a b =>
          ServerEventLog.streamKey a < ServerEventLog.streamKey b) ∧
    ∀ t₀ t₁, r.netRun.ReturnsOk d t₀ t₁ → ∀ e ∈ (r.state t₀).net.authoredBy d,
      (∀ t, t₁ ≤ t → t ≤ r.length →
        ∃ e' ∈ (r.state t).net.server.entries, e'.unstamped = e) ∧
      ∀ e' ∈ (r.state (t₁ + 1)).entries d,
        e'.replicaEventId = e.replicaEventId → e'.serverOffset ≠ none := by
  refine ⟨fun t ht => ?_, fun t₀ t₁ hret e he => ⟨fun t ht₁ ht => ?_, fun e' he' _ => ?_⟩⟩
  · have hs := r.netRun.sound ht
    exact ⟨hs.own_server_isPrefix d, hs.own_log d, hs.server_wf.nodup, hs.server_wf.pairwise_lt⟩
  · have hs := r.netRun.sound hret.lt.le
    -- a round authors nothing, so what it leaves synced includes all it began with
    have hauth : e ∈ (r.netRun.state t₁).authoredBy d := by
      rw [hret.inRound.quiet.authoredBy_eq hret.inRound.lt.le hret.inRound.le]
      exact he
    obtain ⟨e', he', rfl⟩ :=
      hs.exists_server_of_synced hret.spec.1 (Replicas.mem_authoredBy.mp hauth)
    exact ⟨e', (r.netRun.extends_of_le ht₁ ht).server.subset he', rfl⟩
  · exact hret.synced e' he'

theorem push_exactly_once_exchangedItems :
    (exchangedItemsRun.state 12).net.authoredBy false ≠ [] ∧
      ∀ e ∈ (exchangedItemsRun.state 12).net.authoredBy false,
        (∃ e' ∈ (exchangedItemsRun.state 47).net.server.entries, e'.unstamped = e) ∧
          ∀ e' ∈ (exchangedItemsRun.state 21).entries false,
            e'.replicaEventId = e.replicaEventId → e'.serverOffset ≠ none := by
  obtain ⟨⟨hround, -⟩, -⟩ := returnsOk_exchangedItems
  refine ⟨by decide +kernel, fun e he => ?_⟩
  obtain ⟨hserver, hsynced⟩ := (push_exactly_once exchangedItemsRun false).2 12 20 hround e he
  exact ⟨hserver 47 (by decide) (by decide), hsynced⟩

/-- **Pulling has no gaps.** At every time of every run a device holds, once, every event of
the server up to its cursor. As long as its runner is not replaced, a cursor that is set stays
set and does not decrease. When a round returns `Ok`, the device holds once all that the server
held when it last answered.

After a new runner the cursor starts from nothing, what is downloaded is the stream from its
start up to the cursor, and a round that returns `Ok` has downloaded all of it. Throughout, a
page leaves the entries of the log as they are and where they are, and nothing ever changes in
them but the server's stamps. -/
theorem pull_no_gaps (r : SystemRun ι) (d : ι) :
    (∀ t ≤ r.length, ((r.state t).net.log d).ids.Nodup ∧
      ∀ e ∈ (r.state t).net.server.entries, ∀ o p, e.serverOffset = some o →
        ((r.state t).net.state d).pulled = some p → o.val ≤ p.val →
        (r.state t).net.HoldsOnce d e) ∧
    (∀ t t', t ≤ t' → t' ≤ r.length → r.netRun.SameRunner d t t' →
      ∀ o, ((r.state t).net.state d).pulled = some o →
        ∃ o', ((r.state t').net.state d).pulled = some o' ∧ o.val ≤ o'.val) ∧
    (∀ t₀ t₁, r.netRun.ReturnsOk d t₀ t₁ → ∃ t₂, r.netRun.LastAnswer d t₀ t₁ t₂ ∧
      ∀ e ∈ (r.state t₂).net.server.entries, (r.state (t₁ + 1)).net.HoldsOnce d e) ∧
    (∀ t < r.length, r.act t = .sync (.newRunner d) →
      ((r.state (t + 1)).net.state d).pulled = none ∧
      (∀ n, t + 1 + n ≤ r.length → r.netRun.SameRunner d (t + 1) (t + 1 + n) →
        r.netRun.downloaded d (t + 1) n = (r.state (t + 1 + n)).net.server.entries.take
          ((r.state (t + 1 + n)).net.cursor d)) ∧
      ∀ t₀ t₁, t < t₀ → r.netRun.ReturnsOk d t₀ t₁ → r.netRun.SameRunner d (t + 1) t₁ →
        ∃ t₂, r.netRun.LastAnswer d t₀ t₁ t₂ ∧
          r.netRun.downloaded d (t + 1) (t₂ - (t + 1)) = (r.state t₂).net.server.entries) ∧
    (∀ t < r.length, r.act t = .sync (.take d) →
      (r.state t).entries d <+: (r.state (t + 1)).entries d) ∧
    ∀ t t', t ≤ t' → t' ≤ r.length →
      ((r.state t).entries d).map EventDescriptor.unstamped
        <+: ((r.state t').entries d).map EventDescriptor.unstamped := by
  have hact : ∀ {t a}, r.act t = .sync a → r.netRun.act t = some (.sync a) := fun {t a} ha => by
    change (r.state t).netAction (r.act t) = _
    rw [ha]
    rfl
  refine ⟨fun t ht => ⟨(r.netRun.sound ht).log_nodup d, fun e he o p ho hp hle => ?_⟩,
    fun t t' h ht' hs o ho => hs.pulled_mono h ht' ho, fun t₀ t₁ hret => ?_,
    fun t ht ha => ⟨NetRun.pulled_of_newRunner ht (hact ha),
      fun n hn hs => NetRun.downloaded_of_newRunner (hact ha) ht hn hs,
      fun t₀ t₁ hlt hret hs => ?_⟩,
    fun t ht ha => NetRun.entries_isPrefix_of_take ht (hact ha), fun t t' h ht' => ?_⟩
  · -- an offset up to the cursor is a position below it
    have hs := r.netRun.sound ht
    refine hs.holdsOnce (hs.server_wf.mem_take he ho ?_)
    change o.val ≤ ServerEventLog.cursorVal ((r.state t).net.state d).pulled
    rw [hp]
    exact hle
  · obtain ⟨-, t₂, hlast, -, hcursor⟩ := hret.spec
    refine ⟨t₂, hlast, fun e he => ?_⟩
    -- at its last answer the cursor covered the whole stream
    have hle : t₂ ≤ t₁ + 1 := by have := hlast.before; omega
    refine Replicas.HoldsOnce.mono ((r.netRun.sound (hle.trans hret.lt)).holdsOnce ?_) he
      (r.netRun.sound hret.lt) (r.netRun.extends_of_le hle hret.lt)
    rw [hcursor, List.take_length]
    exact he
  · obtain ⟨-, t₂, hlast, -, hcursor⟩ := hret.spec
    refine ⟨t₂, hlast, ?_⟩
    have hafter := hlast.after
    have hbefore := hlast.before
    have hsum : t + 1 + (t₂ - (t + 1)) = t₂ := by omega
    have hlt₂ : t₂ ≤ r.length := hbefore.le.trans hret.lt.le
    have hdown := NetRun.downloaded_of_newRunner (r := r.netRun) (n := t₂ - (t + 1)) (hact ha)
      ht (by rw [hsum]; exact hlt₂) fun u hu hut => hs u hu (by omega)
    rw [hdown, hsum, hcursor, List.take_length]
    rfl
  · exact (r.netRun.sound (h.trans ht')).unstamped_isPrefix (r.netRun.sound ht')
      (r.netRun.extends_of_le h ht') d

theorem pull_no_gaps_exchangedItems :
    (exchangedItemsRun.state 41).net.server.entries ≠ [] ∧
      ((exchangedItemsRun.state 41).net.state false).pulled = none ∧
      (∃ t, exchangedItemsRun.netRun.LastAnswer false 41 46 t ∧
        ∀ e ∈ (exchangedItemsRun.state t).net.server.entries,
          (exchangedItemsRun.state 47).net.HoldsOnce false e) ∧
      ∃ t, exchangedItemsRun.netRun.LastAnswer false 41 46 t ∧
        exchangedItemsRun.netRun.downloaded false 41 (t - 41)
          = (exchangedItemsRun.state t).net.server.entries := by
  obtain ⟨-, -, hround⟩ := returnsOk_exchangedItems
  obtain ⟨-, -, hlast, hrestart, -⟩ := pull_no_gaps exchangedItemsRun false
  obtain ⟨hnone, -, hdownloaded⟩ := hrestart 40 (by decide) rfl
  refine ⟨by decide +kernel, hnone, hlast 41 46 hround, hdownloaded 41 46 (by decide) hround ?_⟩
  intro u hu hu' hact
  interval_cases u <;> cases hact

end OfflineSync
