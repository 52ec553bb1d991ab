import OfflineSync.Delivery
import OfflineSync.Freshness
import OfflineSync.Phones

/-!
# Going offline and coming back

What the toggle of `SyncRunner` means for the data. `set_online(false)` stops nothing that is
already going on, but when no task stands before `sync_once` or is in it, the phone is cut off until
the next `set_online(true)`: it sends and asks nothing, its cursor stays, its log grows by what its
own stores append, and none of these events gets anywhere (`offline_keeps_to_itself`). On the way
back one round is spawned. When it returns `Ok`, everything the phone had authored is on the server,
every later round of another device that returns `Ok` brings it there, and there the rows show it
(`reconnect_delivers`).
-/

namespace OfflineSync

open Dedup

variable {ι : Type} [DecidableEq ι]

/-! ### Events only their author has -/

namespace Net

/-- Only device `d` has the event: it is not at the server, not on its way there, and on no other
device. -/
structure Kept (s : Net ι) (d : ι) (x : Uuid) : Prop where
  authored : x ∈ s.authoredIds
  server : x ∉ s.server.ids
  inflight : ∀ events ∈ s.inflight, x ∉ events.map AppendEvent.replicaEventId
  log : ∀ e ≠ d, x ∉ (s.log e).ids

variable {s s' : Net ι} {a : NetAction ι} {d : ι} {x : Uuid}

/-- What is new in the log of a device after a page was on the server before. -/
private theorem Inv.notMem_receive (h : s.Inv) {e : ι} {batch : ℕ} {touched : List ItemId}
    {page : EventsPage ItemEvent ItemId} (phase : s.round e = some ⟨batch, .pulled touched page⟩)
    (hserver : x ∉ s.server.ids) (hx : x ∉ (s.log e).ids) : x ∉ ((s.receive e page).log e).ids := by
  obtain ⟨new, hentries, hnew⟩ := s.toReplicas.exists_entries_receive e page
  rw [DeviceEventLog.ids, hentries, eventIds_append, List.mem_append, not_or]
  refine ⟨hx, fun hmem => hserver ?_⟩
  obtain ⟨y, hy, rfl⟩ := List.mem_map.mp hmem
  exact mem_eventIds_of_mem ((h.phase e _ phase).2.mem_server (hnew y hy))

/-- **While its author takes no part in sync, an event stays where it is.** -/
theorem Inv.kept_of_step (h : s.Inv) (hstep : Step s a s')
    (ha : ∀ b, a = .sync b → b.device ≠ some d) (hx : s.Kept d x) : s'.Kept d x := by
  have hsent : ∀ {events}, events ∈ s.inflight → ∀ now, x ∉ (s.store now events).server.ids := by
    intro events hmem now hin
    rw [Replicas.store, ServerEventLog.ids_append] at hin
    rcases mem_addAll.mp hin with hin | hin
    · exact hx.server hin
    · exact hx.inflight events hmem hin
  cases hstep with
  | @author d' id changes unlocked nodup fresh =>
    have hf : s.toReplicas.Fresh (ItemStorage.appendEvents (s.provider d').get id changes) :=
      fresh_appendEvents nodup fresh
    have hids := h.sound.authoredIds_author (d := d') hf
    refine ⟨?_, hx.server, hx.inflight, fun e he => ?_⟩
    · change x ∈ (s.toReplicas.author d' _).authoredIds
      rw [hids]
      exact List.mem_append_left _ hx.authored
    · change x ∉ ((s.toReplicas.author d' _).log e).ids
      rcases eq_or_ne e d' with rfl | hne
      · -- the ids drawn for the new events are in use nowhere
        rw [h.sound.ids_author hf, List.mem_append, not_or]
        refine ⟨hx.log e he, fun hmem => ?_⟩
        rw [ItemStorage.map_replicaEventId_appendEvents] at hmem
        exact fresh x hmem hx.authored
      · rw [Replicas.log_author_of_ne hne]
        exact hx.log e he
  | @send d' batch phase unsynced =>
    have hne : d' ≠ d := by
      rintro rfl
      exact ha _ rfl rfl
    refine ⟨hx.authored, hx.server, fun events hmem hin => ?_, hx.log⟩
    rcases List.mem_cons.mp hmem with rfl | hmem
    · -- what another device sends it has in its log
      obtain ⟨ev, hev, rfl⟩ := List.mem_map.mp hin
      obtain ⟨y, hy, rfl⟩ := List.mem_map.mp hev
      exact hx.log d' hne (mem_eventIds_of_mem (h.mem_unsynced hy).1)
    · exact hx.inflight events hmem hin
  | @handle d' now batch events phase =>
    exact ⟨hx.authored, hsent (h.phase d' _ phase) now, hx.inflight, hx.log⟩
  | deliver sent => exact ⟨hx.authored, hsent sent _, hx.inflight, hx.log⟩
  | @ack d' batch stored phase =>
    refine ⟨hx.authored, hx.server, hx.inflight, fun e he => ?_⟩
    have hids := h.sound.ids_record d' stored e
    exact hids ▸ hx.log e he
  | @take d' batch touched page phase more =>
    refine ⟨hx.authored, hx.server, hx.inflight, fun e he => ?_⟩
    rcases eq_or_ne e d' with rfl | hne
    · exact h.notMem_receive phase hx.server (hx.log e he)
    · have hlog : (s.receive d' page).log e = s.log e := Replicas.log_receive_of_ne hne
      exact hlog ▸ hx.log e he
  | beginRound | pushed | answer | finish | fail | newRunner =>
    exact ⟨hx.authored, hx.server, hx.inflight, hx.log⟩

/-- An event that is just authored is nowhere else. -/
private theorem Inv.kept_of_author (h : s.Inv) {id : ItemId}
    {changes : List (Uuid × EntityEvent ItemEvent)}
    (hstep : Step s (.author d id changes) s') (hx : x ∈ changes.map Prod.fst) : s'.Kept d x := by
  cases hstep with
  | author unlocked nodup fresh =>
    have hf : s.toReplicas.Fresh (ItemStorage.appendEvents (s.provider d).get id changes) :=
      fresh_appendEvents nodup fresh
    have hnew := fresh x hx
    refine ⟨?_, fun hmem => hnew (h.sound.server_subset_authored x hmem), fun events hmem hin => ?_,
      fun e he hmem => ?_⟩
    · change x ∈ (s.toReplicas.author d _).authoredIds
      rw [h.sound.authoredIds_author hf, ItemStorage.map_replicaEventId_appendEvents]
      exact List.mem_append_right _ hx
    · -- a request under way holds authored events only
      obtain ⟨e, hbatch⟩ := h.inflight events hmem
      obtain ⟨ev, hev, rfl⟩ := List.mem_map.mp hin
      obtain ⟨y, hy, rfl⟩ := hbatch.authored ev hev
      exact hnew (Replicas.mem_authoredIds hy)
    · have hlog : (s.toReplicas.author d (ItemStorage.appendEvents (s.provider d).get id
          changes)).log e = s.log e := Replicas.log_author_of_ne he
      exact hnew (h.sound.log_subset_authored e x (hlog ▸ hmem))

/-- Apart from its beginning a round is moved while it is under way. -/
private theorem Step.round_ne_none {b : SyncAction ι} (h : Step s (.sync b) s')
    (hd : b.device = some d)
    (hb : ∀ e batch, b ≠ .beginRound e batch ∧ b ≠ .newRunner e) : s.round d ≠ none := by
  cases h with
  | beginRound => exact absurd rfl (hb _ _).1
  | newRunner => exact absurd rfl (hb _ 0).2
  | deliver => cases hd
  | pushed phase | send phase | handle phase | ack phase | answer phase | finish phase
  | take phase | fail phase =>
    obtain rfl := Option.some.inj hd
    rw [phase]
    exact Option.some_ne_none _

end Net

namespace NetRun

variable {r : NetRun ι} {d : ι} {t t' : ℕ}

/-- Device `d` takes no part in sync from time `t` on, until `t'`. -/
def Apart (r : NetRun ι) (d : ι) (t t' : ℕ) : Prop :=
  ∀ u, t ≤ u → u < t' → ∀ b, r.act u = some (.sync b) → b.device ≠ some d

/-- The events that a device authored since time `t`, all of them kept to itself. -/
structure OwnOnly (r : NetRun ι) (d : ι) (t u : ℕ) (new : List ItemDescriptor) : Prop where
  entries : ((r.state u).log d).entries = ((r.state t).log d).entries ++ new
  authored : (r.state u).authoredBy d = (r.state t).authoredBy d ++ new
  kept : ∀ e ∈ new, e.serverOffset = none ∧ (r.state u).Kept d e.replicaEventId
  state : (r.state u).state d = (r.state t).state d

/-- **A device that takes no part in sync keeps what it authors to itself.** -/
theorem Apart.exists_ownOnly (h : r.Apart d t t') (hle : t ≤ t') (ht' : t' ≤ r.length) :
    ∃ new, r.OwnOnly d t t' new := by
  suffices ∀ u, t ≤ u → u ≤ r.length → u ≤ t' → ∃ new, r.OwnOnly d t u new from
    this t' hle ht' le_rfl
  refine r.le_induction (fun _ => ⟨[], by simp, by simp, by simp, rfl⟩) fun u htu hu ih hut => ?_
  obtain ⟨new, hown⟩ := ih (Nat.le_of_succ_le hut)
  have hinv := r.inv hu.le
  rcases r.step_cases hu with ⟨-, heq⟩ | ⟨a, ha, hstep⟩
  · exact ⟨new, by rw [heq]; exact hown.entries, by rw [heq]; exact hown.authored,
      by rw [heq]; exact hown.kept, by rw [heq]; exact hown.state⟩
  · have hsync : ∀ b, a = .sync b → b.device ≠ some d := by
      rintro b rfl
      exact h u htu hut b ha
    have hkept : ∀ e ∈ new, e.serverOffset = none ∧ (r.state (u + 1)).Kept d e.replicaEventId :=
      fun e he => (hown.kept e he).imp_right (hinv.kept_of_step hstep hsync)
    by_cases hd : a.device = some d
    · cases a with
      | sync b => exact absurd hd (hsync b rfl)
      | author d' id changes =>
        obtain rfl := Option.some.inj hd
        obtain ⟨hf, hnext⟩ := author_of_act hu ha
        have hbatch : ∀ e ∈ DeviceEventLog.authoredBatch (ItemStorage.appendEvents
            ((r.state u).provider d').get id changes), e.serverOffset = none ∧
              (r.state (u + 1)).Kept d' e.replicaEventId := by
          intro e he
          obtain ⟨ev, hev, k, rfl⟩ := DeviceEventLog.mem_authoredBatch he
          refine ⟨rfl, hinv.kept_of_author hstep ?_⟩
          rw [← ItemStorage.map_replicaEventId_appendEvents ((r.state u).provider d').get id
            changes]
          exact List.mem_map_of_mem hev
        refine ⟨new ++ DeviceEventLog.authoredBatch (ItemStorage.appendEvents
          ((r.state u).provider d').get id changes), ?_, ?_, fun e he => ?_, ?_⟩
        · rw [hnext, hinv.sound.entries_author hf, hown.entries, List.append_assoc]
        · rw [hnext, hinv.sound.authoredBy_author_self hf, hown.authored, List.append_assoc]
        · exact (List.mem_append.mp he).elim (hkept e) (hbatch e)
        · rw [hnext]
          exact hown.state
    · obtain ⟨hlog, hstate, -⟩ := hstep.frame hd
      refine ⟨new, by rw [hlog]; exact hown.entries, ?_, hkept, by rw [hstate]; exact hown.state⟩
      rw [hinv.authoredBy_of_step hstep fun id changes heq => hd (by rw [heq]; rfl)]
      exact hown.authored

end NetRun

/-! ### A phone that is offline -/

namespace SyncRunner

variable {s s' : SyncRunner} {a : RunnerAction}

/-- The status changes by `set_online`. -/
private theorem Step.online_cases (h : Step s a s') :
    s'.online = s.online ∨ a = .setOnline s'.online := by
  cases h with
  | reconnect | setOnline => exact .inr rfl
  | _ => exact .inl rfl

end SyncRunner

namespace Phones

variable {s s' : Phones ι} {a : PhoneAction ι} {d : ι}

/-- The status of the phone is offline, and no task is before or in `sync_once`. -/
structure Silent (s : Phones ι) (d : ι) : Prop where
  offline : (s.runner d).online = false
  pending : ¬ (s.runner d).Pending
  once : ∀ T, s.once d T = none

omit [DecidableEq ι] in
/-- A silent phone runs no round. -/
private theorem Silent.round (h : s.Silent d) (hw : s.Wired d) : s.system.net.round d = none := by
  refine hw.round.mpr ?_
  cases hactive : s.active d with
  | none => rfl
  | some T =>
    have honce := (hw.active T).mp hactive
    rw [h.once T] at honce
    cases honce

/-- **Only `set_online(true)` ends the silence.** -/
theorem Silent.step (h : s.Silent d) (hw : s.Wired d) (hstep : Step s a s')
    (ha : a ≠ .call d (.setOnline true)) : s'.Silent d := by
  by_cases hd : a.device = some d
  · have hrunner : ∀ {b runner}, SyncRunner.Step (s.runner d) b runner →
        (b = .setOnline true → a = .call d b) → runner.online = false ∧ ¬ runner.Pending := by
      intro b runner step hb
      have hoff : runner.online = false := by
        rcases step.online_cases with heq | heq
        · rw [heq, h.offline]
        · by_contra hon
          rw [Bool.not_eq_false] at hon
          rw [hon] at heq
          exact ha (heq ▸ hb heq)
      exact ⟨hoff, step.not_pending (fun _ => h.pending) (fun _ => h.pending) hoff⟩
    cases hstep with
    | @call d' b runner app step =>
      obtain rfl := Option.some.inj hd
      obtain ⟨hoff, hpending⟩ := hrunner step fun _ => rfl
      exact ⟨by simpa [setRunner] using hoff, by simpa [setRunner] using hpending, h.once⟩
    | @outside d' T runner outside step stays =>
      obtain rfl := Option.some.inj hd
      obtain ⟨hoff, hpending⟩ := hrunner step fun hb => by cases T <;> cases hb
      exact ⟨by simpa [setRunner] using hoff, by simpa [setRunner] using hpending, h.once⟩
    | @enter d' T runner outside step enters =>
      obtain rfl := Option.some.inj hd
      exact absurd enters.pending h.pending
    | setListener | sync | storage => exact ⟨h.offline, h.pending, h.once⟩
    | @ends b d' T touched system step ends active =>
      obtain rfl := Option.some.inj ((Net.device_of_ends ends).symm.trans hd)
      have hsyncing := (hw.active T).mp active
      rw [h.once T] at hsyncing
      cases hsyncing
    | @rebuilt d' T system step rebuilder =>
      obtain rfl := Option.some.inj hd
      obtain ⟨touched, hrebuilding⟩ := (hw.rebuilder T).mp rebuilder
      rw [h.once T] at hrebuilding
      cases hrebuilding
    | @leave d' T _ waits | @lockLog d' T _ waits | @lockStorage d' T _ _ _ waits
    | @notify d' T waits =>
      obtain rfl := Option.some.inj hd
      rw [h.once T] at waits
      cases waits
  · obtain ⟨hrunner, honce, -⟩ := hstep.frame hd
    exact ⟨by rw [hrunner]; exact h.offline, by rw [hrunner]; exact h.pending,
      by rw [honce]; exact h.once⟩

/-- A silent phone takes no part in sync. -/
private theorem Silent.apart (h : s.Silent d) (hw : s.Wired d) (hstep : Step s a s')
    {b : SyncAction ι} (hb : s.netAction a = some (.sync b)) : b.device ≠ some d := by
  intro hd
  have hround : s.net.round d = none := h.round hw
  have hnet := hstep.net
  rw [hb] at hnet
  have hgoes := (Net.step_cases hnet : Net.Step s.net (.sync b) s'.net).round_ne_none hd
  cases hstep with
  | @lockLog d' T system waits =>
    obtain rfl := NetAction.sync.inj (Option.some.inj hb)
    obtain rfl := Option.some.inj hd
    rw [h.once T] at waits
    cases waits
  | @sync a system round =>
    obtain rfl := NetAction.sync.inj (Option.some.inj hb)
    exact hgoes round hround
  | ends step ends =>
    obtain rfl := NetAction.sync.inj (Option.some.inj hb)
    exact hgoes (Net.not_begins_of_ends ends) hround
  | @storage a system sync =>
    have hb : s.system.netAction a = some (.sync b) := hb
    cases a with
    | sync => exact sync _ rfl
    | append =>
      simp only [System.netAction] at hb
      split at hb <;> cases hb
    | _ => cases hb
  | _ => cases hb

end Phones

namespace PhoneRun

variable {r : PhoneRun ι} {d : ι} {t t₀ t₁ : ℕ}

/-- The phone is taken offline at time `t₀`, when no task is before or in `sync_once`, and is not
taken back online until time `t₁`. -/
structure Offline (r : PhoneRun ι) (d : ι) (t₀ t₁ : ℕ) : Prop where
  call : r.act t₀ = .call d (.setOnline false)
  pending : ¬ ((r.state t₀).runner d).Pending
  inSyncOnce : ∀ T, ¬ ((r.state t₀).runner d).InSyncOnce T
  lt : t₀ < t₁
  le : t₁ ≤ r.length
  stays : ∀ u, t₀ < u → u < t₁ → r.act u ≠ .call d (.setOnline true)

private theorem Offline.once (h : r.Offline d t₀ t₁) (T : RunnerTask) :
    (r.state t₀).once d T = none := by
  have hw := r.wired d (h.lt.le.trans h.le)
  by_contra hne
  exact h.inSyncOnce T ((hw.once T).mp hne)

/-- While it is offline the phone is silent. -/
private theorem Offline.silent (h : r.Offline d t₀ t₁) :
    ∀ u, t₀ < u → u ≤ t₁ → (r.state u).Silent d := by
  suffices ∀ u, t₀ + 1 ≤ u → u ≤ r.length → u ≤ t₁ → (r.state u).Silent d from
    fun u hu hut => this u hu (hut.trans h.le) hut
  refine r.le_induction (fun _ => ?_) fun u htu hu ih hut => ?_
  · have hstep := r.step_cases (h.lt.trans_le h.le)
    have honce := h.once
    have hpending := h.pending
    rw [h.call] at hstep
    generalize r.state (t₀ + 1) = s' at hstep
    cases hstep with
    | @call _ _ runner app step =>
      have hoff : runner.online = false := by
        cases step with
        | setOnline => rfl
      refine ⟨by simpa [Phones.setRunner] using hoff, ?_, honce⟩
      simpa [Phones.setRunner] using step.not_pending (fun _ => hpending) (fun _ => hpending) hoff
  · exact (ih (Nat.le_of_succ_le hut)).step (r.wired d hu.le) (r.step_cases hu) (h.stays u htu hut)

/-- While it is offline the phone takes no part in sync. -/
private theorem Offline.apart (h : r.Offline d t₀ t₁) : r.netRun.Apart d t₀ t₁ := by
  intro u htu hut b hb
  rcases htu.lt_or_eq with hlt | rfl
  · have hu := hut.trans_le h.le
    exact (h.silent u hlt hut.le).apart (r.wired d hu.le) (r.step_cases hu) hb
  · have hcall : r.netRun.act t₀ = none := by
      change (r.state t₀).netAction (r.act t₀) = none
      rw [h.call]
      rfl
    rw [hb] at hcall
    cases hcall

end PhoneRun

/-- **A phone that is offline keeps to itself**, whatever the others do. From a call of
`set_online(false)` that finds no round pending until the phone is taken back online, none of its
sync actions happen: its log only grows by what it authors itself, its runner's cursor stays, and
nothing of that reaches the server or any other phone. -/
theorem offline_keeps_to_itself (r : PhoneRun ι) (d : ι) {t₀ t₁ : ℕ} (h : r.Offline d t₀ t₁) :
    ∃ new, r.netRun.OwnOnly d t₀ t₁ new ∧ r.netRun.Apart d t₀ t₁ := by
  obtain ⟨new, hown⟩ := h.apart.exists_ownOnly h.lt.le h.le
  exact ⟨new, hown, h.apart⟩

/-! ### Coming back online -/

private theorem SyncRunner.Step.length_rounds_le {s s' : SyncRunner} {a : RunnerAction}
    (h : SyncRunner.Step s a s') : s.rounds.length ≤ s'.rounds.length := by
  cases h with
  | reconnect | syncNow | round => simp
  | _ => exact le_rfl

namespace Phones

variable {s s' : Phones ι} {a : PhoneAction ι} {d : ι} {T : RunnerTask}

/-- A task gets the log by `lockLog`. -/
private theorem Step.active_cases (h : Step s a s') (hT : s'.active d = some T) :
    s.active d = some T ∨ a = .lockLog d T := by
  by_cases hd : a.device = some d
  · cases h with
    | @lockLog d' T' =>
      obtain rfl := Option.some.inj hd
      obtain rfl : T' = T := by simpa using hT
      exact .inr rfl
    | @ends b d' T' touched system step ends =>
      obtain rfl := Option.some.inj ((Net.device_of_ends ends).symm.trans hd)
      simp at hT
    | _ => exact .inl hT
  · rw [(h.frame hd).2.2.1] at hT
    exact .inl hT

private theorem Step.length_rounds_le (h : Step s a s') (d : ι) :
    (s.runner d).rounds.length ≤ (s'.runner d).rounds.length := by
  by_cases hd : a.device = some d
  · cases h with
    | call _ step | outside _ step | enter _ step | leave _ step =>
      obtain rfl := Option.some.inj hd
      simpa [setRunner, setOnce] using step.length_rounds_le
    | _ => exact le_rfl
  · rw [(h.frame hd).1]

end Phones

namespace PhoneRun

variable {r : PhoneRun ι} {d : ι} {t t₀ t₁ : ℕ} {T : RunnerTask}

private theorem length_rounds_mono (r : PhoneRun ι) (d : ι) (h : t₀ ≤ t₁) (ht₁ : t₁ ≤ r.length) :
    ((r.state t₀).runner d).rounds.length ≤ ((r.state t₁).runner d).rounds.length :=
  r.mono (R := fun s s' : Phones ι => (s.runner d).rounds.length ≤ (s'.runner d).rounds.length)
    (fun _ => le_rfl) (fun _ _ _ => le_trans) (fun _ hu => (r.step_cases hu).length_rounds_le d)
    h ht₁

/-- **The round under way is that of a task**: the task got the log some time ago, and it has had it
since. -/
theorem exists_lockLog (r : PhoneRun ι) (ht : t ≤ r.length) (hT : (r.state t).active d = some T) :
    ∃ u < t, r.act u = .lockLog d T ∧ ∀ v, u < v → v ≤ t → (r.state v).active d = some T := by
  induction t with
  | zero =>
    rw [(r.init_state.2 d).2.1] at hT
    cases hT
  | succ t ih =>
    rcases (r.step_cases ht).active_cases hT with hold | hact
    · obtain ⟨u, hut, hact, hsince⟩ := ih (Nat.le_of_succ_le ht) hold
      refine ⟨u, hut.trans (Nat.lt_succ_self t), hact, fun v huv hvt => ?_⟩
      rcases Nat.of_le_succ hvt with hvt | rfl
      · exact hsince v huv hvt
      · exact hT
    · refine ⟨t, Nat.lt_succ_self t, hact, fun v huv hvt => ?_⟩
      obtain rfl : v = t + 1 := by omega
      exact hT

/-- The run of the stores, along the times at which they do something. The device only fills the
times after the end. -/
def stores (r : PhoneRun ι) (d : ι) : SystemRun ι :=
  r.systemRun.destutter (.read d)

/-- A task has a round under way since it got the log. -/
private theorem inRound_of_active (r : PhoneRun ι) {u : ℕ} (hut : u < t) (ht : t ≤ r.length)
    (hact : r.act u = .lockLog d T)
    (hsince : ∀ v, u < v → v ≤ t → (r.state v).active d = some T) : r.netRun.InRound d u t where
  begins := by
    refine ⟨syncBatch, ?_⟩
    change (r.state u).netAction (r.act u) = _
    rw [hact]
    rfl
  lt := hut
  le := ht
  running := by
    intro v huv hvt hround
    have hnone := (r.wired d (hvt.trans ht)).round.mp hround
    rw [hsince v huv hvt] at hnone
    cases hnone

/-- The phone is taken back online at time `t₀`, and at time `t₁` the `sync` of the task that is
spawned there returns `Ok`. -/
structure Reconnect (r : PhoneRun ι) (d : ι) (t₀ t₁ : ℕ) : Prop where
  call : r.act t₀ = .call d (.setOnline true)
  offline : ((r.state t₀).runner d).online = false
  le : t₀ ≤ r.length
  lt : t₁ < r.length
  active : (r.state t₁).active d = some (.round ((r.state t₀).runner d).rounds.length)
  returns : ∃ a touched, r.act t₁ = .sync a ∧ (r.state t₁).net.returns a = some (d, touched)

/-- **The round of a reconnect begins after it**, whatever else goes on. -/
theorem Reconnect.exists_returnsOk (h : r.Reconnect d t₀ t₁) :
    ∃ u, t₀ < u ∧ r.act u = .lockLog d (.round ((r.state t₀).runner d).rounds.length) ∧
      r.netRun.ReturnsOk d u t₁ := by
  obtain ⟨u, hut, hact, hsince⟩ := r.exists_lockLog h.lt.le h.active
  obtain ⟨a, touched, ha, hret⟩ := h.returns
  refine ⟨u, ?_, hact, r.inRound_of_active hut h.lt.le hact hsince, h.lt, a, touched, ?_, hret⟩
  · by_contra hle
    -- at the reconnect the task is not spawned yet
    have hlength := r.length_rounds_mono d (not_lt.mp hle) h.le
    have hstep := r.step_cases (hut.trans h.lt)
    rw [hact] at hstep
    have hin : (r.state u).once d (.round ((r.state t₀).runner d).rounds.length) ≠ none := by
      generalize r.state (u + 1) = s' at hstep
      cases hstep with
      | lockLog waits =>
        rw [waits]
        exact Option.some_ne_none _
    have hin := ((r.wired d (hut.trans h.lt).le).once _).mp hin
    obtain ⟨hlt, -⟩ := List.getElem?_eq_some_iff.mp hin
    omega
  · change (r.state t₁).netAction (r.act t₁) = _
    rw [ha]
    rfl

end PhoneRun

/-- **What was done offline arrives.** When the `sync` that a reconnect spawns returns `Ok`, it
began after the reconnect, and all the phone has authored until it returns is on the server from
then on. Any phone whose round begins after that and returns `Ok` has it in its log, and shows it
once it is idle and has lost no round. -/
theorem reconnect_delivers (r : PhoneRun ι) (d : ι) {t₀ t₁ : ℕ} (h : r.Reconnect d t₀ t₁) :
    (∃ u, t₀ < u ∧ r.act u = .lockLog d (.round ((r.state t₀).runner d).rounds.length) ∧
      r.netRun.ReturnsOk d u t₁) ∧
    ∀ e, (d, e) ∈ (r.state t₁).net.authored →
      (∀ t, t₁ ≤ t → t ≤ r.length → ∃ a ∈ (r.state t).net.server.entries, a.unstamped = e) ∧
      ∀ d' t₂ t₃, t₁ ≤ t₂ → r.netRun.ReturnsOk d' t₂ t₃ → ∀ t, t₃ ≤ t → t ≤ r.length →
        (∃ a ∈ (r.state t).system.entries d', a.unstamped = e) ∧
        ((r.stores d').NoLoss d' → (r.state t).system.Idle d' →
          (r.state t).system.row d' e.entityId
            = rowAt ((r.state t).system.entries d') e.entityId) := by
  obtain ⟨u, htu, hact, hok⟩ := h.exists_returnsOk
  refine ⟨⟨u, htu, hact, hok⟩, fun e he => ⟨fun t htt ht => hok.exists_server htt ht he,
    fun d' t₂ t₃ hle hok' t htt ht => ⟨?_, fun hloss hidle => ?_⟩⟩⟩
  · have hle₂ : t₂ ≤ r.length := hok'.inRound.lt.le.trans hok'.lt.le
    obtain ⟨a, ha, rfl⟩ := hok.exists_server hle hle₂ he
    exact hok'.exists_log htt ht ha
  · have hstate : (r.stores d').state (r.systemRun.clock t) = (r.state t).system :=
      Machine.Run.state_destutter (.read d') ht
    rw [← hstate] at hidle ⊢
    exact hloss.row_eq (Machine.Run.clock_le_length (.read d') ht) hidle _

/-- Phone 1 creates an item offline, comes back online and syncs. Phone 0 syncs after that, and its
listener is called. -/
def offlineEdit : List (PhoneAction ℕ) :=
  [.call 1 (.setOnline false), .storage (.create 1 ⟨7⟩ "milk" 2 100), .storage (.lockCreated 1 0),
    .storage (.append 1 [1]), .storage (.read 1), .storage (.write 1), .storage (.unlock 1),
    .call 1 (.setOnline true), .task 1 (.round 0), .lockLog 1 (.round 0), .sync (.send 1),
    .sync (.handle 1 fun _ => 0), .sync (.ack 1), .sync (.send 1), .sync (.answer 1),
    .sync (.take 1), .sync (.answer 1), .sync (.take 1),
    .setListener 0 5, .call 0 .syncNow, .task 0 (.round 0), .task 0 (.round 0),
    .lockLog 0 (.round 0), .sync (.send 0), .sync (.answer 0), .sync (.take 0), .sync (.answer 0),
    .sync (.take 0), .lockStorage 0 (.round 0) 0, .storage (.read 0), .storage (.write 0),
    .storage (.unlock 0), .notify 0 (.round 0)]

def offlineEditRun : PhoneRun ℕ :=
  .ofList (fun d => ⟨if d = 0 then "A" else "B"⟩) offlineEdit (.notify 0 (.round 0))
    (by decide +kernel)

theorem offline_keeps_to_itself_offlineEdit : ∃ new,
    offlineEditRun.netRun.OwnOnly 1 0 7 new ∧ offlineEditRun.netRun.Apart 1 0 7 := by
  refine offline_keeps_to_itself offlineEditRun 1 ⟨rfl, ?_, fun T => ?_, by decide, by decide,
    fun u hu hu' ha => ?_⟩
  · rintro (hloop | hround)
    · exact absurd hloop (by decide +kernel)
    · exact absurd hround (by decide +kernel)
  · cases T <;> exact Option.some_ne_none _ ∘ Eq.symm
  · interval_cases u <;> cases ha

theorem reconnect_delivers_offlineEdit : ∃ e, (1, e) ∈ (offlineEditRun.state 17).net.authored ∧
    (∃ a ∈ (offlineEditRun.state 33).system.entries 0, a.unstamped = e) ∧
    (offlineEditRun.state 33).system.row 0 e.entityId
      = rowAt ((offlineEditRun.state 33).system.entries 0) e.entityId := by
  have hreturns : ∃ a touched, offlineEditRun.act 17 = .sync a ∧
      (offlineEditRun.state 17).net.returns a = some (1, touched) :=
    ⟨.take 1, [⟨7⟩], rfl, by decide +kernel⟩
  have hreconnect : offlineEditRun.Reconnect 1 7 17 :=
    ⟨rfl, by decide +kernel, by decide, by decide, by decide +kernel, hreturns⟩
  obtain ⟨-, hall⟩ := reconnect_delivers offlineEditRun 1 hreconnect
  obtain ⟨⟨d, e⟩, he, hd⟩ : ∃ p ∈ (offlineEditRun.state 17).net.authored, p.1 = 1 := by
    decide +kernel
  obtain rfl : d = 1 := hd
  have hok : offlineEditRun.netRun.ReturnsOk 0 22 27 := by
    refine ⟨⟨⟨500, rfl⟩, by decide, by decide, fun u hu hu' => ?_⟩, by decide, .take 0, [⟨7⟩], rfl,
      by decide +kernel⟩
    interval_cases u <;> decide +kernel
  obtain ⟨hlog, hrow⟩ := (hall e he).2 0 22 27 (by decide) hok 33 (by decide) (by decide)
  refine ⟨e, he, hlog, hrow (fun t ht ha => ?_) ?_⟩
  · have ht : t < 25 := ht
    interval_cases t <;> cases ha
  · exact ⟨by decide +kernel, by decide +kernel, by decide +kernel, by decide +kernel⟩

end OfflineSync
