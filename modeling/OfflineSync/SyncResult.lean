import OfflineSync.SyncTermination

/-!
# What a round reports

`sync_now` promises that local state is untouched when it fails, and `sync` that the ids it returns
are those the pull changed. The loop of `pull` keeps neither promise to the letter: it appends a
page and moves the cursor before it asks for the next one, and it notes the items of a page without
looking at what `append` skips.

So a failed `sync_now` left local state untouched exactly when it got no page, that is when it was
offline or a push or the first pull failed (`syncNow_error_untouched_iff`); and a round that went
through reports every item it changed, but it reports just those exactly when each item in the
stream it pulled has an event there that the device lacked (`reportsChanges_iff`). The device's own
events, pushed a moment before, are in that stream. What `sync_once` returns, and whether `sync_now`
calls the listener, follows from the ids that are reported (`Reported`).
-/

namespace OfflineSync

/-! ### Failure -/

/-- Local state before and after, up to what `mark_synced` stamps. -/
structure Untouched (app app' : SyncApp) : Prop where
  events : ∀ d, d ∈ app'.log.entries.map EventDescriptor.unstamped ↔
    d ∈ app.log.entries.map EventDescriptor.unstamped
  pulled : app'.state.pulled = app.state.pulled
  items : app'.storage.items = app.storage.items

/-- A round that fails has either left the log and the cursor as they were, or it got a page and
moved the cursor. -/
private theorem SyncClient.sync_error_cases {w : Weather} {batch fuel base : ℕ}
    {client : SyncClient}
    {link : Link} {o : Outcome SyncClient Link (List ItemId)} {e : SyncError} (hbatch : 0 < batch)
    (hnd : client.log.ids.Nodup) (hlog : link.log.NumberedFrom base)
    (h : client.sync (httpServerApi w) batch fuel link = some o) (herr : o.result = .error e) :
    ((∃ k ≤ client.unsynced.length ⌈/⌉ batch, w.fate (link.requests + k) ≠ .answered) ∧
        o.device.log.entries.map EventDescriptor.unstamped
          = client.log.entries.map EventDescriptor.unstamped ∧
        o.device.state = client.state) ∨
      ((∀ k ≤ client.unsynced.length ⌈/⌉ batch, w.fate (link.requests + k) = .answered) ∧
        ServerEventLog.cursorVal client.state.pulled
          < ServerEventLog.cursorVal o.device.state.pulled) := by
  obtain ⟨pushed, hpush, hsync⟩ := sync_cases h
  have hpushed := push_spec hbatch hnd hlog hpush
  rcases hsync with ⟨e', he', rfl⟩ | ⟨hok, hpull⟩
  · obtain ⟨k, hk, hfail⟩ := hpushed.error e' he'
    exact .inl ⟨⟨k, hk.le, hfail⟩, hpushed.unstamped, hpushed.state⟩
  · have hpulled := pull_spec hbatch (hlog.of_grows hpushed.grows) hpull
    obtain ⟨-, hposts, hfates⟩ := hpushed.ok hok
    -- the first pull comes right after the pushes
    have hrequests : pushed.server.requests
        = link.requests + client.unsynced.length ⌈/⌉ batch := by
      rw [Link.requests, Link.requests, hposts, hpushed.gets]
      omega
    have herror := hpulled.error e herr
    rw [hrequests, hpushed.state] at herror
    rcases herror with ⟨hdevice, hfail⟩ | ⟨hfirst, -, hlt⟩
    · refine .inl ⟨⟨_, le_rfl, hfail⟩, ?_, ?_⟩
      · rw [hdevice, hpushed.unstamped]
      · rw [hdevice, hpushed.state]
    · refine .inr ⟨fun k hk => ?_, hlt⟩
      rcases lt_or_eq_of_le hk with hk | rfl
      · exact hfates k hk
      · exact hfirst

namespace SyncApp

variable {σ : Type} {api : ServerApi σ} {fuel : ℕ} {app : SyncApp} {server : σ}
  {o : Outcome SyncApp σ Unit}

/-- A `sync_now` that is not offline runs a round of the engine. -/
private theorem syncNow_cases (h : app.syncNow api fuel server = some o) :
    (app.online = false ∧ o.device = app ∧ o.result = .error (.transport "offline (simulated)")) ∨
      (app.online = true ∧ ∃ round, app.sync api syncBatch fuel server = some round ∧
        o.device.toSyncClient = round.device ∧ o.server = round.server ∧
        ((∃ e, round.result = .error e ∧ o.result = .error e ∧ o.device.storage = app.storage ∧
            o.device.listener = app.listener) ∨
          (∃ touched, round.result = .ok touched ∧ o.result = .ok () ∧
            o.device.listener
              = if touched = [] then app.listener else app.listener.map (· + 1)))) := by
  rw [syncNow] at h
  split_ifs at h with honline
  · obtain rfl := Option.some.inj h
    exact .inl ⟨honline, rfl, rfl⟩
  · refine .inr ⟨Bool.eq_true_of_not_eq_false honline, ?_⟩
    obtain ⟨once, honce, rfl⟩ := Option.map_eq_some_iff.mp h
    obtain ⟨round, hround, rfl⟩ := Option.map_eq_some_iff.mp honce
    refine ⟨round, hround, ?_⟩
    cases hres : round.result with
    | error e => exact ⟨rfl, rfl, .inl ⟨e, rfl, rfl, rfl, rfl⟩⟩
    | ok touched =>
      cases touched with
      | nil => exact ⟨rfl, rfl, .inr ⟨[], rfl, rfl, rfl⟩⟩
      | cons id touched => exact ⟨rfl, rfl, .inr ⟨id :: touched, rfl, rfl, rfl⟩⟩

end SyncApp

/-- **A failed `sync_now` left local state untouched exactly when it got no page**: it was offline,
or one of the requests before the second pull failed. -/
theorem syncNow_error_untouched_iff {w : Weather} {app : SyncApp} {link : Link} {fuel : ℕ}
    {o : Outcome SyncApp Link Unit} {e : SyncError} (hlog : app.log.Reachable)
    (hserver : ServerEventLog.new.Reachable link.log ∨ ServerEventLog.default.Reachable link.log)
    (h : app.syncNow (httpServerApi w) fuel link = some o) (herr : o.result = .error e) :
    Untouched app o.device ↔ app.online = false ∨
      ∃ k ≤ app.unsynced.length ⌈/⌉ syncBatch, w.fate (link.requests + k) ≠ .answered := by
  obtain ⟨base, hlink⟩ := ServerEventLog.exists_numberedFrom hserver
  have hbatch : 0 < syncBatch := by decide
  rcases SyncApp.syncNow_cases h with
    ⟨honline, hdevice, -⟩ | ⟨honline, round, hround, hdevice, -, hres⟩
  · rw [hdevice]
    exact iff_of_true ⟨fun _ => Iff.rfl, rfl, rfl⟩ (.inl honline)
  · obtain ⟨e', hfailed, -, hstorage, -⟩ | ⟨touched, -, hok, -⟩ := hres
    · rcases SyncClient.sync_error_cases hbatch hlog.nodup hlink hround hfailed with
        ⟨hfail, hevents, hstate⟩ | ⟨hanswered, hlt⟩
      · refine iff_of_true ⟨fun d => ?_, ?_, congrArg ItemStorage.items hstorage⟩ (.inr hfail)
        · rw [hdevice, hevents]
        · rw [hdevice, hstate]
      · refine iff_of_false (fun huntouched => ?_) ?_
        · rw [← hdevice, huntouched.pulled] at hlt
          exact lt_irrefl _ hlt
        · rintro (hoffline | ⟨k, hk, hfail⟩)
          · rw [honline] at hoffline
            cases hoffline
          · exact hfail (hanswered k hk)
    · cases hok.symm.trans herr

/-- An app that has synced nothing yet. -/
def freshApp : SyncApp where
  log := .new
  state := .new "A"
  storage := .new ⟨"A"⟩
  online := true
  listener := some 0

/-- Request `k` times out. -/
def timeoutAt (k : ℕ) : Weather where
  others _ := []
  now _ _ := 1000
  fate i := if i = k then .lost "timeout" else .answered

theorem syncNow_error_untouched_iff_timeoutAt :
    ∃ o, freshApp.syncNow (httpServerApi (timeoutAt 0)) 5 otherLink = some o ∧
      Untouched freshApp o.device := by
  obtain ⟨o, ho⟩ : ∃ o, freshApp.syncNow (httpServerApi (timeoutAt 0)) 5 otherLink = some o :=
    Option.isSome_iff_exists.mp (by decide +kernel)
  have herr : (freshApp.syncNow (httpServerApi (timeoutAt 0)) 5 otherLink).map Outcome.result
      = some (.error (.transport "timeout")) := by rfl
  rw [ho] at herr
  exact ⟨o, ho, (syncNow_error_untouched_iff .new (.inl (.append .start _ _)) ho
    (Option.some.inj herr)).mpr (.inr ⟨0, Nat.zero_le _, by decide⟩)⟩

/-- **The second pull fails**: `sync_now` fails with an event in the log that was not there, and
with the cursor behind it. -/
theorem half_pulled_round :
    ∃ o, freshApp.syncNow (httpServerApi (timeoutAt 1)) 5 otherLink = some o ∧
      o.result = .error (.transport "timeout") ∧ o.device.log.entries.length = 1 ∧
      o.device.state.pulled = some ⟨1⟩ ∧ ¬ Untouched freshApp o.device := by
  obtain ⟨o, ho⟩ : ∃ o, freshApp.syncNow (httpServerApi (timeoutAt 1)) 5 otherLink = some o :=
    Option.isSome_iff_exists.mp (by decide +kernel)
  have hall : (freshApp.syncNow (httpServerApi (timeoutAt 1)) 5 otherLink).map
      (fun o => (o.result, o.device.log.entries.length, o.device.state.pulled))
      = some (.error (.transport "timeout"), 1, some ⟨1⟩) := by rfl
  rw [ho] at hall
  obtain ⟨hres, hrest⟩ := Prod.mk.inj (Option.some.inj hall)
  obtain ⟨hlength, hpulled⟩ := Prod.mk.inj hrest
  refine ⟨o, ho, hres, hlength, hpulled, fun huntouched => ?_⟩
  cases huntouched.pulled.symm.trans hpulled

/-! ### Success -/

/-- The events of the item `id` that a round added to the log. -/
def Added (client client' : SyncClient) (id : ItemId) : Prop :=
  ∃ d ∈ client'.log.entries, d.entityId = id ∧ d.replicaEventId ∉ client.log.ids

/-- The ids that `sync` returns are those it added events of, and `sync_once`, which asks whether
there are any, tells whether anything was added. -/
structure ReportsChanges (client client' : SyncClient) (touched : List ItemId) : Prop where
  items : ∀ id, id ∈ touched ↔ Added client client' id
  changed : touched ≠ [] ↔ ∃ id, Added client client' id

/-- What becomes of a round that leaves the device as `client'`: `sync_once` returns `changed`, and
`sync_now` calls the listener if that is so. -/
structure Reported (w : Weather) (fuel : ℕ) (app : SyncApp) (link : Link) (client' : SyncClient)
    (changed : Bool) : Prop where
  once : ∃ once, app.toSyncStores.syncOnce (httpServerApi w) fuel link = some once ∧
    once.device.toSyncClient = client' ∧ once.result = .ok changed
  now : app.online = true → ∃ now, app.syncNow (httpServerApi w) fuel link = some now ∧
    now.device.toSyncClient = client' ∧ now.result = .ok () ∧
    now.device.listener = if changed = true then app.listener.map (· + 1) else app.listener

/-- Each item of the stream has an event there that the device lacks. -/
def EachBringsNews (client : SyncClient) (stream : List ItemDescriptor) : Prop :=
  ∀ e ∈ stream, ∃ e' ∈ stream, e'.entityId = e.entityId ∧ e'.replicaEventId ∉ client.log.ids

instance (client : SyncClient) (stream : List ItemDescriptor) :
    Decidable (EachBringsNews client stream) :=
  inferInstanceAs (Decidable (∀ e ∈ stream, ∃ e' ∈ stream,
    e'.entityId = e.entityId ∧ e'.replicaEventId ∉ client.log.ids))

section

variable {w : Weather} {batch fuel base : ℕ} {client : SyncClient} {link : Link}
  {o : Outcome SyncClient Link (List ItemId)} {touched : List ItemId}

/-- A round that goes through is reported as changed when it touched anything. -/
private theorem SyncApp.reported {app : SyncApp}
    (h : app.toSyncClient.sync (httpServerApi w) syncBatch fuel link = some o)
    (hok : o.result = .ok touched) : Reported w fuel app link o.device (!touched.isEmpty) := by
  obtain ⟨once, honce, hdevice, hresult⟩ :
      ∃ once, app.toSyncStores.syncOnce (httpServerApi w) fuel link = some once ∧
        once.device.toSyncClient = o.device ∧ once.result = .ok (!touched.isEmpty) := by
    rw [SyncStores.syncOnce, h, Option.map_some, hok]
    exact ⟨_, rfl, rfl, rfl⟩
  refine ⟨⟨once, honce, hdevice, hresult⟩, fun honline => ?_⟩
  rw [SyncApp.syncNow, if_neg (by simp [honline]), honce, Option.map_some, hresult]
  refine ⟨_, rfl, ?_, rfl, ?_⟩
  · cases touched <;> exact hdevice
  · cases touched <;> rfl

/-- A round that goes through has appended the stream after its cursor and reports its items. -/
private theorem SyncClient.sync_ok (hbatch : 0 < batch) (hnd : client.log.ids.Nodup)
    (hlog : link.log.NumberedFrom base)
    (h : client.sync (httpServerApi w) batch fuel link = some o) (hok : o.result = .ok touched) :
    let stream := o.server.log.after client.state.pulled
    o.server.log.NumberedFrom base ∧ touched = stream.map EventDescriptor.entityId ∧
      ∃ log : DeviceEventLog, log.ids = client.log.ids ∧
        o.device.log = log.append (stream.map AppendEvent.ofDescriptor) := by
  obtain ⟨pushed, hpush, ⟨e, -, rfl⟩ | ⟨-, hpull⟩⟩ := sync_cases h
  · cases hok
  · have hpushed := push_spec hbatch hnd hlog hpush
    have hlog' := hlog.of_grows hpushed.grows
    have hpulled := pull_spec hbatch hlog' hpull
    obtain ⟨htouched, hdevice, -⟩ := hpulled.ok touched hok
    rw [hpushed.state] at htouched hdevice
    exact ⟨hlog'.of_grows hpulled.grows, htouched, pushed.device.log, hpushed.ids, hdevice⟩

/-- What a round added is what the device lacked of the stream. -/
private theorem added_iff {stream : List ItemDescriptor} {log : DeviceEventLog}
    {client' : SyncClient} (hstream : (eventIds stream).Nodup) (hids : log.ids = client.log.ids)
    (hlog : client'.log = log.append (stream.map AppendEvent.ofDescriptor)) {id : ItemId} :
    Added client client' id ↔
      ∃ e ∈ stream, e.entityId = id ∧ e.replicaEventId ∉ client.log.ids := by
  obtain ⟨new, hnew, horigin⟩ :=
    log.exists_entries_append (stream.map AppendEvent.ofDescriptor)
  rw [← hlog] at hnew
  have hmem : ∀ d ∈ new, d ∈ stream := by
    intro d hd
    obtain ⟨ev, hev, rfl⟩ := horigin d hd
    obtain ⟨e, he, rfl⟩ := List.mem_map.mp hev
    exact he
  have hold : ∀ d ∈ log.entries, d.replicaEventId ∈ client.log.ids := by
    intro d hd
    exact hids ▸ mem_eventIds_of_mem hd
  constructor
  · rintro ⟨d, hd, hid, hni⟩
    rw [hnew] at hd
    rcases List.mem_append.mp hd with hd | hd
    · exact absurd (hold d hd) hni
    · exact ⟨d, hmem d hd, hid, hni⟩
  · rintro ⟨e, he, hid, hni⟩
    have hin : e.replicaEventId ∈ client'.log.ids := by
      rw [hlog, DeviceEventLog.ids_append, Dedup.mem_addAll, List.map_map]
      exact .inr (List.mem_map_of_mem (f := EventDescriptor.replicaEventId) he)
    obtain ⟨d, hd, hdid⟩ := List.mem_map.mp hin
    rw [hnew] at hd
    rcases List.mem_append.mp hd with hd' | hd'
    · exact absurd (hdid ▸ hold d hd') hni
    · obtain rfl := eq_of_replicaEventId_eq hstream (hmem d hd') he hdid
      exact ⟨d, hnew ▸ hd, hid, hni⟩

private theorem eachBringsNews_map_untimed {stream : List ItemDescriptor} :
    EachBringsNews client (stream.map EventDescriptor.untimed) ↔ EachBringsNews client stream := by
  rw [EachBringsNews, List.forall_mem_map]
  refine forall₂_congr fun e _ => ?_
  simp only [List.mem_map, exists_exists_and_eq_and]
  rfl

section Stream

variable {stream : List ItemDescriptor} {client' : SyncClient}
  (htouched : touched = stream.map EventDescriptor.entityId)
  (hadded : ∀ id, Added client client' id ↔
    ∃ e ∈ stream, e.entityId = id ∧ e.replicaEventId ∉ client.log.ids)

include htouched hadded in
/-- What was added is reported. -/
private theorem mem_touched_of_added {id : ItemId} (h : Added client client' id) :
    id ∈ touched := by
  obtain ⟨e, he, rfl, -⟩ := (hadded id).mp h
  exact htouched ▸ List.mem_map_of_mem he

include htouched hadded in
private theorem reportsChanges_iff_eachBringsNews :
    ReportsChanges client client' touched ↔ EachBringsNews client stream := by
  constructor
  · intro hreports e he
    have hmem : e.entityId ∈ touched := htouched ▸ List.mem_map_of_mem he
    exact (hadded _).mp ((hreports.items _).mp hmem)
  · intro hnews
    have hreported : ∀ id, Added client client' id → id ∈ touched := fun id =>
      mem_touched_of_added htouched hadded
    have hitems : ∀ id, id ∈ touched ↔ Added client client' id := by
      refine fun id => ⟨fun hid => ?_, hreported id⟩
      obtain ⟨e, he, rfl⟩ := List.mem_map.mp (htouched ▸ hid)
      exact (hadded _).mpr (hnews e he)
    refine ⟨hitems, fun hne => ?_, fun ⟨id, hid⟩ => List.ne_nil_of_mem (hreported id hid)⟩
    obtain ⟨id, hid⟩ := List.exists_mem_of_ne_nil _ hne
    exact ⟨id, (hitems id).mp hid⟩

include htouched hadded in
/-- Something is reported just when something changed, unless all that was pulled was known. -/
private theorem touched_ne_nil_iff : (touched ≠ [] ↔ ∃ id, Added client client' id) ↔
    stream = [] ∨ ∃ e ∈ stream, e.replicaEventId ∉ client.log.ids := by
  have hany : (∃ id, Added client client' id) ↔
      ∃ e ∈ stream, e.replicaEventId ∉ client.log.ids := by
    simp only [hadded]
    constructor
    · rintro ⟨id, e, he, -, hni⟩
      exact ⟨e, he, hni⟩
    · rintro ⟨e, he, hni⟩
      exact ⟨e.entityId, e, he, rfl, hni⟩
  rw [hany, htouched, Ne, List.map_eq_nil_iff]
  constructor
  · intro h
    exact or_iff_not_imp_left.mpr h.mp
  · rintro (hnil | ⟨e, he, hni⟩)
    · simp [hnil]
    · exact ⟨fun _ => ⟨e, he, hni⟩, fun _ => List.ne_nil_of_mem he⟩

end Stream

/-- **A round reports what it changed exactly when each item it pulled brought news.** It reports
every item it changed in any case. When nothing comes from elsewhere during the round, the stream it
pulls is known beforehand: it is what the server has after its cursor once the unsynced events are
stored.

So `sync_once` returns `true`, and the listener is called, whenever something changed, and only then
when each item brought news. For that alone it is enough that one of them did, or that nothing
was pulled. -/
theorem reportsChanges_iff (hclient : client.log.Reachable)
    (hserver : ServerEventLog.new.Reachable link.log ∨ ServerEventLog.default.Reachable link.log)
    (hbatch : 0 < batch) (h : client.sync (httpServerApi w) batch fuel link = some o)
    (hok : o.result = .ok touched) :
    (∀ id, Added client o.device id → id ∈ touched) ∧
      (ReportsChanges client o.device touched ↔
        EachBringsNews client (o.server.log.after client.state.pulled)) ∧
      ((∀ k, w.others k = []) →
        let stored :=
          (link.log.append (fun _ => 0) (client.unsynced.map AppendEvent.ofDescriptor)).1
        ReportsChanges client o.device touched ↔
          EachBringsNews client (stored.after client.state.pulled)) ∧
      ∀ app : SyncApp, app.toSyncClient = client → batch = syncBatch →
        ∃ changed, Reported w fuel app link o.device changed ∧
          ((∃ id, Added client o.device id) → changed = true) ∧
          (EachBringsNews client (o.server.log.after client.state.pulled) →
            (changed = true ↔ ∃ id, Added client o.device id)) ∧
          ((changed = true ↔ ∃ id, Added client o.device id) ↔
            o.server.log.after client.state.pulled = [] ∨
              ∃ e ∈ o.server.log.after client.state.pulled,
                e.replicaEventId ∉ client.log.ids) := by
  obtain ⟨base, hlog⟩ := ServerEventLog.exists_numberedFrom hserver
  obtain ⟨hserver', htouched, log, hids, hdevice⟩ :=
    SyncClient.sync_ok hbatch hclient.nodup hlog h hok
  have hnd : (eventIds (o.server.log.after client.state.pulled)).Nodup :=
    hserver'.nodup.sublist (List.filter_sublist.map _)
  have hadded : ∀ id, Added client o.device id ↔ _ := fun id => added_iff hnd hids hdevice
  have hreported : ∀ id, Added client o.device id → id ∈ touched := fun id =>
    mem_touched_of_added htouched hadded
  have hiff := reportsChanges_iff_eachBringsNews htouched hadded
  refine ⟨hreported, hiff, fun hquiet => ?_, fun app happ hsize => ?_⟩
  · intro stored
    have huntimed : o.server.log.untimed = stored.untimed :=
      SyncClient.sync_quiet hbatch hclient.nodup hlog hquiet h hok _
    rw [hiff, ← eachBringsNews_map_untimed, ← ServerEventLog.after_untimed, huntimed,
      ServerEventLog.after_untimed, eachBringsNews_map_untimed]
  · subst happ hsize
    have hchanged : (!touched.isEmpty) = true ↔ touched ≠ [] := by simp
    refine ⟨_, SyncApp.reported h hok, fun ⟨id, hid⟩ => ?_, fun hnews => ?_, ?_⟩
    · exact hchanged.mpr (List.ne_nil_of_mem (hreported id hid))
    · rw [hchanged]
      exact (hiff.mpr hnews).changed
    · rw [hchanged]
      exact touched_ne_nil_iff htouched hadded

end

/-- A device that has nothing of its own. -/
def idleClient : SyncClient where
  log := .new
  state := .new "A"

theorem reportsChanges_iff_idleClient :
    ∃ o now, idleClient.sync (httpServerApi calm) 500 5 otherLink = some o ∧
      ReportsChanges idleClient o.device [⟨8⟩] ∧
      freshApp.syncNow (httpServerApi calm) 5 otherLink = some now ∧
      now.device.listener = some 1 := by
  obtain ⟨o, ho⟩ : ∃ o, idleClient.sync (httpServerApi calm) 500 5 otherLink = some o :=
    Option.isSome_iff_exists.mp (by decide +kernel)
  have hok : (idleClient.sync (httpServerApi calm) 500 5 otherLink).map Outcome.result
      = some (.ok [⟨8⟩]) := by rfl
  rw [ho] at hok
  obtain ⟨-, -, hquiet, happ⟩ := reportsChanges_iff .new (.inl (.append .start _ _)) (by decide) ho
    (Option.some.inj hok)
  have hreports := (hquiet fun _ => rfl).mpr (by decide +kernel)
  obtain ⟨changed, hreported, hall, -⟩ := happ freshApp rfl rfl
  obtain ⟨now, hnow, -, -, hlistener⟩ := hreported.now rfl
  rw [if_pos (hall ⟨⟨8⟩, (hreports.items ⟨8⟩).mp List.mem_cons_self⟩)] at hlistener
  exact ⟨o, now, ho, hreports, hnow, hlistener⟩

/-- An app on a device with two events of its own. -/
def busyApp : SyncApp where
  toSyncClient := busyClient
  storage := .new ⟨"A"⟩
  online := true
  listener := some 0

/-- **A device's own events come back**: the round reports their item, and the listener is called,
though the pull added nothing. -/
theorem own_events_reported :
    ∃ o now, busyClient.sync (httpServerApi calm) 500 5 { log := .new } = some o ∧
      o.result = .ok [⟨7⟩, ⟨7⟩] ∧ (∀ id, ¬ Added busyClient o.device id) ∧
      ¬ ReportsChanges busyClient o.device [⟨7⟩, ⟨7⟩] ∧
      busyApp.syncNow (httpServerApi calm) 5 { log := .new } = some now ∧
      now.device.log.ids = busyClient.log.ids ∧ now.device.listener = some 1 := by
  obtain ⟨o, ho⟩ : ∃ o, busyClient.sync (httpServerApi calm) 500 5 { log := .new } = some o :=
    Option.isSome_iff_exists.mp (by decide +kernel)
  have hall : (busyClient.sync (httpServerApi calm) 500 5 { log := .new }).map
      (fun o => (o.result, o.device.log.ids)) = some (.ok [⟨7⟩, ⟨7⟩], busyClient.log.ids) := by rfl
  rw [ho] at hall
  obtain ⟨hres, hids⟩ := Prod.mk.inj (Option.some.inj hall)
  have hnone : ∀ id, ¬ Added busyClient o.device id := by
    rintro id ⟨d, hd, -, hni⟩
    exact hni (hids ▸ mem_eventIds_of_mem hd)
  have hnow : (busyApp.syncNow (httpServerApi calm) 5 { log := .new }).any (fun now =>
      decide (now.device.log.ids = busyClient.log.ids ∧ now.device.listener = some 1)) = true := by
    decide +kernel
  obtain ⟨now, hsync, hcalled⟩ := (Option.any_eq_true _ _).mp hnow
  refine ⟨o, now, ho, hres, hnone, fun hreports => ?_, hsync, of_decide_eq_true hcalled⟩
  exact hnone ⟨7⟩ ((hreports.items ⟨7⟩).mp List.mem_cons_self)

end OfflineSync
