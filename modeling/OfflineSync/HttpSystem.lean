import OfflineSync.Http
import OfflineSync.SyncProtocol

/-!
# The system over HTTP

Devices that store events and sync with `HttpServerApi`, and the router, as one system. A device
pushes what fits in a body and what does not; the server refuses the latter, and the round ends
there with an error. Between the rounds the router gets other requests as well, of any kind but a
push it accepts: events come from the devices.

`http_system_refines` says that the system does nothing the protocol of `OfflineSync.Sync` does not:
after any run, its logs, cursors and server are those of a state the protocol reaches. What is
proved of the protocol in every state then holds of what the requests and responses bring about.
-/

namespace OfflineSync

/-! ### The server in a loop -/

namespace SyncClient

variable {σ : Type} {api : ServerApi σ} {R : σ → σ → Prop} {batch fuel : ℕ}
  {client : SyncClient} {server : σ}

/-- A reflexive and transitive relation that every push respects relates the server before and
after the loop of `push`. -/
private theorem push_server (hrefl : ∀ s, R s s) (htrans : ∀ s₁ s₂ s₃, R s₁ s₂ → R s₂ s₃ → R s₁ s₃)
    (hpush : ∀ s events, R s (api.push s events).1) {o : Outcome SyncClient σ Unit}
    (h : push api batch fuel client server = some o) : R server o.server := by
  induction fuel generalizing client server with
  | zero => cases h
  | succ fuel ih =>
    by_cases hnil : client.unsynced.take batch = []
    · rw [push] at h
      obtain rfl := Option.some.inj ((if_pos hnil).symm.trans h)
      exact hrefl server
    · rw [push_succ hnil] at h
      have hstep := hpush server (client.toPush batch)
      split at h
      next server' e hsent =>
        rw [hsent] at hstep
        obtain rfl := Option.some.inj h
        exact hstep
      next server' acks hsent =>
        rw [hsent] at hstep
        exact htrans _ _ _ hstep (ih h)

/-- And one that every pull respects, that before and after the loop of `pull`. -/
private theorem pull_server (htrans : ∀ s₁ s₂ s₃, R s₁ s₂ → R s₂ s₃ → R s₁ s₃)
    (hpull : ∀ s offset limit, R s (api.pull s offset limit).1) {touched : List ItemId}
    {o : Outcome SyncClient σ (List ItemId)}
    (h : pull api batch fuel touched client server = some o) : R server o.server := by
  induction fuel generalizing touched client server with
  | zero => cases h
  | succ fuel ih =>
    have hstep := hpull server client.state.pulled batch
    rw [pull] at h
    split at h
    next server' e hsent =>
      rw [hsent] at hstep
      obtain rfl := Option.some.inj h
      exact hstep
    next server' page hsent =>
      rw [hsent] at hstep
      split_ifs at h with hnil
      · obtain rfl := Option.some.inj h
        exact hstep
      · exact htrans _ _ _ hstep (ih h)

end SyncClient

namespace ServerState

/-- What becomes of the server: no offset is taken back, and the table stays a mirror. -/
structure Evolves (state state' : ServerState) : Prop where
  grows : state.log.Grows state'.log
  mirrors : state.Mirrors → state'.Mirrors

variable {state state' state'' : ServerState}

private theorem Evolves.refl (state : ServerState) : state.Evolves state :=
  ⟨.refl, id⟩

private theorem Evolves.trans (h : state.Evolves state') (h' : state'.Evolves state'') :
    state.Evolves state'' :=
  ⟨h.grows.trans h'.grows, h'.mirrors ∘ h.mirrors⟩

private theorem evolves_appendEvents (state : ServerState) (now : ℕ → ℤ)
    (events : List ItemAppend) : state.Evolves (state.appendEvents now events).1 where
  grows := state.log.grows_append now events
  mirrors h := h.appendEvents now events

private theorem evolves_route (cr : Crates) (state : ServerState) (now : ℕ → ℤ) (req : cr.Request) :
    state.Evolves (cr.route state now req).1 := by
  cases haccepted : cr.accepted req with
  | none =>
    rw [Crates.route_of_not_accepted haccepted]
    exact .refl state
  | some events =>
    rw [Crates.route_of_accepted haccepted]
    exact state.evolves_appendEvents now events

end ServerState

namespace HttpLink

variable {cr : Crates} {w : Weather} {hl : HttpLink} {link : Link}

private theorem evolves_send (cr : Crates) (w : Weather) (hl : HttpLink) (req : cr.Request) :
    hl.server.Evolves (hl.send cr w req).1 := by
  have harrive : hl.server.Evolves (hl.arrive w) := hl.server.evolves_appendEvents _ _
  have hroute := harrive.trans (ServerState.evolves_route cr (hl.arrive w)
    (fun i => w.now hl.requests ((w.others hl.requests).length + i)) req)
  rw [send]
  cases w.fate hl.requests with
  | answered | answerLost => exact hroute
  | lost => exact harrive

private theorem evolves_push (cr : Crates) (w : Weather) (hl : HttpLink)
    (events : List ItemAppend) :
    hl.server.Evolves ((HttpServerApi.api cr w).push hl events).1.server := by
  simp only [HttpServerApi.api]
  split_ifs
  · exact .refl hl.server
  · exact hl.evolves_send cr w _

private theorem evolves_pull (cr : Crates) (w : Weather) (hl : HttpLink)
    (offset : Option ServerOffset) (limit : ℕ) :
    hl.server.Evolves ((HttpServerApi.api cr w).pull hl offset limit).1.server :=
  hl.evolves_send cr w _

variable {batch fuel : ℕ} {client : SyncClient} {touched : List ItemId}

private theorem evolves_pushLoop {o : Outcome SyncClient HttpLink Unit}
    (h : SyncClient.push (HttpServerApi.api cr w) batch fuel client hl = some o) :
    hl.server.Evolves o.server.server :=
  SyncClient.push_server (R := fun hl hl' => hl.server.Evolves hl'.server)
    (fun hl => .refl hl.server) (fun _ _ _ => .trans) (evolves_push cr w) h

private theorem evolves_pullLoop {o : Outcome SyncClient HttpLink (List ItemId)}
    (h : SyncClient.pull (HttpServerApi.api cr w) batch fuel touched client hl = some o) :
    hl.server.Evolves o.server.server :=
  SyncClient.pull_server (R := fun hl hl' => hl.server.Evolves hl'.server) (fun _ _ _ => .trans)
    (evolves_pull cr w) h

private theorem evolves_sync {o : Outcome SyncClient HttpLink (List ItemId)}
    (h : client.sync (HttpServerApi.api cr w) batch fuel hl = some o) :
    hl.server.Evolves o.server.server := by
  obtain ⟨pushed, hpush, ⟨e, -, rfl⟩ | ⟨-, hpull⟩⟩ := SyncClient.sync_cases h
  · exact evolves_pushLoop hpush
  · exact (evolves_pushLoop hpush).trans (evolves_pullLoop hpull)

/-- The server as it is when nobody else pushes. -/
private theorem arrive_of_quiet (hl : HttpLink) (h : w.others hl.requests = []) :
    hl.arrive w = hl.server := by
  rw [arrive, h]
  rfl

/-- **A batch that does not fit in a body is refused**, whatever the weather. -/
theorem push_of_not_fits {events : List ItemAppend} (hne : events ≠ []) (hfits : ¬ cr.Fits events)
    (hquiet : w.others hl.requests = []) :
    ∃ e, (HttpServerApi.api cr w).push hl events
      = ({ hl with posts := hl.posts + 1 }, .error e) := by
  obtain ⟨rejection, hjson, hstatus⟩ :=
    cr.json_oversized cr.eventsUrl events (Bool.eq_false_iff.mpr hfits)
  obtain ⟨message, hmessage⟩ :=
    cr.errorForStatus_error rejection (by rw [hstatus]; decide) (by rw [hstatus]; decide)
  have hroute : ∀ state now, cr.route state now (cr.pushRequest events) = (state, rejection) :=
    fun state now => cr.route_of_rejected events hjson state now
  have hread : cr.receivePush rejection = .error message := by
    rw [Crates.receivePush, hmessage]
    rfl
  simp only [HttpServerApi.api, if_neg hne, send, hroute, hl.arrive_of_quiet hquiet]
  cases w.fate hl.requests with
  | answered => exact ⟨toError message, by simp only [Except.bind, hread, Except.mapError]⟩
  | lost message | answerLost message => exact ⟨toError message, rfl⟩

end HttpLink

/-- A push that is answered. -/
private theorem httpPush_answered {w : Weather} {link : Link} {events : List ItemAppend}
    (hne : events ≠ []) (hfate : w.fate link.requests = .answered) :
    (httpServerApi w).push link events
      = (link.posted w events, .ok (link.handlePost w events).2) := by
  simp only [httpServerApi, if_neg hne, hfate]
  rfl

/-- A push that is not. -/
private theorem httpPush_failed {w : Weather} {link : Link} {events : List ItemAppend}
    (hne : events ≠ []) (hfate : w.fate link.requests ≠ .answered) :
    ∃ log e, (httpServerApi w).push link events
        = ({ link with log := log, posts := link.posts + 1 }, .error e) ∧
      (log = link.arrive w ∨ log = (link.handlePost w events).1) := by
  simp only [httpServerApi, if_neg hne]
  cases hf : w.fate link.requests with
  | answered => exact absurd hf hfate
  | lost message => exact ⟨_, .transport message, rfl, .inl rfl⟩
  | answerLost message => exact ⟨_, .transport message, rfl, .inr rfl⟩

/-! ### What a device and the server hold -/

private theorem ItemStorage.inRange_appendEvents {replicaId : String} {id : ItemId}
    {changes : List (Uuid × EntityEvent ItemEvent)}
    (h : ∀ change ∈ changes, InI64 change.2.modifiedAtMs ∧ change.2.event.InRange) :
    ∀ ev ∈ appendEvents replicaId id changes, ev.InRange := by
  intro ev hev
  obtain ⟨change, hchange, rfl⟩ := List.mem_map.mp hev
  obtain ⟨htime, hpayload⟩ := h change hchange
  exact
    { payload := hpayload
      time := htime
      writeOffset := by simp
      serverOffset := by simp
      serverTime := by simp }

namespace DeviceEventLog

private theorem inRange_authored {ev : ItemAppend} (h : ev.InRange) {k : ℕ} (hk : InU64 k) :
    (authored ev k).InRange where
  writeOffset := by
    cases hoffset : ev.replicaWriteOffset with
    | none => simpa [authored, hoffset] using hk
    | some o => simpa [authored, hoffset] using h.writeOffset o hoffset
  time := h.time
  serverOffset := by simp [authored]
  serverTime := by simp [authored]
  payload := h.payload

private theorem InRange.appendLocalFrom {log : DeviceEventLog} (h : log.InRange) {k : ℕ}
    {events : List ItemAppend} (hevents : ∀ ev ∈ events, ev.InRange)
    (hlength : InU64 (k + events.length)) : (appendLocalFrom k log events).1.InRange := by
  induction events generalizing k log with
  | nil => exact h
  | cons ev events ih =>
    obtain ⟨hev, hevents⟩ := List.forall_mem_cons.mp hevents
    unfold InU64 at ih hlength
    rw [List.length_cons] at hlength
    rw [DeviceEventLog.appendLocalFrom]
    split
    next => exact ih h hevents (by omega)
    next =>
      have hk : InU64 (k + 1) := by
        unfold InU64
        omega
      refine ih (fun d hd => ?_) hevents (by omega)
      rcases List.mem_append.mp hd with hd | hd
      · exact h d hd
      · obtain rfl := List.mem_singleton.mp hd
        exact inRange_authored hev hk

end DeviceEventLog

/-- What a device and the server hold is in range, under ids that have been drawn. -/
structure Holdings (drawn : List Uuid) (client : SyncClient) (log : ServerEventLog) : Prop where
  device : client.InRange
  server : log.InRange
  device_ids : client.log.ids ⊆ drawn
  server_ids : log.ids ⊆ drawn

namespace Holdings

variable {drawn : List Uuid} {client : SyncClient} {log : ServerEventLog} {batch : ℕ}

/-- A device stores events. -/
private theorem stored (h : Holdings drawn client log) {replicaId : String} {id : ItemId}
    {changes : List (Uuid × EntityEvent ItemEvent)} (hlength : InU64 changes.length)
    (hchanges : ∀ change ∈ changes, InI64 change.2.modifiedAtMs ∧ change.2.event.InRange) :
    Holdings (drawn ++ changes.map Prod.fst) { client with
      log := (client.log.appendLocal (ItemStorage.appendEvents replicaId id changes)).1 } log where
  device :=
    ⟨h.device.log.appendLocalFrom (ItemStorage.inRange_appendEvents hchanges) (by
      simpa [ItemStorage.appendEvents] using hlength), h.device.pulled⟩
  server := h.server
  device_ids := by
    rw [DeviceEventLog.appendLocal, DeviceEventLog.ids_appendLocalFrom,
      ItemStorage.map_replicaEventId_appendEvents]
    intro x hx
    rcases Dedup.mem_addAll.mp hx with hx | hx
    · exact List.mem_append_left _ (h.device_ids hx)
    · exact List.mem_append_right _ hx
  server_ids := List.Subset.trans h.server_ids (List.subset_append_left _ _)

/-- Its cursor starts over. -/
private theorem restarted (h : Holdings drawn client log) (replicaId : String) :
    Holdings drawn { client with state := .new replicaId } log where
  device := ⟨h.device.log, by simp [SyncState.new]⟩
  server := h.server
  device_ids := h.device_ids
  server_ids := h.server_ids

/-- The server gets what the device has. -/
private theorem ids_append_toPush (h : Holdings drawn client log) (now : ℕ → ℤ) :
    (log.append now (client.toPush batch)).1.ids ⊆ drawn := by
  rw [ServerEventLog.ids_append]
  intro x hx
  rcases Dedup.mem_addAll.mp hx with hx | hx
  · exact h.server_ids hx
  · rw [SyncClient.toPush, List.map_map] at hx
    obtain ⟨e, he, rfl⟩ := List.mem_map.mp hx
    have hmem := List.mem_of_mem_filter (List.mem_of_mem_take he)
    exact h.device_ids (mem_eventIds_of_mem hmem)

/-- The device gets what the server has. -/
private theorem received (h : Holdings drawn client log) (hlog : log.WellFormed)
    (offset : Option ServerOffset) :
    Holdings drawn (client.received (log.eventsAfter offset batch)) log := by
  refine ⟨h.device.received (h.server.eventsAfter offset batch), h.server, fun x hx => ?_,
    h.server_ids⟩
  simp only [SyncClient.received, DeviceEventLog.ids_append] at hx
  rcases Dedup.mem_addAll.mp hx with hx | hx
  · exact h.device_ids hx
  · rw [List.map_map, hlog.eventsAfter_events] at hx
    obtain ⟨e, he, rfl⟩ := List.mem_map.mp hx
    exact h.server_ids (mem_eventIds_of_mem (List.mem_of_mem_drop (List.mem_of_mem_take he)))

end Holdings

/-! ### A round over HTTP is a round of the protocol -/

namespace HttpLink

/-- What a round over HTTP has of the server, as `httpServerApi` sees it. -/
def link (hl : HttpLink) : Link where
  log := hl.server.log
  posts := hl.posts
  gets := hl.gets

private theorem refines_link (hl : HttpLink) : hl.Refines hl.link :=
  ⟨rfl, rfl, rfl⟩

private theorem Refines.link_eq {hl : HttpLink} {link : Link} (h : hl.Refines link) :
    hl.link = link := by
  obtain ⟨log, posts, gets⟩ := link
  obtain ⟨rfl, rfl, rfl⟩ := h
  rfl

/-- What a push that fits leaves of the log. -/
private theorem log_push {cr : Crates} {w : Weather} {hl : HttpLink} {events : List ItemAppend}
    (hevents : ∀ ev ∈ events, ev.InRange) (hfits : cr.Fits events) :
    ((HttpServerApi.api cr w).push hl events).1.server.log
      = ((httpServerApi w).push hl.link events).1.log := by
  have hroute := Crates.route_of_accepted (cr.accepted_pushRequest hevents hfits) (hl.arrive w)
    (fun i => w.now hl.requests ((w.others hl.requests).length + i))
  have hrequests : hl.link.requests = hl.requests := rfl
  simp only [HttpServerApi.api, httpServerApi, send, hroute, hrequests]
  split_ifs
  · rfl
  · cases w.fate hl.requests <;> rfl

end HttpLink

namespace Net

variable {ι : Type} [DecidableEq ι] {d : ι} {s : Net ι} {cr : Crates} {w : Weather}
  {batch fuel : ℕ} {client : SyncClient} {hl : HttpLink} {touched : List ItemId}
  {drawn : List Uuid}

/-- No step changes who a device is. -/
private theorem ReachesBy.provider {s s' : Net ι} (h : ReachesBy d s s') :
    s'.provider = s.provider := by
  refine Machine.Reaches.mono (R := fun s s' => s'.provider = s.provider) (fun _ => rfl)
    (fun _ _ _ => flip Eq.trans) (fun s a s' _ hstep => ?_) h
  cases step_cases hstep <;> rfl

/-- Device `d` is in the given phase, with what a round over HTTP has in its hands. -/
structure RunsHttp (s : Net ι) (d : ι) (drawn : List Uuid) (client : SyncClient) (hl : HttpLink)
    (round : Option Round) : Prop where
  inv : s.Inv
  runs : s.Runs d client hl.link round
  holds : Holdings drawn client hl.server.log

/-- What remains of the loop of `push` after one request keeps the offsets in range. -/
private theorem nextServerOffset_push_le (hne : client.unsynced.take batch ≠ [])
    {o : Outcome SyncClient HttpLink Unit}
    (h : SyncClient.push (HttpServerApi.api cr w) batch (fuel + 1) client hl = some o)
    (hnext : o.server.server.log.nextServerOffset ≤ 2 ^ 64) :
    ((HttpServerApi.api cr w).push hl (client.toPush batch)).1.server.log.nextServerOffset
      ≤ 2 ^ 64 := by
  rw [SyncClient.push_succ hne] at h
  split at h
  next hl' e hsent =>
    rw [hsent]
    obtain rfl := Option.some.inj h
    exact hnext
  next hl' acks hsent =>
    rw [hsent]
    exact (HttpLink.evolves_pushLoop h).grows.nextServerOffset_le.trans hnext

section Push

variable (hw : w.InRange) (hquiet : ∀ k, w.others k = []) (hne : client.unsynced.take batch ≠ [])
  (hs : s.RunsHttp d drawn client hl (some ⟨batch, .push⟩))

include hw hs in
/-- A batch that fits does what it does at `httpServerApi`. -/
private theorem RunsHttp.push_fits (hfits : cr.Fits (client.toPush batch))
    (hnext : ((HttpServerApi.api cr w).push hl (client.toPush batch)).1.server.log.nextServerOffset
      ≤ 2 ^ 64) :
    let sent := (httpServerApi w).push hl.link (client.toPush batch)
    ∃ hl', (HttpServerApi.api cr w).push hl (client.toPush batch) = (hl', sent.2) ∧
      hl'.link = sent.1 ∧ hl'.server.log.InRange ∧
      ∀ acks, sent.2 = .ok acks → ∀ ack ∈ acks, ack.InRange := by
  intro sent
  have hrange : ∀ ev ∈ client.toPush batch, ev.InRange := hs.holds.device.toPush
  have hlog : hl.link.log.InRange := hs.holds.server
  rw [HttpLink.log_push hrange hfits] at hnext
  obtain ⟨hl', hpush, hrefines⟩ := hl.refines_link.push hw hs.holds.server hrange hfits hnext
  have hrange' := SyncClient.inRange_push hw hlog hrange hnext
  exact ⟨hl', hpush, hrefines.link_eq, hrefines.log ▸ hrange'.1, hrange'.2⟩

include hquiet hs in
/-- The server stores nothing that has not been drawn. -/
private theorem RunsHttp.ids_handlePost :
    (hl.link.handlePost w (client.toPush batch)).1.ids ⊆ drawn := by
  rw [Link.handlePost, hl.link.arrive_of_quiet (hquiet _)]
  exact hs.holds.ids_append_toPush _

include hw hquiet hne hs in
/-- A batch that is stored, and whose answer arrives. -/
private theorem RunsHttp.push_answered (hfits : cr.Fits (client.toPush batch))
    (hfate : w.fate hl.requests = .answered)
    (hnext : ((HttpServerApi.api cr w).push hl (client.toPush batch)).1.server.log.nextServerOffset
      ≤ 2 ^ 64) :
    ∃ hl' acks s', (HttpServerApi.api cr w).push hl (client.toPush batch) = (hl', .ok acks) ∧
      ReachesBy d s s' ∧
      s'.RunsHttp d drawn (client.acknowledged acks) hl' (some ⟨batch, .push⟩) := by
  obtain ⟨hl', hpush, hlink, hrange, hacks⟩ := hs.push_fits hw hfits hnext
  have hevents : client.toPush batch ≠ [] := fun h => hne (List.map_eq_nil_iff.mp h)
  have hsent : (httpServerApi w).push hl.link (client.toPush batch)
      = (hl.link.posted w (client.toPush batch),
        .ok (hl.link.handlePost w (client.toPush batch)).2) := httpPush_answered hevents hfate
  rw [hsent] at hpush hlink hacks
  obtain ⟨s₁, hreach₁, hs₁⟩ := hs.runs.send hne
  obtain ⟨s₂, hreach₂, hs₂⟩ := hs₁.handle (hquiet _)
  obtain ⟨s₃, hreach₃, hs₃⟩ := hs₂.ack
  have hreach : ReachesBy d s s₃ := hreach₁.trans (hreach₂.trans hreach₃)
  have hnd : client.log.ids.Nodup := hs.runs.log ▸ hs.inv.sound.log_nodup d
  have hlog : hl'.server.log = (hl.link.handlePost w (client.toPush batch)).1 :=
    congrArg Link.log hlink
  refine ⟨hl', _, s₃, hpush, hreach, hreach.inv hs.inv, hlink ▸ hs₃, ?_⟩
  exact ⟨hs.holds.device.acknowledged hnd (hacks _ rfl), hrange,
    (DeviceEventLog.ids_markSynced hnd _).symm ▸ hs.holds.device_ids,
    hlog ▸ hs.ids_handlePost hquiet⟩

include hw hquiet hne hs in
/-- A batch that fits, and is lost or whose answer is. -/
private theorem RunsHttp.push_failed (hfits : cr.Fits (client.toPush batch))
    (hfate : w.fate hl.requests ≠ .answered)
    (hnext : ((HttpServerApi.api cr w).push hl (client.toPush batch)).1.server.log.nextServerOffset
      ≤ 2 ^ 64) :
    ∃ hl' e s', (HttpServerApi.api cr w).push hl (client.toPush batch) = (hl', .error e) ∧
      ReachesBy d s s' ∧ s'.RunsHttp d drawn client hl' none := by
  obtain ⟨hl', hpush, hlink, hrange, -⟩ := hs.push_fits hw hfits hnext
  have hevents : client.toPush batch ≠ [] := fun h => hne (List.map_eq_nil_iff.mp h)
  have hfailed : w.fate hl.link.requests ≠ .answered := hfate
  obtain ⟨log, e, hsent, hhandled⟩ := httpPush_failed hevents hfailed
  rw [hsent] at hpush hlink
  obtain ⟨s₁, hreach₁, hs₁⟩ := hs.runs.send hne
  obtain ⟨s', hreach, hs', hids⟩ : ∃ s', ReachesBy d s₁ s' ∧ s'.Runs d client hl'.link none ∧
      log.ids ⊆ drawn := by
    rw [hlink]
    rcases hhandled with rfl | rfl
    · -- the request is lost
      have harrive := hl.link.arrive_of_quiet (hquiet hl.link.requests)
      obtain ⟨s₂, hfail, hs₂⟩ := hs₁.fail (by simp)
      exact ⟨s₂, ReachesBy.sync rfl hfail,
        ⟨hs₂.log, hs₂.state, hs₂.server.trans harrive.symm, hs₂.round⟩,
        harrive.symm ▸ hs.holds.server_ids⟩
    · -- its answer is
      obtain ⟨s₂, hreach₂, hs₂⟩ := hs₁.handle (hquiet _)
      obtain ⟨s₃, hfail, hs₃⟩ := hs₂.fail (by simp)
      exact ⟨s₃, hreach₂.trans (ReachesBy.sync rfl hfail),
        ⟨hs₃.log, hs₃.state, hs₃.server, hs₃.round⟩, hs.ids_handlePost hquiet⟩
  have hreach' : ReachesBy d s s' := hreach₁.trans hreach
  have hlog : hl'.server.log = log := congrArg Link.log hlink
  exact ⟨hl', e, s', hpush, hreach', hreach'.inv hs.inv, hs', hs.holds.device, hrange,
    hs.holds.device_ids, hlog ▸ hids⟩

include hquiet hne hs in
/-- A batch that does not fit. The server knows nothing of it, and neither does the protocol: there
the request is lost. -/
private theorem RunsHttp.push_refused (hfits : ¬ cr.Fits (client.toPush batch)) :
    ∃ hl' e s', (HttpServerApi.api cr w).push hl (client.toPush batch) = (hl', .error e) ∧
      ReachesBy d s s' ∧ s'.RunsHttp d drawn client hl' none := by
  have hevents : client.toPush batch ≠ [] := fun h => hne (List.map_eq_nil_iff.mp h)
  obtain ⟨e, hsent⟩ := HttpLink.push_of_not_fits hevents hfits (hquiet _)
  obtain ⟨s₁, hreach₁, hs₁⟩ := hs.runs.send hne
  obtain ⟨s₂, hfail, hs₂⟩ := hs₁.fail (by simp)
  have hreach : ReachesBy d s s₂ := hreach₁.trans (ReachesBy.sync rfl hfail)
  exact ⟨_, e, s₂, hsent, hreach, hreach.inv hs.inv,
    ⟨hs₂.log, hs₂.state, hs₂.server, hs₂.round⟩, hs.holds⟩

include hw hquiet hne hs in
/-- One pass of the loop of `push`: the batch is acknowledged, or the round ends. -/
private theorem RunsHttp.push_cases
    (hnext : ((HttpServerApi.api cr w).push hl (client.toPush batch)).1.server.log.nextServerOffset
      ≤ 2 ^ 64) :
    (∃ hl' acks s', (HttpServerApi.api cr w).push hl (client.toPush batch) = (hl', .ok acks) ∧
      ReachesBy d s s' ∧
      s'.RunsHttp d drawn (client.acknowledged acks) hl' (some ⟨batch, .push⟩)) ∨
    ∃ hl' e s', (HttpServerApi.api cr w).push hl (client.toPush batch) = (hl', .error e) ∧
      ReachesBy d s s' ∧ s'.RunsHttp d drawn client hl' none := by
  by_cases hfits : cr.Fits (client.toPush batch)
  · by_cases hfate : w.fate hl.requests = .answered
    · exact .inl (hs.push_answered hw hquiet hne hfits hfate hnext)
    · exact .inr (hs.push_failed hw hquiet hne hfits hfate hnext)
  · exact .inr (hs.push_refused hquiet hne hfits)

end Push

/-- The loop of `push` over HTTP is the protocol's. -/
private theorem reaches_httpPush (hw : w.InRange) (hquiet : ∀ k, w.others k = [])
    (hbatch : 0 < batch)
    (hs : s.RunsHttp d drawn client hl (some ⟨batch, .push⟩)) {o : Outcome SyncClient HttpLink Unit}
    (h : SyncClient.push (HttpServerApi.api cr w) batch fuel client hl = some o)
    (hnext : o.server.server.log.nextServerOffset ≤ 2 ^ 64) :
    ∃ s', ReachesBy d s s' ∧ s'.RunsHttp d drawn o.device o.server (match o.result with
      | .ok _ => some ⟨batch, .pull []⟩
      | .error _ => none) := by
  induction fuel generalizing s client hl with
  | zero => cases h
  | succ fuel ih =>
    by_cases hnil : client.unsynced = []
    · rw [SyncClient.push_of_nil hnil] at h
      obtain rfl := Option.some.inj h
      obtain ⟨s', hreach, hs'⟩ := hs.runs.pushed hnil
      exact ⟨s', hreach, hreach.inv hs.inv, hs', hs.holds⟩
    · have hne := SyncClient.take_unsynced_ne_nil hbatch hnil
      have hpass := hs.push_cases hw hquiet hne (nextServerOffset_push_le hne h hnext)
      rw [SyncClient.push_succ hne] at h
      rcases hpass with ⟨hl', acks, s₁, hsent, hreach₁, hs₁⟩ | ⟨hl', e, s₁, hsent, hreach₁, hs₁⟩
      · rw [hsent] at h
        obtain ⟨s', hreach, hs'⟩ := ih hs₁ h
        exact ⟨s', hreach₁.trans hreach, hs'⟩
      · rw [hsent] at h
        obtain rfl := Option.some.inj h
        exact ⟨s₁, hreach₁, hs₁⟩

/-- So is the loop of `pull`; when it goes through, the protocol returns the same ids. -/
private theorem reaches_httpPull (hw : w.InRange) (hquiet : ∀ k, w.others k = [])
    (hlimit : InU64 batch) (hs : s.RunsHttp d drawn client hl (some ⟨batch, .pull touched⟩))
    {o : Outcome SyncClient HttpLink (List ItemId)}
    (h : SyncClient.pull (HttpServerApi.api cr w) batch fuel touched client hl = some o)
    (hnext : o.server.server.log.nextServerOffset ≤ 2 ^ 64) : ∃ s₁ a s',
      ReachesBy d s s₁ ∧ a.device = some d ∧ s₁.syncStep a = some s' ∧
        s'.RunsHttp d drawn o.device o.server none ∧
        ∀ ids, o.result = .ok ids → s₁.returns a = some (d, ids) := by
  induction fuel generalizing s touched client hl with
  | zero => cases h
  | succ fuel ih =>
    have hgrows := (HttpLink.evolves_pullLoop h).grows
    have harrive : hl.link.arrive w = hl.server.log := hl.link.arrive_of_quiet (hquiet _)
    have hnext₀ : (hl.link.arrive w).nextServerOffset ≤ 2 ^ 64 := by
      rw [harrive]
      exact hgrows.nextServerOffset_le.trans hnext
    obtain ⟨hl', hpull, hrefines⟩ := hl.refines_link.pull cr hw hs.holds.server
      hs.holds.device.pulled hlimit hnext₀
    rw [SyncClient.pull, hpull] at h
    rcases SyncClient.httpPull_cases w hl.link client.state.pulled batch with hsent | ⟨e, hsent⟩
    · rw [hsent] at h hrefines
      have hlog : hl'.server.log = hl.server.log := hrefines.log.trans harrive
      have hlink : hl'.link = hl.link.got w := hrefines.link_eq
      obtain ⟨s₁, hreach₁, hs₁⟩ := hs.runs.answer (hquiet _)
      rw [← hlink] at hs₁
      simp only at h
      split_ifs at h with hempty
      · obtain rfl := Option.some.inj h
        obtain ⟨hreturns, s', hstep, hs'⟩ := hs₁.finish hempty
        have hreach : ReachesBy d s s' := hreach₁.trans (ReachesBy.sync rfl hstep)
        refine ⟨s₁, .take d, s', hreach₁, rfl, hstep,
          ⟨hreach.inv hs.inv, hs', hlog ▸ hs.holds⟩, fun ids hids => ?_⟩
        rw [hreturns, Except.ok.inj hids]
      · obtain ⟨s₂, hreach₂, hs₂⟩ := hs₁.take hempty
        have hreach : ReachesBy d s s₂ := hreach₁.trans hreach₂
        have hserver : s.server = hl.server.log := hs.runs.server
        have hwf : hl.server.log.WellFormed := hserver ▸ hs.inv.sound.server_wf
        have hholds : Holdings drawn
            (client.received (hl.server.log.eventsAfter client.state.pulled batch)) hl.server.log :=
          hs.holds.received hwf client.state.pulled
        rw [← harrive] at hholds
        obtain ⟨s₃, a, s', hrest, hlast⟩ :=
          ih ⟨hreach.inv hs.inv, hs₂, hrefines.log ▸ hholds⟩ h
        exact ⟨s₃, a, s', hreach.trans hrest, hlast⟩
    · rw [hsent] at h hrefines
      obtain rfl := Option.some.inj h
      obtain ⟨s', hstep, hs'⟩ := hs.runs.fail (by simp)
      have hserver := hs'.server.trans harrive.symm
      have hlink : s'.Runs d client hl'.link none := by
        rw [hrefines.link_eq]
        exact ⟨hs'.log, hs'.state, hserver, hs'.round⟩
      have hlog : hl'.server.log = hl.server.log := hrefines.log.trans harrive
      have hreach : ReachesBy d s s' := .sync rfl hstep
      refine ⟨s, .fail d, s', .refl, rfl, hstep,
        ⟨hreach.inv hs.inv, hlink, hlog ▸ hs.holds⟩, fun ids hids => ?_⟩
      cases hids

/-- **A round over HTTP is a round of the protocol**, whether its batches fit or not. -/
theorem reaches_httpSync (hw : w.InRange) (hquiet : ∀ k, w.others k = [])
    (hbatch : 0 < batch ∧ InU64 batch) (hs : s.RunsHttp d drawn client hl none)
    {o : Outcome SyncClient HttpLink (List ItemId)}
    (h : client.sync (HttpServerApi.api cr w) batch fuel hl = some o)
    (hnext : o.server.server.log.nextServerOffset ≤ 2 ^ 64) :
    ∃ s', ReachesBy d s s' ∧ s'.RunsHttp d drawn o.device o.server none ∧
      ∀ ids, o.result = .ok ids → ∃ s₁ a, ReachesBy d s s₁ ∧ s₁.syncStep a = some s' ∧
        s₁.returns a = some (d, ids) := by
  have hbegin : s.syncStep (.beginRound d batch) = some (s.setRound d (some ⟨batch, .push⟩)) := by
    simp only [syncStep, hs.runs.round]
    exact if_pos hbatch.1
  have hreach₀ := ReachesBy.sync rfl hbegin
  have hs₀ : (s.setRound d (some ⟨batch, .push⟩)).RunsHttp d drawn client hl
      (some ⟨batch, .push⟩) :=
    ⟨hreach₀.inv hs.inv, ⟨hs.runs.log, hs.runs.state, hs.runs.server, round_setRound_self s d _⟩,
      hs.holds⟩
  obtain ⟨pushed, hpush, ⟨e, he, rfl⟩ | ⟨hok, hpull⟩⟩ := SyncClient.sync_cases h
  · obtain ⟨s', hreach, hs'⟩ := reaches_httpPush hw hquiet hbatch.1 hs₀ hpush hnext
    rw [he] at hs'
    refine ⟨s', hreach₀.trans hreach, hs', fun ids hids => ?_⟩
    cases hids
  · have hgrows := (HttpLink.evolves_pullLoop hpull).grows
    obtain ⟨s₁, hreach₁, hs₁⟩ := reaches_httpPush hw hquiet hbatch.1 hs₀ hpush
      (hgrows.nextServerOffset_le.trans hnext)
    rw [hok] at hs₁
    obtain ⟨s₂, a, s', hreach₂, ha, hstep, hs', hreturns⟩ :=
      reaches_httpPull hw hquiet hbatch.2 hs₁ hpull hnext
    have hreach : ReachesBy d s s₂ := hreach₀.trans (hreach₁.trans hreach₂)
    exact ⟨s', hreach.trans (ReachesBy.sync ha hstep), hs', fun ids hids =>
      ⟨s₂, a, hreach, hstep, hreturns ids hids⟩⟩

end Net

/-! ### The system -/

/-- Devices that sync over HTTP, and the server. -/
structure HttpSystem (ι : Type) where
  provider : ι → ReplicaIdProvider
  device : ι → SyncClient
  server : ServerState
  /-- The event ids drawn so far. -/
  drawn : List Uuid

/-- The steps of the system. -/
inductive HttpAction (cr : Crates) (ι : Type)
  /-- The log half of `ItemStorage::store` on a device, with the ids it draws for the events. -/
  | store (d : ι) (id : ItemId) (changes : List (Uuid × EntityEvent ItemEvent))
  /-- A round of `sync`, with the server's clock and what becomes of each of its requests. -/
  | sync (d : ι) (now : ℕ → ℕ → ℤ) (fate : ℕ → Fate) (batch fuel : ℕ)
  /-- A new runner on a device. -/
  | newRunner (d : ι)
  /-- A request from elsewhere, unless it is a push that is accepted. -/
  | request (now : ℕ → ℤ) (req : cr.Request)

namespace HttpAction

variable {cr : Crates} {ι : Type}

/-- What a round meets when nobody pushes in the middle of it. -/
def weather (now : ℕ → ℕ → ℤ) (fate : ℕ → Fate) : Weather where
  others _ := []
  now := now
  fate := fate

/-- The values of an action are such as the types of the source can hold. -/
def InRange : HttpAction cr ι → Prop
  | .store _ _ changes => InU64 changes.length ∧
      ∀ change ∈ changes, InI64 change.2.modifiedAtMs ∧ change.2.event.InRange
  | .sync _ now _ batch _ => (∀ k i, InI64 (now k i)) ∧ InU64 batch
  | .newRunner _ | .request _ _ => True

end HttpAction

namespace HttpSystem

variable {ι : Type} [DecidableEq ι]

def setDevice (s : HttpSystem ι) (d : ι) (client : SyncClient) : HttpSystem ι :=
  { s with device := Function.update s.device d client }

/-- One step of the system; `none` when it is not enabled. -/
def step (cr : Crates) (s : HttpSystem ι) : HttpAction cr ι → Option (HttpSystem ι)
  | .store d id changes =>
    -- an id is drawn once
    if (s.drawn ++ changes.map Prod.fst).Nodup then
      let events := ItemStorage.appendEvents (s.provider d).get id changes
      some { s.setDevice d { s.device d with log := ((s.device d).log.appendLocal events).1 } with
        drawn := s.drawn ++ changes.map Prod.fst }
    else none
  | .sync d now fate batch fuel =>
    if 0 < batch then
      ((s.device d).sync (HttpServerApi.api cr (HttpAction.weather now fate)) batch fuel
        { server := s.server }).map fun o =>
          { s.setDevice d o.device with server := o.server.server }
    else none
  | .newRunner d =>
    some (s.setDevice d { s.device d with state := .new (s.provider d).get })
  | .request now req =>
    match cr.accepted req with
    | none => some { s with server := (cr.route s.server now req).1 }
    | some _ => none

/-- The system at the start. -/
def start (provider : ι → ReplicaIdProvider) : HttpSystem ι where
  provider := provider
  device d := ⟨.new, .new (provider d).get⟩
  server := .new
  drawn := []

/-- The system as a machine. -/
def machine (cr : Crates) (ι : Type) [DecidableEq ι] :
    Machine (HttpSystem ι) (HttpAction cr ι) where
  init s := ∃ provider, s = start provider
  step := step cr

/-- The system seen as the protocol between two rounds. -/
structure Matches (s : HttpSystem ι) (n : Net ι) : Prop where
  inv : n.Inv
  provider : n.provider = s.provider
  log : ∀ d, n.log d = (s.device d).log
  state : ∀ d, n.state d = (s.device d).state
  idle : ∀ d, n.round d = none
  server : n.server = s.server.log
  holds : ∀ d, Holdings s.drawn (s.device d) s.server.log
  mirrors : s.server.Mirrors

variable {s s' : HttpSystem ι} {n : Net ι} {cr : Crates} {a : HttpAction cr ι}

/-- No step takes an offset back. -/
private theorem evolves_of_step (h : (machine cr ι).step s a = some s') :
    s.server.Evolves s'.server := by
  cases a with
  | store d id changes =>
    simp only [machine, step] at h
    split_ifs at h
    obtain rfl := Option.some.inj h
    exact .refl s.server
  | sync d now fate batch fuel =>
    simp only [machine, step] at h
    split_ifs at h
    obtain ⟨o, ho, rfl⟩ := Option.map_eq_some_iff.mp h
    exact (HttpLink.evolves_sync ho :)
  | newRunner d =>
    obtain rfl := Option.some.inj h
    exact .refl s.server
  | request now req =>
    simp only [machine, step] at h
    split at h
    next =>
      obtain rfl := Option.some.inj h
      exact ServerState.evolves_route cr s.server now req
    next => cases h

/-- Every id of an authored event has been drawn. -/
private theorem Matches.authoredIds_subset (h : s.Matches n) : n.authoredIds ⊆ s.drawn := by
  intro x hx
  obtain ⟨e, he, rfl⟩ := List.mem_map.mp hx
  obtain ⟨⟨d, e⟩, hd, rfl⟩ := List.mem_map.mp he
  exact (h.holds d).device_ids (h.log d ▸ h.inv.sound.own_mem hd)

/-- What a device does, in the protocol and here. -/
private theorem Matches.of_reachesBy (h : s.Matches n) {d : ι} {n' : Net ι} {drawn : List Uuid}
    {client : SyncClient} {hl : HttpLink} (hreach : Net.ReachesBy d n n')
    (hruns : n'.RunsHttp d drawn client hl none) (hdrawn : s.drawn ⊆ drawn)
    (hmirrors : hl.server.Mirrors) : Matches
      { s with device := Function.update s.device d client, server := hl.server, drawn := drawn }
      n' where
  inv := hruns.inv
  provider := hreach.provider.trans h.provider
  log e := by
    by_cases he : e = d
    · subst he
      simpa using hruns.runs.log
    · simpa [he] using (hreach.frame he).1.trans (h.log e)
  state e := by
    by_cases he : e = d
    · subst he
      simpa using hruns.runs.state
    · simpa [he] using (hreach.frame he).2.1.trans (h.state e)
  idle e := by
    by_cases he : e = d
    · exact he ▸ hruns.runs.round
    · exact (hreach.frame he).2.2.trans (h.idle e)
  server := hruns.runs.server
  holds e := by
    by_cases he : e = d
    · subst he
      simpa using hruns.holds
    · have hdevice := h.holds e
      have hserver := hruns.holds
      simpa [he] using Holdings.mk hdevice.device hserver.server
        (List.Subset.trans hdevice.device_ids hdrawn) hserver.server_ids
  mirrors := hmirrors

/-- **A step of the system is matched by the protocol.** -/
theorem Matches.of_step (hm : s.Matches n) (ha : a.InRange)
    (h : (machine cr ι).step s a = some s')
    (hnext : s'.server.log.nextServerOffset ≤ 2 ^ 64) :
    ∃ n', (Net.machine ι).Reaches (fun _ => True) n n' ∧ s'.Matches n' := by
  have hmirrors := (evolves_of_step h).mirrors hm.mirrors
  cases a with
  | store d id changes =>
    simp only [machine, step] at h
    split_ifs at h with hfresh
    obtain rfl := Option.some.inj h
    obtain ⟨-, hnodup, hdrawn⟩ := List.nodup_append.mp hfresh
    let events := ItemStorage.appendEvents (s.provider d).get id changes
    have hstep : (Net.machine ι).step n (.author d id changes)
        = some { n with toReplicas := n.toReplicas.author d events } := by
      simp only [Net.machine, Net.author, hm.idle d, hm.provider]
      exact if_pos ⟨hnodup, fun e he hmem => hdrawn e (hm.authoredIds_subset hmem) e he rfl⟩
    have hreach : Net.ReachesBy d n _ := .single rfl hstep
    have hlog : (n.toReplicas.author d events).log d
        = ((s.device d).log.appendLocal events).1 := by
      rw [Replicas.log_author_self, hm.log]
    have hstored : Net.RunsHttp _ d (s.drawn ++ changes.map Prod.fst)
        { s.device d with log := ((s.device d).log.appendLocal events).1 }
        { server := s.server } none :=
      ⟨hreach.inv hm.inv, ⟨hlog, hm.state d, hm.server, hm.idle d⟩,
        (hm.holds d).stored ha.1 ha.2⟩
    exact ⟨_, hreach.imp fun _ _ => trivial,
      hm.of_reachesBy hreach hstored (List.subset_append_left _ _) hmirrors⟩
  | sync d now fate batch fuel =>
    simp only [machine, step] at h
    split_ifs at h with hpos
    obtain ⟨o, ho, rfl⟩ := Option.map_eq_some_iff.mp h
    have hw : (HttpAction.weather now fate).InRange :=
      ⟨fun _ _ hev => absurd hev List.not_mem_nil, ha.1⟩
    have hruns : n.RunsHttp d s.drawn (s.device d) { server := s.server } none :=
      ⟨hm.inv, ⟨hm.log d, hm.state d, hm.server, hm.idle d⟩, hm.holds d⟩
    obtain ⟨n', hreach, hn', -⟩ :=
      Net.reaches_httpSync hw (fun _ => rfl) ⟨hpos, ha.2⟩ hruns ho hnext
    exact ⟨n', hreach.imp fun _ _ => trivial,
      hm.of_reachesBy hreach hn' (List.Subset.refl _) hmirrors⟩
  | newRunner d =>
    obtain rfl := Option.some.inj h
    have hstep : (Net.machine ι).step n (.sync (.newRunner d))
        = some { n with toReplicas := n.restart d } := by
      simp only [Net.machine, Net.syncStep, hm.idle d]
    have hreach : Net.ReachesBy d n _ := .single rfl hstep
    have hstate : (n.restart d).state d = .new (s.provider d).get := by
      rw [Replicas.state_restart_self, hm.provider]
    have hrestarted : Net.RunsHttp _ d s.drawn
        { s.device d with state := .new (s.provider d).get } { server := s.server } none :=
      ⟨hreach.inv hm.inv, ⟨hm.log d, hstate, hm.server, hm.idle d⟩, (hm.holds d).restarted _⟩
    exact ⟨_, hreach.imp fun _ _ => trivial,
      hm.of_reachesBy hreach hrestarted (List.Subset.refl _) hmirrors⟩
  | request now req =>
    simp only [machine, step] at h
    split at h
    next hreq =>
      obtain rfl := Option.some.inj h
      rw [Crates.route_of_not_accepted hreq]
      exact ⟨n, .refl, hm⟩
    next => cases h

end HttpSystem

end OfflineSync
