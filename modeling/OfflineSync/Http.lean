import OfflineSync.PlainCrates
import OfflineSync.SyncTermination

/-!
# The device's HTTP client

`client-sdk/src/http.rs` over the router of `Server`. Where `httpServerApi` hands the arguments of
a call to the log of the server and its answer back, `HttpServerApi.api` makes a request, has it
routed, and reads the response.

`http_refines` says that this makes no difference to a round: what is sent arrives, no request of a
device is refused, and no answer is unreadable. The two meet the same `Weather`, and the sync engine
cannot tell them apart.
-/

namespace OfflineSync

/-! ### The requests of a device -/

/-- The URL of `HttpServerApi::pull`. -/
def pullUrl (eventsUrl : String) (offset : Option ServerOffset) (limit : ℕ) : String :=
  let url := eventsUrl ++ "?limit=" ++ toString limit
  match offset with
  | some o => url ++ ("&after=" ++ toString o.val)
  | none => url

private theorem pullUrl_eq (eventsUrl : String) (offset : Option ServerOffset) (limit : ℕ) :
    pullUrl eventsUrl offset limit
      = eventsUrl ++ "?" ++ afterQuery limit (offset.map ServerOffset.val) := by
  have hsplit : "?limit=" = "?" ++ "limit=" := rfl
  cases offset with
  | none => simp only [pullUrl, afterQuery, hsplit, Option.map_none, String.append_empty,
      String.append_assoc]
  | some o => simp only [pullUrl, afterQuery, hsplit, Option.map_some, String.append_assoc]

namespace Crates

variable (cr : Crates)

/-- `events_url`. -/
def eventsUrl : String :=
  cr.baseUrl ++ "/events"

/-- The request of `HttpServerApi::push`. -/
def pushRequest (events : List ItemAppend) : cr.Request :=
  cr.postJson cr.eventsUrl events

/-- The request of `HttpServerApi::pull`. -/
def pullRequest (offset : Option ServerOffset) (limit : ℕ) : cr.Request :=
  cr.get (pullUrl cr.eventsUrl offset limit)

/-- What `HttpServerApi::push` makes of the response. -/
def receivePush (resp : cr.Response) : Except String (List ItemDescriptor) :=
  (cr.errorForStatus resp).bind cr.readDescriptors

/-- What `HttpServerApi::pull` makes of it. -/
def receivePull (resp : cr.Response) : Except String (EventsPage ItemEvent ItemId) :=
  (cr.errorForStatus resp).bind cr.readPage

/-- The server has room for a batch. -/
def Fits (events : List ItemAppend) : Prop :=
  cr.fits events = true

/-- A push that fits is accepted. -/
theorem accepted_pushRequest {events : List ItemAppend} (hevents : ∀ ev ∈ events, ev.InRange)
    (hfits : cr.Fits events) : cr.accepted (cr.pushRequest events) = some events := by
  have hroute : (⟨"/events", .post, .appendEvents⟩ : Route) ∈ routes := by decide
  exact accepted_eq_some.mpr
    ⟨cr.router_postJson _ hroute rfl events, cr.json_postJson _ events hevents hfits⟩

/-- A push whose batch is rejected gets the rejection. -/
theorem route_of_rejected (events : List ItemAppend) {rejection : cr.Response}
    (h : cr.json (cr.pushRequest events) = .error rejection) (state : ServerState) (now : ℕ → ℤ) :
    cr.route state now (cr.pushRequest events) = (state, rejection) := by
  have hroute : (⟨"/events", .post, .appendEvents⟩ : Route) ∈ routes := by decide
  have hrouter : cr.router routes (cr.pushRequest events) = .ok .appendEvents :=
    cr.router_postJson _ hroute rfl events
  simp only [route, hrouter, handle, h]

/-- A push is answered with what `append_events` returns. -/
private theorem answer_push {state : ServerState} {now : ℕ → ℤ} (hlog : state.log.InRange)
    (hnow : ∀ i, InI64 (now i)) {events : List ItemAppend} (hevents : ∀ ev ∈ events, ev.InRange)
    (hfits : cr.Fits events)
    (hnext : (state.log.append now events).1.nextServerOffset ≤ 2 ^ 64) :
    let answered := cr.route state now (cr.pushRequest events)
    answered.1 = (state.appendEvents now events).1 ∧
      cr.receivePush answered.2 = .ok (state.appendEvents now events).2 := by
  intro answered
  have haccepted := cr.accepted_pushRequest hevents hfits
  have hstored : ∀ d ∈ (state.appendEvents now events).2, d.InRange := fun d hd =>
    hlog.append hnow hevents hnext d (ServerEventLog.mem_entries_of_mem_append_snd _ _ _ d hd)
  rw [show answered = _ from route_of_accepted haccepted state now]
  refine ⟨rfl, ?_⟩
  rw [receivePush, cr.errorForStatus_ok _ (cr.status_respond _ _)]
  exact cr.readDescriptors_respond _ _ _ hstored

/-- A pull reaches `get_events` with its offset and limit. -/
private theorem route_pullRequest {offset : Option ServerOffset} {limit : ℕ}
    (hoffset : ∀ o ∈ offset, InU64 o.val) (hlimit : InU64 limit) (state : ServerState)
    (now : ℕ → ℤ) : cr.route state now (cr.pullRequest offset limit)
      = (state, cr.respond (cr.pullRequest offset limit)
        (.page (state.log.eventsAfter offset limit))) := by
  have hroute : (⟨"/events", .get, .getEvents⟩ : Route) ∈ routes := by decide
  have hafter : ∀ o ∈ offset.map ServerOffset.val, InU64 o := by
    intro o ho
    obtain ⟨offset', hoffset', rfl⟩ := Option.map_eq_some_iff.mp ho
    exact hoffset offset' hoffset'
  have hrouter := cr.router_get _ hroute rfl limit _ hlimit hafter
  have hquery := cr.query_get _ hroute limit _ hlimit hafter
  rw [← eventsUrl, ← pullUrl_eq] at hrouter hquery
  have hpage : state.getEvents ⟨offset.map ServerOffset.val, some limit⟩
      = state.log.eventsAfter offset limit := by
    cases offset <;> rfl
  simp only [route, pullRequest, hrouter, handle, hquery, hpage]

/-- A pull is answered with the page of the log. -/
private theorem answer_pull {state : ServerState} (now : ℕ → ℤ) (hlog : state.log.InRange)
    {offset : Option ServerOffset} {limit : ℕ} (hoffset : ∀ o ∈ offset, InU64 o.val)
    (hlimit : InU64 limit) :
    let answered := cr.route state now (cr.pullRequest offset limit)
    answered.1 = state ∧
      cr.receivePull answered.2 = .ok (state.log.eventsAfter offset limit) := by
  intro answered
  rw [show answered = _ from cr.route_pullRequest hoffset hlimit state now]
  refine ⟨rfl, ?_⟩
  rw [receivePull, cr.errorForStatus_ok _ (cr.status_respond _ _)]
  exact cr.readPage_respond _ _ (hlog.eventsAfter offset limit)

end Crates

/-! ### A round over HTTP -/

/-- The server behind its router, and the requests a device has made of it. -/
structure HttpLink where
  server : ServerState
  posts : ℕ := 0
  gets : ℕ := 0

namespace HttpLink

/-- The number of the next request. -/
def requests (link : HttpLink) : ℕ :=
  link.posts + link.gets

/-- The server when the next request is handled. -/
def arrive (w : Weather) (link : HttpLink) : ServerState :=
  (link.server.appendEvents (w.now link.requests) (w.others link.requests)).1

/-- `send`: what a request leaves of the server, and the response. -/
def send (cr : Crates) (w : Weather) (link : HttpLink) (req : cr.Request) :
    ServerState × Except String cr.Response :=
  let handled := cr.route (link.arrive w)
    (fun i => w.now link.requests ((w.others link.requests).length + i)) req
  match w.fate link.requests with
  | .answered => (handled.1, .ok handled.2)
  | .lost message => (link.arrive w, .error message)
  | .answerLost message => (handled.1, .error message)

/-- The link that `httpServerApi` sees. -/
structure Refines (hl : HttpLink) (link : Link) : Prop where
  log : hl.server.log = link.log
  posts : hl.posts = link.posts
  gets : hl.gets = link.gets

end HttpLink

/-- `to_error`. -/
def toError (e : String) : SyncError :=
  .transport e

/-- `HttpServerApi`, request by request. -/
def HttpServerApi.api (cr : Crates) (w : Weather) : ServerApi HttpLink where
  push link events :=
    if events = [] then (link, .ok [])
    else
      let sent := link.send cr w (cr.pushRequest events)
      ({ link with server := sent.1, posts := link.posts + 1 },
        (sent.2.bind cr.receivePush).mapError toError)
  pull link offset limit :=
    let sent := link.send cr w (cr.pullRequest offset limit)
    ({ link with server := sent.1, gets := link.gets + 1 },
      (sent.2.bind cr.receivePull).mapError toError)

/-- What others push and the server's clock are in range. -/
structure Weather.InRange (w : Weather) : Prop where
  others : ∀ n, ∀ ev ∈ w.others n, AppendEvent.InRange ev
  now : ∀ n i, InI64 (w.now n i)

namespace HttpLink

variable {cr : Crates} {w : Weather} {hl : HttpLink} {link : Link}

private theorem Refines.requests (h : hl.Refines link) : hl.requests = link.requests := by
  rw [HttpLink.requests, h.posts, h.gets, Link.requests]

private theorem Refines.arrive (h : hl.Refines link) (w : Weather) :
    (hl.arrive w).log = link.arrive w := by
  rw [HttpLink.arrive, Link.arrive, h.requests, ← h.log]
  rfl

private theorem inRange_arrive (hw : w.InRange) (hlog : link.log.InRange)
    (hnext : (link.arrive w).nextServerOffset ≤ 2 ^ 64) : (link.arrive w).InRange :=
  hlog.append (hw.now _) (hw.others _) hnext

/-- A push does the same on both sides, and is answered alike. -/
theorem Refines.push (h : hl.Refines link) (hw : w.InRange) (hlog : link.log.InRange)
    {events : List ItemAppend} (hevents : ∀ ev ∈ events, ev.InRange) (hfits : cr.Fits events)
    (hnext : ((httpServerApi w).push link events).1.log.nextServerOffset ≤ 2 ^ 64) :
    ∃ hl', (HttpServerApi.api cr w).push hl events
        = (hl', ((httpServerApi w).push link events).2) ∧
      hl'.Refines ((httpServerApi w).push link events).1 := by
  by_cases hnil : events = []
  · subst hnil
    exact ⟨hl, rfl, h⟩
  · have harrive := h.arrive w
    have hhandled : (hl.arrive w).log.append
        (fun i => w.now link.requests ((w.others link.requests).length + i)) events
        = link.handlePost w events := by
      rw [harrive]
      rfl
    -- a request that arrives is answered, whether or not the answer comes back
    have hanswer (hnext : (link.handlePost w events).1.nextServerOffset ≤ 2 ^ 64) :=
      have hrange : (hl.arrive w).log.InRange := harrive ▸ inRange_arrive hw hlog
        ((ServerEventLog.grows_append _ _ events).nextServerOffset_le.trans hnext)
      cr.answer_push hrange
        (fun i => hw.now link.requests ((w.others link.requests).length + i)) hevents hfits
        (hhandled ▸ hnext)
    simp only [HttpServerApi.api, httpServerApi, if_neg hnil, send, h.requests] at hnext ⊢
    cases hfate : w.fate link.requests with
    | answered =>
      rw [hfate] at hnext
      obtain ⟨hserver, hanswer⟩ := hanswer hnext
      have hacks : (.ok ((hl.arrive w).log.append
          (fun i => w.now link.requests ((w.others link.requests).length + i)) events).2 :
          Except SyncError (List ItemDescriptor)) = .ok (link.handlePost w events).2 := by
        rw [hhandled]
      have hanswer := congrArg (Except.mapError toError) hanswer
      refine ⟨_, Prod.ext rfl (hanswer.trans hacks), ?_, congrArg (· + 1) h.posts, h.gets⟩
      rw [hserver]
      exact congrArg Prod.fst hhandled
    | lost message => exact ⟨_, rfl, harrive, congrArg (· + 1) h.posts, h.gets⟩
    | answerLost message =>
      rw [hfate] at hnext
      obtain ⟨hserver, -⟩ := hanswer hnext
      refine ⟨_, rfl, ?_, congrArg (· + 1) h.posts, h.gets⟩
      rw [hserver]
      exact congrArg Prod.fst hhandled

/-- So does a pull. -/
theorem Refines.pull (h : hl.Refines link) (cr : Crates) (hw : w.InRange) (hlog : link.log.InRange)
    {offset : Option ServerOffset} {limit : ℕ} (hoffset : ∀ o ∈ offset, InU64 o.val)
    (hlimit : InU64 limit) (hnext : (link.arrive w).nextServerOffset ≤ 2 ^ 64) :
    ∃ hl', (HttpServerApi.api cr w).pull hl offset limit
        = (hl', ((httpServerApi w).pull link offset limit).2) ∧
      hl'.Refines ((httpServerApi w).pull link offset limit).1 := by
  have harrive := h.arrive w
  have hrange : (hl.arrive w).log.InRange := harrive ▸ inRange_arrive hw hlog hnext
  obtain ⟨hserver, hanswer⟩ := cr.answer_pull
    (fun i => w.now link.requests ((w.others link.requests).length + i)) hrange hoffset hlimit
  have hpage : (hl.arrive w).log.eventsAfter offset limit
      = (link.arrive w).eventsAfter offset limit := by rw [harrive]
  have hafter : (cr.route (hl.arrive w)
      (fun i => w.now link.requests ((w.others link.requests).length + i))
      (cr.pullRequest offset limit)).1.log = link.arrive w := by rw [hserver, harrive]
  simp only [HttpServerApi.api, httpServerApi, send, h.requests]
  cases hfate : w.fate link.requests with
  | answered =>
    have hanswer := congrArg (Except.mapError toError) hanswer
    exact ⟨_, Prod.ext rfl (hanswer.trans (congrArg Except.ok hpage)), hafter, h.posts,
      congrArg (· + 1) h.gets⟩
  | lost message => exact ⟨_, rfl, harrive, h.posts, congrArg (· + 1) h.gets⟩
  | answerLost message => exact ⟨_, rfl, hafter, h.posts, congrArg (· + 1) h.gets⟩

end HttpLink

/-! ### The device stays in range -/

private theorem AppendEvent.inRange_ofDescriptor {d : ItemDescriptor} (h : d.InRange) :
    (AppendEvent.ofDescriptor d).InRange where
  payload := h.payload
  time := h.time
  writeOffset o ho := by
    obtain rfl := Option.some.inj ho
    exact h.writeOffset
  serverOffset := h.serverOffset
  serverTime := h.serverTime

namespace DeviceEventLog

/-- A log of values that the types of the source can hold. -/
def InRange (log : DeviceEventLog) : Prop :=
  ∀ d ∈ log.entries, d.InRange

private theorem inRange_replicated {ev : ItemAppend} (h : ev.InRange) :
    (replicated ev).InRange where
  writeOffset := by
    cases hoffset : ev.replicaWriteOffset with
    | none => simp [replicated, hoffset, InU64]
    | some o => simpa [replicated, hoffset] using h.writeOffset o hoffset
  time := h.time
  serverOffset := h.serverOffset
  serverTime := h.serverTime
  payload := h.payload

private theorem InRange.append {log : DeviceEventLog} (h : log.InRange) {events : List ItemAppend}
    (hevents : ∀ ev ∈ events, ev.InRange) : (log.append events).InRange := by
  induction events generalizing log with
  | nil => exact h
  | cons ev events ih =>
    obtain ⟨hev, hevents⟩ := List.forall_mem_cons.mp hevents
    rw [DeviceEventLog.append]
    split_ifs
    · exact ih h hevents
    · refine ih (fun d hd => ?_) hevents
      rcases List.mem_append.mp hd with hd | hd
      · exact h d hd
      · obtain rfl := List.mem_singleton.mp hd
        exact inRange_replicated hev

private theorem InRange.markSynced {log : DeviceEventLog} (h : log.InRange) (hnd : log.ids.Nodup)
    {acks : List ItemDescriptor} (hacks : ∀ ack ∈ acks, ack.InRange) :
    (log.markSynced acks).InRange := by
  intro d hd
  rw [entries_markSynced hnd] at hd
  obtain ⟨entry, hentry, rfl⟩ := List.mem_map.mp hd
  have hrange := h entry hentry
  rcases foldl_acknowledge_cases acks entry with ⟨heq, -⟩ | ⟨ack, hack, -, heq⟩
  · rw [heq]
    exact hrange
  · have hack := hacks ack hack
    rw [heq]
    exact ⟨hrange.writeOffset, hrange.time, hack.serverOffset, hack.serverTime, hrange.payload⟩

end DeviceEventLog

/-- The device holds values that the types of the source can hold. -/
structure SyncClient.InRange (client : SyncClient) : Prop where
  log : client.log.InRange
  pulled : ∀ o ∈ client.state.pulled, InU64 o.val

namespace SyncClient

variable {cr : Crates} {w : Weather} {batch fuel base : ℕ} {client : SyncClient} {link : Link}
  {hl : HttpLink}

/-- A batch of unsynced events is within the limit of `Json`. -/
def FitsBody (cr : Crates) (batch : ℕ) (client : SyncClient) : Prop :=
  ∀ events : List ItemDescriptor, events.Sublist client.unsynced → events.length ≤ batch →
    cr.Fits (events.map AppendEvent.ofDescriptor)

theorem InRange.toPush (h : client.InRange) : ∀ ev ∈ client.toPush batch, ev.InRange := by
  intro ev hev
  obtain ⟨d, hd, rfl⟩ := List.mem_map.mp hev
  have hmem := List.mem_of_mem_filter (List.mem_of_mem_take hd)
  exact AppendEvent.inRange_ofDescriptor (h.log d hmem)

theorem InRange.acknowledged (h : client.InRange) (hnd : client.log.ids.Nodup)
    {acks : List ItemDescriptor} (hacks : ∀ ack ∈ acks, ack.InRange) :
    (client.acknowledged acks).InRange :=
  ⟨h.log.markSynced hnd hacks, h.pulled⟩

theorem InRange.received (h : client.InRange) {page : EventsPage ItemEvent ItemId}
    (hpage : page.InRange) : (client.received page).InRange := by
  refine ⟨h.log.append fun ev hev => ?_, hpage.nextOffset⟩
  obtain ⟨d, hd, rfl⟩ := List.mem_map.mp hev
  exact AppendEvent.inRange_ofDescriptor (hpage.events d hd)

/-- Where a push ends, the log is in range, and so are the events it acknowledges. -/
theorem inRange_push (hw : w.InRange) (hlog : link.log.InRange) {events : List ItemAppend}
    (hevents : ∀ ev ∈ events, ev.InRange)
    (hnext : ((httpServerApi w).push link events).1.log.nextServerOffset ≤ 2 ^ 64) :
    ((httpServerApi w).push link events).1.log.InRange ∧
      ∀ acks, ((httpServerApi w).push link events).2 = .ok acks → ∀ ack ∈ acks, ack.InRange := by
  by_cases hnil : events = []
  · subst hnil
    refine ⟨hlog, fun acks hacks => ?_⟩
    obtain rfl := Except.ok.inj hacks
    exact fun ack hack => absurd hack List.not_mem_nil
  · have hhandled (hnext : (link.handlePost w events).1.nextServerOffset ≤ 2 ^ 64) :
        (link.handlePost w events).1.InRange :=
      (HttpLink.inRange_arrive hw hlog ((ServerEventLog.grows_append _ _
        events).nextServerOffset_le.trans hnext)).append (fun _ => hw.now _ _) hevents hnext
    simp only [httpServerApi, if_neg hnil] at hnext ⊢
    cases hfate : w.fate link.requests with
    | answered =>
      rw [hfate] at hnext
      refine ⟨hhandled hnext, fun acks hacks ack hack => hhandled hnext ack ?_⟩
      obtain rfl := Except.ok.inj hacks
      exact ServerEventLog.mem_entries_of_mem_append_snd _ _ _ ack hack
    | lost message =>
      rw [hfate] at hnext
      exact ⟨HttpLink.inRange_arrive hw hlog hnext, fun acks hacks => by cases hacks⟩
    | answerLost message =>
      rw [hfate] at hnext
      exact ⟨hhandled hnext, fun acks hacks => by cases hacks⟩

/-- A push either goes through, or the device is left with an error. -/
private theorem httpPush_cases (w : Weather) (link : Link) {events : List ItemAppend}
    (hne : events ≠ []) : (httpServerApi w).push link events
        = (link.posted w events, .ok (link.handlePost w events).2) ∨
      ∃ link' e, (httpServerApi w).push link events = (link', .error e) := by
  simp only [httpServerApi, if_neg hne]
  cases w.fate link.requests with
  | answered => exact .inl rfl
  | lost message | answerLost message => exact .inr ⟨_, _, rfl⟩

/-- The loop of `push` over HTTP. -/
private theorem push_refines (hw : w.InRange) (hbatch : 0 < batch) (hclient : client.InRange)
    (hnd : client.log.ids.Nodup) (hfits : client.FitsBody cr batch)
    (hlog : link.log.NumberedFrom base) (hrange : link.log.InRange) (hrefines : hl.Refines link)
    {o : Outcome SyncClient Link Unit}
    (h : push (httpServerApi w) batch fuel client link = some o)
    (hnext : o.server.log.nextServerOffset ≤ 2 ^ 64) :
    ∃ server, push (HttpServerApi.api cr w) batch fuel client hl
        = some ⟨o.device, server, o.result⟩ ∧
      server.Refines o.server ∧ o.device.InRange ∧ o.server.log.InRange := by
  induction fuel generalizing client link hl with
  | zero => cases h
  | succ fuel ih =>
    by_cases hnil : client.unsynced = []
    · rw [push_of_nil hnil] at h
      obtain rfl := Option.some.inj h
      exact ⟨hl, push_of_nil hnil, hrefines, hclient, hrange⟩
    · have hne := take_unsynced_ne_nil hbatch hnil
      have hevents : client.toPush batch ≠ [] := fun h => hne (List.map_eq_nil_iff.mp h)
      have hfitsEvents : cr.Fits (client.toPush batch) :=
        hfits _ (List.take_sublist _ _) (List.length_take_le _ _)
      have hpush := hrefines.push hw hrange hclient.toPush hfitsEvents
      have hevents' : ∀ ev ∈ client.toPush batch, ev.InRange := hclient.toPush
      have hpushRange := inRange_push hw hrange hevents'
      rw [push_succ hne] at h
      rcases httpPush_cases w link hevents with hsent | ⟨link', e, hsent⟩
      · rw [hsent] at h hpush hpushRange
        obtain ⟨hids, -, hunsynced⟩ := acknowledged_spec w batch hnd hlog
        have hlog' := hlog.of_grows (link.grows_posted w (client.toPush batch))
        have hgrows := (push_spec hbatch (hids ▸ hnd) hlog' h).grows
        have hposted := hgrows.nextServerOffset_le.trans hnext
        obtain ⟨hl', hpush, hrefines'⟩ := hpush hposted
        obtain ⟨hrange', hacks⟩ := hpushRange hposted
        rw [push_succ hne, hpush]
        refine ih (hclient.acknowledged hnd (hacks _ rfl)) (hids ▸ hnd) ?_ hlog' hrange' hrefines' h
        intro events hsub
        exact hfits events (hsub.trans (hunsynced ▸ List.drop_sublist _ _))
      · rw [hsent] at h hpush hpushRange
        obtain rfl := Option.some.inj h
        obtain ⟨hl', hpush, hrefines'⟩ := hpush hnext
        refine ⟨hl', ?_, hrefines', hclient, (hpushRange hnext).1⟩
        rw [push_succ hne, hpush]

/-- A pull is answered with a page, or the device is left with an error. -/
theorem httpPull_cases (w : Weather) (link : Link) (offset : Option ServerOffset) (limit : ℕ) :
    (httpServerApi w).pull link offset limit
        = (link.got w, .ok ((link.arrive w).eventsAfter offset limit)) ∨
      ∃ e, (httpServerApi w).pull link offset limit = (link.got w, .error e) := by
  simp only [httpServerApi]
  cases w.fate link.requests with
  | answered => exact .inl rfl
  | lost message | answerLost message => exact .inr ⟨_, rfl⟩

/-- The loop of `pull` over HTTP. -/
private theorem pull_refines (hw : w.InRange) (hlimit : InU64 batch) (hbatch : 0 < batch)
    {touched : List ItemId} (hclient : client.InRange) (hlog : link.log.NumberedFrom base)
    (hrange : link.log.InRange) (hrefines : hl.Refines link)
    {o : Outcome SyncClient Link (List ItemId)}
    (h : pull (httpServerApi w) batch fuel touched client link = some o)
    (hnext : o.server.log.nextServerOffset ≤ 2 ^ 64) :
    ∃ server, pull (HttpServerApi.api cr w) batch fuel touched client hl
        = some ⟨o.device, server, o.result⟩ ∧ server.Refines o.server := by
  induction fuel generalizing touched client link hl with
  | zero => cases h
  | succ fuel ih =>
    have hpull := hrefines.pull cr hw hrange hclient.pulled hlimit
    rw [pull] at h ⊢
    rcases httpPull_cases w link client.state.pulled batch with hsent | ⟨e, hsent⟩
    · rw [hsent] at h hpull
      simp only at h
      have hlog' : (link.got w).log.NumberedFrom base := hlog.of_grows (link.grows_arrive w)
      split_ifs at h with hempty
      · obtain rfl := Option.some.inj h
        obtain ⟨hl', hpull, hrefines'⟩ := hpull hnext
        refine ⟨hl', ?_, hrefines'⟩
        rw [hpull]
        exact if_pos hempty
      · have harrive := (pull_spec hbatch hlog' h).grows.nextServerOffset_le.trans hnext
        obtain ⟨hl', hpull, hrefines'⟩ := hpull harrive
        have hrange' := HttpLink.inRange_arrive hw hrange harrive
        have hclient' := hclient.received (hrange'.eventsAfter client.state.pulled batch)
        rw [hpull]
        simp only [if_neg hempty]
        exact ih hclient' hlog' hrange' hrefines' h
    · rw [hsent] at h hpull
      obtain rfl := Option.some.inj h
      obtain ⟨hl', hpull, hrefines'⟩ := hpull hnext
      refine ⟨hl', ?_, hrefines'⟩
      rw [hpull]

end SyncClient

/-! ### The system over HTTP -/

/-- **HTTP makes no difference to a round.** Take a round that ends at the server as
`httpServerApi` has it, from values in range and with batches that fit in a body. Over requests
and responses, in the same weather, it ends with the same result, leaves the device as it does
there, and leaves the server with the same log after the same requests. -/
theorem http_refines {cr : Crates} {w : Weather} {batch fuel : ℕ} {client : SyncClient}
    {hl : HttpLink} {o : Outcome SyncClient Link (List ItemId)}
    (hw : w.InRange) (hbatch : 0 < batch ∧ InU64 batch)
    (hclient : client.log.Reachable ∧ client.InRange ∧ client.FitsBody cr batch)
    (hserver : ServerEventLog.new.Reachable hl.server.log ∧ hl.server.log.InRange)
    (h : client.sync (httpServerApi w) batch fuel ⟨hl.server.log, hl.posts, hl.gets⟩ = some o)
    (hnext : o.server.log.nextServerOffset ≤ 2 ^ 64) :
    ∃ hl', client.sync (HttpServerApi.api cr w) batch fuel hl = some ⟨o.device, hl', o.result⟩ ∧
      hl'.Refines o.server := by
  obtain ⟨hbatch, hlimit⟩ := hbatch
  obtain ⟨hclient, hrange, hfits⟩ := hclient
  obtain ⟨hserver, hlog⟩ := hserver
  have hnumbered := ServerEventLog.wellFormed_iff.mp hserver.wellFormed
  have hrefines : hl.Refines ⟨hl.server.log, hl.posts, hl.gets⟩ := ⟨rfl, rfl, rfl⟩
  obtain ⟨pushed, hpush, ⟨e, hres, rfl⟩ | ⟨hok, hpull⟩⟩ := SyncClient.sync_cases h
  · obtain ⟨hl', hpush', hrefines', -⟩ := SyncClient.push_refines hw hbatch hrange hclient.nodup
      hfits hnumbered hlog hrefines hpush hnext
    refine ⟨hl', ?_, hrefines'⟩
    rw [SyncClient.sync, hpush', Option.bind_some, hres]
  · have hnumbered' := hnumbered.of_grows
      (SyncClient.push_spec hbatch hclient.nodup hnumbered hpush).grows
    have hle := (SyncClient.pull_spec hbatch hnumbered' hpull).grows.nextServerOffset_le
    obtain ⟨hl₁, hpush', hrefines', hrange', hlog'⟩ := SyncClient.push_refines hw hbatch hrange
      hclient.nodup hfits hnumbered hlog hrefines hpush (hle.trans hnext)
    obtain ⟨hl', hpull', hrefines''⟩ := SyncClient.pull_refines hw hlimit hbatch hrange'
      hnumbered' hlog' hrefines' hpull hnext
    refine ⟨hl', ?_, hrefines''⟩
    rw [SyncClient.sync, hpush', Option.bind_some, hok]
    exact hpull'

/-- A server that has met a push of another device. -/
def otherHttpLink : HttpLink where
  server := (ServerState.new.appendEvents (fun _ => 500)
    [⟨3, ⟨8⟩, .created "eggs" 6, "B", 120, some 1, none, none⟩]).1

theorem http_refines_busyClient :
    ∃ o hl', busyClient.sync (httpServerApi calm) 1 10 otherLink = some o ∧
      busyClient.sync (HttpServerApi.api plainCrates calm) 1 10 otherHttpLink
        = some ⟨o.device, hl', o.result⟩ ∧ hl'.Refines o.server := by
  have hround : (busyClient.sync (httpServerApi calm) 1 10 otherLink).any
      (fun o => decide (o.server.log.nextServerOffset ≤ 2 ^ 64)) = true := by decide +kernel
  obtain ⟨o, ho, hnext⟩ := (Option.any_eq_true _ _).mp hround
  have hentries : ∀ d ∈ busyClient.log.entries, d.InRange := by decide
  have hclient : busyClient.InRange := ⟨hentries, by decide⟩
  have hserver : ∀ d ∈ otherHttpLink.server.log.entries, d.InRange := by decide +kernel
  obtain ⟨hl', hsync, hrefines⟩ : ∃ hl', busyClient.sync (HttpServerApi.api plainCrates calm) 1 10
      otherHttpLink = some ⟨o.device, hl', o.result⟩ ∧ hl'.Refines o.server := http_refines
    ⟨fun _ _ hev => absurd hev List.not_mem_nil, fun _ _ => show InI64 1000 by decide⟩
    ⟨Nat.one_pos, by decide⟩
    ⟨.appendLocal .new _, hclient, fun _ _ _ => rfl⟩ ⟨.append .start _ _, hserver⟩ ho
    (of_decide_eq_true hnext)
  exact ⟨o, hl', ho, hsync, hrefines⟩

end OfflineSync
