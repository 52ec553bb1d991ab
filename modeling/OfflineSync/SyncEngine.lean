import OfflineSync.Sync
import OfflineSync.ServerStream
import Mathlib.Algebra.Order.Floor.Div

/-!
# The sync engine

`client-sdk/src/sync.rs` as it is called: one round, seen from the device, over any `ServerApi`,
and above it `sync_once` and `sync_now` of `client-sdk/src/sync_runner.rs`. The two loops have no
bound of their own, so they take fuel, and `none` says that it ran out.

`httpServerApi` is the server behind `client-sdk/src/http.rs`. What a round meets there is its
`Weather`: what other devices push before each of its requests is handled, the server's clock,
and what becomes of the request.

`Pushes` and `Pulls` are the two loops against that server, pass by pass. `PushSpec` and `PullSpec`
say what each loop does, however it ends: how many requests it made, what it left of the log, and
where the cursor stands.
-/

namespace OfflineSync

/-- `SyncError`. -/
inductive SyncError
  | transport (message : String)
deriving DecidableEq, Repr

/-- `ServerApi`: the two operations a device performs against the server. -/
structure ServerApi (σ : Type) where
  /-- Upload events. -/
  push : σ → List ItemAppend → σ × Except SyncError (List ItemDescriptor)
  /-- Download the events after a cursor. -/
  pull : σ → Option ServerOffset → ℕ → σ × Except SyncError (EventsPage ItemEvent ItemId)

/-- What a round has under its locks: the log and the sync state. -/
structure SyncClient where
  log : DeviceEventLog
  state : SyncState
deriving DecidableEq, Repr

/-- What a call leaves behind, and what it returns. -/
structure Outcome (δ σ α : Type) where
  device : δ
  server : σ
  result : Except SyncError α

namespace SyncClient

variable {σ : Type}

/-- The loop of `push`. -/
def push (api : ServerApi σ) (batch : ℕ) :
    ℕ → SyncClient → σ → Option (Outcome SyncClient σ Unit)
  | 0, _, _ => none
  | fuel + 1, client, server =>
    let unsynced := client.log.getUnsynced client.state.replicaId batch
    if unsynced = [] then some ⟨client, server, .ok ()⟩
    else
      match api.push server (unsynced.map AppendEvent.ofDescriptor) with
      -- nothing is marked: these events are sent again by the next sync
      | (server, .error e) => some ⟨client, server, .error e⟩
      | (server, .ok acknowledged) =>
        push api batch fuel { client with log := client.log.markSynced acknowledged } server

/-- The loop of `pull`, with `touched` as it enters. -/
def pull (api : ServerApi σ) (batch : ℕ) :
    ℕ → List ItemId → SyncClient → σ → Option (Outcome SyncClient σ (List ItemId))
  | 0, _, _, _ => none
  | fuel + 1, touched, client, server =>
    match api.pull server client.state.pulled batch with
    | (server, .error e) => some ⟨client, server, .error e⟩
    | (server, .ok page) =>
      if page.events = [] then some ⟨client, server, .ok touched⟩
      else
        pull api batch fuel (touched ++ page.events.map EventDescriptor.entityId)
          { log := client.log.append (page.events.map AppendEvent.ofDescriptor)
            state := { client.state with pulled := page.nextOffset } } server

/-- `sync`: push local changes, then pull remote ones. -/
def sync (api : ServerApi σ) (batch fuel : ℕ) (client : SyncClient) (server : σ) :
    Option (Outcome SyncClient σ (List ItemId)) :=
  (push api batch fuel client server).bind fun pushed =>
    match pushed.result with
    | .error e => some ⟨pushed.device, pushed.server, .error e⟩
    | .ok () => pull api batch fuel [] pushed.device pushed.server

/-- The own events that the server has not acknowledged. -/
def unsynced (client : SyncClient) : List ItemDescriptor :=
  client.log.unsynced client.state.replicaId

end SyncClient

/-- A device: what a round works on, and the item storage over the same log. -/
structure SyncStores extends SyncClient where
  storage : ItemStorage

/-- The batch size of `sync_once`. -/
def syncBatch : ℕ := 500

/-- `sync_once`: a round, and a rebuild of the items it touched. -/
def SyncStores.syncOnce {σ : Type} (api : ServerApi σ) (fuel : ℕ) (stores : SyncStores)
    (server : σ) : Option (Outcome SyncStores σ Bool) :=
  (stores.toSyncClient.sync api syncBatch fuel server).map fun round =>
    match round.result with
    | .error e => ⟨{ stores with toSyncClient := round.device }, round.server, .error e⟩
    | .ok touched =>
      let storage := touched.foldl
        (fun storage id => storage.buildProjection round.device.log id) stores.storage
      ⟨⟨round.device, storage⟩, round.server, .ok (!touched.isEmpty)⟩

/-- A device as its app sees it. -/
structure SyncApp extends SyncStores where
  online : Bool
  /-- How often the registered listener has been called. -/
  listener : Option ℕ

/-- `sync_now`: a manual round; the listener is called when it changed something. -/
def SyncApp.syncNow {σ : Type} (api : ServerApi σ) (fuel : ℕ) (app : SyncApp) (server : σ) :
    Option (Outcome SyncApp σ Unit) :=
  if app.online = false then
    some ⟨app, server, .error (.transport "offline (simulated)")⟩
  else
    (app.toSyncStores.syncOnce api fuel server).map fun round =>
      let app' := { app with toSyncStores := round.device }
      match round.result with
      | .error e => ⟨app', round.server, .error e⟩
      | .ok changed =>
        ⟨if changed then { app' with listener := app.listener.map (· + 1) } else app',
          round.server, .ok ()⟩

/-! ### The server behind HTTP -/

/-- What becomes of a request. -/
inductive Fate
  | answered
  /-- It does not reach the server. -/
  | lost (message : String)
  /-- The server handles it, and the device does not get the answer. -/
  | answerLost (message : String)
deriving DecidableEq, Repr

/-- What a round meets on its way, request by request. -/
structure Weather where
  /-- What others push since the request before was handled. -/
  others : ℕ → List ItemAppend
  /-- The server's clock from then on. -/
  now : ℕ → ℕ → ℤ
  fate : ℕ → Fate

/-- The server, and the requests a device has made of it. -/
structure Link where
  log : ServerEventLog
  posts : ℕ := 0
  gets : ℕ := 0

namespace Link

/-- The number of the next request. -/
def requests (link : Link) : ℕ :=
  link.posts + link.gets

/-- The log when the next request is handled. -/
def arrive (w : Weather) (link : Link) : ServerEventLog :=
  (link.log.append (w.now link.requests) (w.others link.requests)).1

/-- `append_events`, on the log. -/
def handlePost (w : Weather) (link : Link) (events : List ItemAppend) :
    ServerEventLog × List ItemDescriptor :=
  (link.arrive w).append
    (fun i => w.now link.requests ((w.others link.requests).length + i)) events

end Link

/-- `HttpServerApi`, over `append_events` and `get_events` of the server. -/
def httpServerApi (w : Weather) : ServerApi Link where
  push link events :=
    if events = [] then (link, .ok [])
    else
      let handled := link.handlePost w events
      match w.fate link.requests with
      | .answered => ({ link with log := handled.1, posts := link.posts + 1 }, .ok handled.2)
      | .lost message =>
        ({ link with log := link.arrive w, posts := link.posts + 1 },
          .error (.transport message))
      | .answerLost message =>
        ({ link with log := handled.1, posts := link.posts + 1 }, .error (.transport message))
  pull link offset limit :=
    let link' := { link with log := link.arrive w, gets := link.gets + 1 }
    match w.fate link.requests with
    | .answered => (link', .ok ((link.arrive w).eventsAfter offset limit))
    | .lost message | .answerLost message => (link', .error (.transport message))

/-! ### One pass of a loop -/

/-- The server after a push request that it handled. -/
def Link.posted (w : Weather) (link : Link) (events : List ItemAppend) : Link :=
  { link with log := (link.handlePost w events).1, posts := link.posts + 1 }

/-- The server after a pull request. -/
def Link.got (w : Weather) (link : Link) : Link :=
  { link with log := link.arrive w, gets := link.gets + 1 }

theorem Link.grows_arrive (w : Weather) (link : Link) : link.log.Grows (link.arrive w) :=
  ServerEventLog.grows_append _ _ _

theorem Link.grows_posted (w : Weather) (link : Link) (events : List ItemAppend) :
    link.log.Grows (link.posted w events).log :=
  (link.grows_arrive w).trans (ServerEventLog.grows_append _ _ _)

namespace SyncClient

variable {w : Weather} {batch fuel : ℕ} {client : SyncClient} {link : Link}
  {touched : List ItemId}

/-- What the next pass of `push` sends. -/
def toPush (client : SyncClient) (batch : ℕ) : List ItemAppend :=
  (client.unsynced.take batch).map AppendEvent.ofDescriptor

/-- The device after an acknowledgement. -/
def acknowledged (client : SyncClient) (acks : List ItemDescriptor) : SyncClient :=
  { client with log := client.log.markSynced acks }

/-- The device after a page. -/
def received (client : SyncClient) (page : EventsPage ItemEvent ItemId) : SyncClient where
  log := client.log.append (page.events.map AppendEvent.ofDescriptor)
  state := { client.state with pulled := page.nextOffset }

/-- The page that the next pass of `pull` is answered with. -/
def page (w : Weather) (batch : ℕ) (client : SyncClient) (link : Link) :
    EventsPage ItemEvent ItemId :=
  (link.arrive w).eventsAfter client.state.pulled batch

theorem take_unsynced_ne_nil (hbatch : 0 < batch) (h : client.unsynced ≠ []) :
    client.unsynced.take batch ≠ [] := by
  rw [Ne, List.take_eq_nil_iff]
  rintro (hzero | hnil)
  · exact hbatch.ne' hzero
  · exact h hnil

theorem push_of_nil {σ : Type} {api : ServerApi σ} {server : σ} (h : client.unsynced = []) :
    push api batch (fuel + 1) client server = some ⟨client, server, .ok ()⟩ := by
  have hnil : client.unsynced.take batch = [] := by rw [h, List.take_nil]
  rw [push]
  exact if_pos hnil

theorem push_succ {σ : Type} {api : ServerApi σ} {server : σ}
    (h : client.unsynced.take batch ≠ []) :
    push api batch (fuel + 1) client server =
      match api.push server (client.toPush batch) with
      | (server, .error e) => some ⟨client, server, .error e⟩
      | (server, .ok acks) => push api batch fuel (client.acknowledged acks) server := by
  rw [push]
  exact if_neg h

theorem push_of_answered (hbatch : 0 < batch) (h : client.unsynced ≠ [])
    (hfate : w.fate link.requests = .answered) :
    push (httpServerApi w) batch (fuel + 1) client link =
      push (httpServerApi w) batch fuel
        (client.acknowledged (link.handlePost w (client.toPush batch)).2)
        (link.posted w (client.toPush batch)) := by
  have hne := take_unsynced_ne_nil hbatch h
  have hevents : client.toPush batch ≠ [] := fun hnil => hne (List.map_eq_nil_iff.mp hnil)
  have happly : (httpServerApi w).push link (client.toPush batch)
      = (link.posted w (client.toPush batch),
          .ok (link.handlePost w (client.toPush batch)).2) := by
    simp only [httpServerApi, if_neg hevents, hfate]
    rfl
  rw [push_succ hne, happly]

/-- A push request without an answer ends the round, with nothing marked. The server may have
handled it all the same. -/
theorem push_of_failed (fuel : ℕ) (hbatch : 0 < batch) (h : client.unsynced ≠ [])
    (hfate : w.fate link.requests ≠ .answered) :
    ∃ log e, push (httpServerApi w) batch (fuel + 1) client link
        = some ⟨client, { link with log := log, posts := link.posts + 1 }, .error e⟩ ∧
      (log = link.arrive w ∨ log = (link.handlePost w (client.toPush batch)).1) := by
  have hne := take_unsynced_ne_nil hbatch h
  have hevents : client.toPush batch ≠ [] := fun hnil => hne (List.map_eq_nil_iff.mp hnil)
  have happly : ∃ log e, (httpServerApi w).push link (client.toPush batch)
        = ({ link with log := log, posts := link.posts + 1 }, .error e) ∧
      (log = link.arrive w ∨ log = (link.handlePost w (client.toPush batch)).1) := by
    cases hf : w.fate link.requests with
    | answered => exact absurd hf hfate
    | lost message =>
      refine ⟨_, .transport message, ?_, .inl rfl⟩
      simp only [httpServerApi, if_neg hevents, hf]
    | answerLost message =>
      refine ⟨_, .transport message, ?_, .inr rfl⟩
      simp only [httpServerApi, if_neg hevents, hf]
  obtain ⟨log, e, happly, hlog⟩ := happly
  exact ⟨log, e, by rw [push_succ hne, happly], hlog⟩

theorem pull_of_failed (batch fuel : ℕ) (touched : List ItemId) (client : SyncClient)
    (hfate : w.fate link.requests ≠ .answered) :
    ∃ e, pull (httpServerApi w) batch (fuel + 1) touched client link
      = some ⟨client, link.got w, .error e⟩ := by
  cases hf : w.fate link.requests with
  | answered => exact absurd hf hfate
  | lost message | answerLost message =>
    refine ⟨.transport message, ?_⟩
    simp only [pull, httpServerApi, hf]
    rfl

theorem pull_of_nil (hfate : w.fate link.requests = .answered)
    (hpage : (client.page w batch link).events = []) :
    pull (httpServerApi w) batch (fuel + 1) touched client link
      = some ⟨client, link.got w, .ok touched⟩ := by
  simp only [pull, httpServerApi, hfate]
  exact if_pos hpage

theorem pull_of_page (hfate : w.fate link.requests = .answered)
    (hpage : (client.page w batch link).events ≠ []) :
    pull (httpServerApi w) batch (fuel + 1) touched client link =
      pull (httpServerApi w) batch fuel
        (touched ++ (client.page w batch link).events.map EventDescriptor.entityId)
        (client.received (client.page w batch link)) (link.got w) := by
  simp only [pull, httpServerApi, hfate]
  exact if_neg hpage

/-! ### The passes of a loop -/

/-- The loop of `push` against the server, pass by pass. -/
inductive Pushes (w : Weather) (batch : ℕ) :
    SyncClient → Link → Outcome SyncClient Link Unit → Prop
  | done {client : SyncClient} {link : Link} (synced : client.unsynced = []) :
      Pushes w batch client link ⟨client, link, .ok ()⟩
  | failed {client : SyncClient} {link : Link} {log : ServerEventLog} {e : SyncError}
      (unsynced : client.unsynced ≠ []) (fate : w.fate link.requests ≠ .answered)
      (handled : log = link.arrive w ∨ log = (link.handlePost w (client.toPush batch)).1) :
      Pushes w batch client link
        ⟨client, { link with log := log, posts := link.posts + 1 }, .error e⟩
  | answered {client : SyncClient} {link : Link} {o : Outcome SyncClient Link Unit}
      (unsynced : client.unsynced ≠ []) (fate : w.fate link.requests = .answered)
      (rest : Pushes w batch (client.acknowledged (link.handlePost w (client.toPush batch)).2)
        (link.posted w (client.toPush batch)) o) :
      Pushes w batch client link o

/-- The loop of `pull` against the server, pass by pass. -/
inductive Pulls (w : Weather) (batch : ℕ) :
    List ItemId → SyncClient → Link → Outcome SyncClient Link (List ItemId) → Prop
  | done {touched : List ItemId} {client : SyncClient} {link : Link}
      (fate : w.fate link.requests = .answered)
      (empty : (client.page w batch link).events = []) :
      Pulls w batch touched client link ⟨client, link.got w, .ok touched⟩
  | failed {touched : List ItemId} {client : SyncClient} {link : Link} {e : SyncError}
      (fate : w.fate link.requests ≠ .answered) :
      Pulls w batch touched client link ⟨client, link.got w, .error e⟩
  | page {touched : List ItemId} {client : SyncClient} {link : Link}
      {o : Outcome SyncClient Link (List ItemId)} (fate : w.fate link.requests = .answered)
      (events : (client.page w batch link).events ≠ [])
      (rest : Pulls w batch
        (touched ++ (client.page w batch link).events.map EventDescriptor.entityId)
        (client.received (client.page w batch link)) (link.got w) o) :
      Pulls w batch touched client link o

variable {base : ℕ} {o : Outcome SyncClient Link Unit}
  {o' : Outcome SyncClient Link (List ItemId)}

theorem pushes_of_push (hbatch : 0 < batch)
    (h : push (httpServerApi w) batch fuel client link = some o) :
    Pushes w batch client link o := by
  induction fuel generalizing client link with
  | zero => cases h
  | succ fuel ih =>
    by_cases hnil : client.unsynced = []
    · rw [push_of_nil hnil] at h
      obtain rfl := Option.some.inj h
      exact .done hnil
    · by_cases hfate : w.fate link.requests = .answered
      · rw [push_of_answered hbatch hnil hfate] at h
        exact .answered hnil hfate (ih h)
      · obtain ⟨log, e, hfailed, hhandled⟩ := push_of_failed fuel hbatch hnil hfate
        rw [hfailed] at h
        obtain rfl := Option.some.inj h
        exact .failed hnil hfate hhandled

theorem pulls_of_pull (h : pull (httpServerApi w) batch fuel touched client link = some o') :
    Pulls w batch touched client link o' := by
  induction fuel generalizing touched client link with
  | zero => cases h
  | succ fuel ih =>
    by_cases hfate : w.fate link.requests = .answered
    · by_cases hpage : (client.page w batch link).events = []
      · rw [pull_of_nil hfate hpage] at h
        obtain rfl := Option.some.inj h
        exact .done hfate hpage
      · rw [pull_of_page hfate hpage] at h
        exact .page hfate hpage (ih h)
    · obtain ⟨e, hfailed⟩ := pull_of_failed batch fuel touched client hfate
      rw [hfailed] at h
      obtain rfl := Option.some.inj h
      exact .failed hfate

/-! ### What the loops do -/

/-- What the loop of `push` leaves, however it ends. -/
structure PushSpec (w : Weather) (batch : ℕ) (client : SyncClient) (link : Link)
    (o : Outcome SyncClient Link Unit) : Prop where
  state : o.device.state = client.state
  unstamped : o.device.log.entries.map EventDescriptor.unstamped
    = client.log.entries.map EventDescriptor.unstamped
  gets : o.server.gets = link.gets
  grows : link.log.Grows o.server.log
  ok : o.result = .ok () → o.device.unsynced = [] ∧
    o.server.posts = link.posts + client.unsynced.length ⌈/⌉ batch ∧
    ∀ k < client.unsynced.length ⌈/⌉ batch, w.fate (link.requests + k) = .answered
  error : ∀ e, o.result = .error e →
    ∃ k < client.unsynced.length ⌈/⌉ batch, w.fate (link.requests + k) ≠ .answered

/-- The number of requests of a loop, after one of them. -/
theorem ceilDiv_eq_succ {n b : ℕ} (hb : 0 < b) (hn : 0 < n) :
    n ⌈/⌉ b = (n - b) ⌈/⌉ b + 1 := by
  rw [Nat.ceilDiv_eq_add_pred_div, Nat.ceilDiv_eq_add_pred_div]
  rcases Nat.le_total n b with hle | hle
  · have hlhs : (n + b - 1) / b = 1 := Nat.div_eq_of_lt_le (by omega) (by omega)
    have hrhs : (n - b + b - 1) / b = 0 := Nat.div_eq_of_lt (by omega)
    rw [hlhs, hrhs]
  · have hsplit : n + b - 1 = n - b + b - 1 + b := by omega
    rw [hsplit, Nat.add_div_right _ hb]

/-- An answer to a push acknowledges what was pushed. -/
theorem acknowledged_spec (w : Weather) (batch : ℕ) (hnd : client.log.ids.Nodup)
    (hlog : link.log.NumberedFrom base) :
    let acks := (link.handlePost w (client.toPush batch)).2
    (client.acknowledged acks).log.ids = client.log.ids ∧
      (client.acknowledged acks).log.entries.map EventDescriptor.unstamped
        = client.log.entries.map EventDescriptor.unstamped ∧
      (client.acknowledged acks).unsynced = client.unsynced.drop batch := by
  intro acks
  refine ⟨DeviceEventLog.ids_markSynced hnd acks,
    DeviceEventLog.map_unstamped_markSynced hnd acks,
    DeviceEventLog.unsynced_markSynced hnd ?_ fun ack hack => ?_⟩
  · have hids : eventIds acks = (client.toPush batch).map AppendEvent.replicaEventId :=
      ServerEventLog.eventIds_append_snd _ _ _
    rw [hids, toPush, List.map_map]
    rfl
  · have hlog' : (link.posted w (client.toPush batch)).log.NumberedFrom base :=
      hlog.of_grows (link.grows_posted w _)
    exact hlog'.serverOffset_ne_none
      (ServerEventLog.mem_entries_of_mem_append_snd _ _ _ ack hack)

theorem push_spec (hbatch : 0 < batch) (hnd : client.log.ids.Nodup)
    (hlog : link.log.NumberedFrom base)
    (h : push (httpServerApi w) batch fuel client link = some o) :
    PushSpec w batch client link o := by
  replace h := pushes_of_push hbatch h
  induction h with
  | done hnil =>
    refine ⟨rfl, rfl, rfl, .refl, fun _ => ⟨hnil, ?_, ?_⟩, fun e he => ?_⟩
    · simp [hnil]
    · simp [hnil]
    · cases he
  | @failed client link log e hne hfate hhandled =>
    have hgrows : link.log.Grows log := by
      rcases hhandled with rfl | rfl
      · exact link.grows_arrive w
      · exact link.grows_posted w (client.toPush batch)
    have hcount := ceilDiv_eq_succ hbatch (List.length_pos_iff.mpr hne)
    refine ⟨rfl, rfl, rfl, hgrows, fun hok => ?_, fun _ _ => ⟨0, ?_, hfate⟩⟩
    · cases hok
    · omega
  | @answered client link o hne hfate _ ih =>
    have hcount := ceilDiv_eq_succ hbatch (List.length_pos_iff.mpr hne)
    obtain ⟨hids, hunstamped, hunsynced⟩ := acknowledged_spec w batch hnd hlog
    have hgrows := link.grows_posted w (client.toPush batch)
    have hspec := ih (hids ▸ hnd) (hlog.of_grows hgrows)
    have hrequests : (link.posted w (client.toPush batch)).requests = link.requests + 1 :=
      Nat.add_right_comm _ _ _
    have hok := hspec.ok
    have herror := hspec.error
    rw [hunsynced, List.length_drop, hrequests] at hok herror
    refine ⟨hspec.state, hspec.unstamped.trans hunstamped, hspec.gets,
      hgrows.trans hspec.grows, fun hres => ?_, fun e he => ?_⟩
    · obtain ⟨hdone, hposts, hfates⟩ := hok hres
      refine ⟨hdone, ?_, fun k hk => ?_⟩
      · rw [hposts, hcount]
        change link.posts + 1 + _ = _
        omega
      · rcases k with _ | k
        · exact hfate
        · have hk' := hfates k (by omega)
          rwa [Nat.add_assoc, Nat.add_comm 1 k] at hk'
    · obtain ⟨k, hk, hfail⟩ := herror e he
      refine ⟨k + 1, by omega, ?_⟩
      rwa [Nat.add_assoc, Nat.add_comm 1 k] at hfail

/-- What the loop of `pull` leaves, however it ends. -/
structure PullSpec (w : Weather) (touched : List ItemId) (client : SyncClient) (link : Link)
    (o : Outcome SyncClient Link (List ItemId)) : Prop where
  replicaId : o.device.state.replicaId = client.state.replicaId
  posts : o.server.posts = link.posts
  grows : link.log.Grows o.server.log
  ok : ∀ ids, o.result = .ok ids →
    let stream := o.server.log.after client.state.pulled
    ids = touched ++ stream.map EventDescriptor.entityId ∧
      o.device.log = client.log.append (stream.map AppendEvent.ofDescriptor) ∧
      o.device.state.pulled
        = if stream = [] then client.state.pulled else o.server.log.lastOffset
  error : ∀ e, o.result = .error e →
    (o.device = client ∧ w.fate link.requests ≠ .answered) ∨
      (w.fate link.requests = .answered ∧ (∃ k, w.fate k ≠ .answered) ∧
        ServerEventLog.cursorVal client.state.pulled
          < ServerEventLog.cursorVal o.device.state.pulled)

theorem pull_spec (hbatch : 0 < batch) (hlog : link.log.NumberedFrom base)
    (h : pull (httpServerApi w) batch fuel touched client link = some o') :
    PullSpec w touched client link o' := by
  replace h := pulls_of_pull h
  induction h with
  | @done touched client link hfate hpage =>
    have harrive := hlog.of_grows (link.grows_arrive w)
    have hnil : (link.arrive w).after client.state.pulled = [] := by
      rw [page, harrive.eventsAfter_eq_take, List.take_eq_nil_iff] at hpage
      exact hpage.resolve_left hbatch.ne'
    refine ⟨rfl, rfl, link.grows_arrive w, fun ids hids => ?_, fun e he => ?_⟩
    · have hids := Except.ok.inj hids
      change _ = touched ++ ((link.arrive w).after client.state.pulled).map _ ∧
        client.log = client.log.append
          (((link.arrive w).after client.state.pulled).map _) ∧
        client.state.pulled
          = if (link.arrive w).after client.state.pulled = [] then _ else _
      rw [hnil, if_pos rfl]
      exact ⟨hids.symm.trans (List.append_nil _).symm, rfl, rfl⟩
    · cases he
  | @failed touched client link e hfate =>
    refine ⟨rfl, rfl, link.grows_arrive w, fun ids hids => ?_, fun _ _ => .inl ⟨rfl, hfate⟩⟩
    cases hids
  | @page touched client link o hfate hpage _ ih =>
    have hgrows := link.grows_arrive w
    have harrive := hlog.of_grows hgrows
    have hspec := ih harrive
    have hstream := harrive.after_eq_append (harrive.of_grows hspec.grows)
      hspec.grows.isPrefix hpage
    refine ⟨hspec.replicaId, hspec.posts, hgrows.trans hspec.grows, fun ids hids => ?_,
      fun e he => ?_⟩
    · obtain ⟨hids, hdevice, hpulled⟩ := hspec.ok ids hids
      have hne : o.server.log.after client.state.pulled ≠ [] := by
        rw [hstream]
        exact fun hnil => hpage (List.append_eq_nil_iff.mp hnil).1
      refine ⟨?_, ?_, ?_⟩
      · rw [hids, hstream, List.map_append, List.append_assoc]
        rfl
      · rw [hdevice, hstream, List.map_append, DeviceEventLog.append_append]
        rfl
      · rw [hpulled, if_neg hne]
        split_ifs with hnil
        · -- the page was the last one
          rw [(harrive.of_grows hspec.grows).lastOffset_eq hne, hstream]
          change o.server.log.after (client.page w batch link).nextOffset = [] at hnil
          change _ = List.getLast? ((client.page w batch link).events
            ++ o.server.log.after (client.page w batch link).nextOffset) >>= _
          rw [hnil, List.append_nil]
          rfl
        · rfl
    · have hlt := ServerEventLog.cursorVal_lt_nextOffset hpage
      rcases hspec.error e he with ⟨hdevice, hfail⟩ | ⟨-, hfail, hlt'⟩
      · refine .inr ⟨hfate, ⟨_, hfail⟩, ?_⟩
        rw [hdevice]
        exact hlt
      · exact .inr ⟨hfate, hfail, hlt.trans hlt'⟩

/-! ### The round -/

/-- A round fails in `push`, or it goes on to `pull`. -/
theorem sync_cases {σ : Type} {api : ServerApi σ} {server : σ}
    {o : Outcome SyncClient σ (List ItemId)} (h : sync api batch fuel client server = some o) :
    ∃ pushed, push api batch fuel client server = some pushed ∧
      ((∃ e, pushed.result = .error e ∧ o = ⟨pushed.device, pushed.server, .error e⟩) ∨
        (pushed.result = .ok () ∧
          pull api batch fuel [] pushed.device pushed.server = some o)) := by
  obtain ⟨pushed, hpush, hpull⟩ := Option.bind_eq_some_iff.mp h
  refine ⟨pushed, hpush, ?_⟩
  split at hpull
  next e he => exact .inl ⟨e, he, (Option.some.inj hpull).symm⟩
  next hok => exact .inr ⟨hok, hpull⟩

/-- After `push` the device holds the ids it held. -/
theorem PushSpec.ids (h : PushSpec w batch client link o) :
    o.device.log.ids = client.log.ids := by
  rw [DeviceEventLog.ids, ← eventIds_map_unstamped, h.unstamped, eventIds_map_unstamped,
    DeviceEventLog.ids]

/-- A pull leaves unsynced what was. -/
theorem PullSpec.unsynced (h : PullSpec w touched client link o')
    (hlog : link.log.NumberedFrom base) {ids : List ItemId} (hok : o'.result = .ok ids) :
    o'.device.unsynced = client.unsynced := by
  obtain ⟨-, hdevice, -⟩ := h.ok ids hok
  rw [SyncClient.unsynced, hdevice, h.replicaId, DeviceEventLog.unsynced_append]
  · rfl
  · intro ev hev
    obtain ⟨d, hd, rfl⟩ := List.mem_map.mp hev
    exact (hlog.of_grows h.grows).serverOffset_ne_none (List.mem_of_mem_filter hd)

end SyncClient

end OfflineSync
