import OfflineSync.SyncTermination

/-!
# Trying again

`sync.rs` says that a connection dropped in the middle of a sync just means retry. Between a device
and a server that nobody else pushes to, this holds of any number of failures at any requests, with
lost requests and lost answers alike: once a round goes through, the logs of both sides and the
cursor are what they would be if nothing had failed (`retries_leave_no_trace`).

The proof keeps one thing in view, the `outlook` of a device on a server: the logs and the cursor
that a round would leave if it went through. No pass of either loop changes it, whether its request
is answered or not, and after a round that went through it is what is there.

The rows of the device are left out: they are rebuilt by `sync_once`, and a round that fails after a
page never rebuilds the items of that page.
-/

namespace OfflineSync

namespace DeviceEventLog

/-- The server's stamps do not decide what `append` skips. -/
private theorem append_unstamped {log log' : DeviceEventLog} {events events' : List ItemDescriptor}
    (h : log.entries.map EventDescriptor.unstamped = log'.entries.map EventDescriptor.unstamped)
    (hevents : events.map EventDescriptor.unstamped = events'.map EventDescriptor.unstamped) :
    (log.append (events.map AppendEvent.ofDescriptor)).entries.map EventDescriptor.unstamped
      = (log'.append (events'.map AppendEvent.ofDescriptor)).entries.map
          EventDescriptor.unstamped := by
  induction events generalizing log log' events' with
  | nil =>
    obtain rfl := List.map_eq_nil_iff.mp hevents.symm
    exact h
  | cons e events ih =>
    obtain ⟨e', events', rfl, he, hevents⟩ := List.map_eq_cons_iff.mp hevents.symm
    have hids : log.ids = log'.ids := by
      rw [ids, ids, ← eventIds_map_unstamped, h, eventIds_map_unstamped]
    have hid : e'.replicaEventId = e.replicaEventId := by
      rw [← e'.unstamped_replicaEventId, he, e.unstamped_replicaEventId]
    simp only [List.map_cons, append, isSome_find, AppendEvent.ofDescriptor_replicaEventId, hids,
      hid]
    split_ifs
    · exact ih h hevents.symm
    · refine ih ?_ hevents.symm
      simp only [push, List.map_append, List.map_cons, List.map_nil, replicated_ofDescriptor, h, he]

end DeviceEventLog

namespace ServerEventLog

variable {log log' : ServerEventLog}

private theorem lastOffset_untimed (log : ServerEventLog) :
    log.untimed.lastOffset = log.lastOffset := by
  rw [lastOffset, lastOffset, untimed, List.getLast?_map]
  cases log.entries.getLast? <;> rfl

/-- Events pushed a second time, with more behind them, leave what pushing them all leaves. -/
private theorem untimed_append_append (log : ServerEventLog) (now now' now'' : ℕ → ℤ)
    (xs ys : List ItemAppend) :
    ((log.append now xs).1.append now' ys).1.untimed = (log.append now'' (xs ++ ys)).1.untimed ∧
      ((log.append now xs).1.append now' (xs ++ ys)).1.untimed
        = (log.append now'' (xs ++ ys)).1.untimed := by
  have hfirst : ((log.append now xs).1.append now' ys).1.untimed
      = (log.append now'' (xs ++ ys)).1.untimed := by
    rw [append_append]
    exact (append_untimed (append_untimed rfl _ _ _).1 _ _ _).1
  refine ⟨hfirst, ?_⟩
  rw [append_append, append_again now now' List.prefix_rfl]
  refine Eq.trans ?_ hfirst
  exact (append_untimed rfl _ _ _).1

end ServerEventLog

/-! ### The outlook -/

/-- What a round would leave: the log of the server but for its clock, the events of the device but
for the server's stamps, and the sync state. -/
structure Outlook where
  server : ServerEventLog
  events : List ItemDescriptor
  state : SyncState

namespace SyncClient

variable {w : Weather} {batch fuel base : ℕ} {client client' : SyncClient} {link link' : Link}
  {touched : List ItemId} {o : Outcome SyncClient Link Unit}
  {o' : Outcome SyncClient Link (List ItemId)}

/-- The log of the server once everything unsynced is pushed. -/
def pushedLog (client : SyncClient) (link : Link) : ServerEventLog :=
  (link.log.append (fun _ => 0) (client.unsynced.map AppendEvent.ofDescriptor)).1

/-- What a round leaves when all its requests are answered and nobody else pushes. -/
def outlook (client : SyncClient) (link : Link) : Outlook :=
  let stream := (client.pushedLog link).after client.state.pulled
  { server := (client.pushedLog link).untimed
    events := (client.log.append (stream.map AppendEvent.ofDescriptor)).entries.map
      EventDescriptor.unstamped
    state := { client.state with
      pulled := if stream = [] then client.state.pulled else (client.pushedLog link).lastOffset } }

/-- The outlook does not depend on clocks and stamps. -/
private theorem outlook_congr
    (hlog : (client.pushedLog link).untimed = (client'.pushedLog link').untimed)
    (hentries : client.log.entries.map EventDescriptor.unstamped
      = client'.log.entries.map EventDescriptor.unstamped)
    (hstate : client.state = client'.state) : client.outlook link = client'.outlook link' := by
  have hstream : ((client.pushedLog link).after client.state.pulled).map EventDescriptor.untimed
      = ((client'.pushedLog link').after client'.state.pulled).map EventDescriptor.untimed := by
    rw [← ServerEventLog.after_untimed, hlog, hstate, ServerEventLog.after_untimed]
  have hnil : (client.pushedLog link).after client.state.pulled = [] ↔
      (client'.pushedLog link').after client'.state.pulled = [] := by
    rw [← List.map_eq_nil_iff (f := EventDescriptor.untimed), hstream, List.map_eq_nil_iff]
  have hlast : (client.pushedLog link).lastOffset = (client'.pushedLog link').lastOffset := by
    rw [← ServerEventLog.lastOffset_untimed, hlog, ServerEventLog.lastOffset_untimed]
  have hcomp : EventDescriptor.unstamped ∘ EventDescriptor.untimed
      = (EventDescriptor.unstamped : ItemDescriptor → ItemDescriptor) := rfl
  have hstream' : ((client.pushedLog link).after client.state.pulled).map
      EventDescriptor.unstamped
      = ((client'.pushedLog link').after client'.state.pulled).map EventDescriptor.unstamped := by
    rw [← hcomp, ← List.map_map, hstream, List.map_map]
  have hevents := DeviceEventLog.append_unstamped hentries hstream'
  rw [outlook, outlook, Outlook.mk.injEq]
  refine ⟨hlog, hevents, ?_⟩
  rw [← hstate] at hnil ⊢
  rw [hlast, if_congr hnil rfl rfl]

/-! ### What the loops leave of it -/

/-- The server log that everything unsynced is pushed to, after a part of it has been. -/
private theorem untimed_append_toPush (link : Link) (client : SyncClient) (now : ℕ → ℤ) :
    ((link.log.append now (client.toPush batch)).1.append (fun _ => 0)
        ((client.unsynced.drop batch).map AppendEvent.ofDescriptor)).1.untimed
      = (client.pushedLog link).untimed ∧
    ((link.log.append now (client.toPush batch)).1.append (fun _ => 0)
        (client.unsynced.map AppendEvent.ofDescriptor)).1.untimed
      = (client.pushedLog link).untimed := by
  have hsplit : client.unsynced.map AppendEvent.ofDescriptor
      = client.toPush batch ++ (client.unsynced.drop batch).map AppendEvent.ofDescriptor := by
    rw [toPush, ← List.map_append, List.take_append_drop]
  rw [pushedLog, hsplit]
  exact ServerEventLog.untimed_append_append _ _ _ _ _ _

/-- **The loop of `push` leaves the outlook as it was**, however it ends. -/
theorem Pushes.outlook_eq (hnd : client.log.ids.Nodup)
    (hlog : link.log.NumberedFrom base) (hquiet : ∀ k, w.others k = [])
    (h : Pushes w batch client link o) : o.device.outlook o.server = client.outlook link := by
  induction h with
  | done => rfl
  | @failed client link log e _ _ hhandled =>
    refine outlook_congr ?_ rfl rfl
    have harrive := link.arrive_of_quiet (hquiet link.requests)
    rcases hhandled with rfl | rfl
    · rw [pushedLog, pushedLog, harrive]
    · -- the server has handled what the device did not learn of
      simp only [pushedLog, Link.handlePost, harrive]
      exact (untimed_append_toPush link client _).2
  | @answered client link o _ _ _ ih =>
    obtain ⟨hids, hunstamped, hunsynced⟩ := acknowledged_spec w batch hnd hlog
    rw [ih (hids ▸ hnd) (hlog.of_grows (link.grows_posted w _))]
    refine outlook_congr ?_ hunstamped rfl
    rw [pushedLog, hunsynced]
    simp only [Link.posted, Link.handlePost, link.arrive_of_quiet (hquiet link.requests)]
    exact (untimed_append_toPush link client _).1

/-- With nothing unsynced the server log is not to change. -/
private theorem pushedLog_of_nil (h : client.unsynced = []) : client.pushedLog link = link.log := by
  rw [pushedLog, h]
  rfl

/-- A page and the stream after it are the stream before it. -/
private theorem outlook_received (hlog : link.log.NumberedFrom base) (hquiet : ∀ k, w.others k = [])
    (hsynced : client.unsynced = []) (hpage : (client.page w batch link).events ≠ []) :
    (client.received (client.page w batch link)).unsynced = [] ∧
      (client.received (client.page w batch link)).outlook (link.got w) = client.outlook link := by
  have harrive := link.arrive_of_quiet (hquiet link.requests)
  set page := client.page w batch link with hdef
  rw [SyncClient.page, harrive] at hdef
  have hsynced' : (client.received page).unsynced = [] := by
    rw [unsynced, received, DeviceEventLog.unsynced_append]
    · exact hsynced
    · intro ev hev
      obtain ⟨d, hd, rfl⟩ := List.mem_map.mp hev
      rw [hdef, hlog.eventsAfter_eq_take] at hd
      exact hlog.serverOffset_ne_none (List.mem_of_mem_filter (List.mem_of_mem_take hd))
  have hgot : (link.got w).log = link.log := harrive
  have hstream : link.log.after client.state.pulled
      = page.events ++ link.log.after page.nextOffset := by
    rw [hdef] at hpage ⊢
    exact hlog.after_eq_append hlog List.prefix_rfl hpage
  have hne : link.log.after client.state.pulled ≠ [] := by
    rw [hstream]
    exact fun hnil => hpage (List.append_eq_nil_iff.mp hnil).1
  refine ⟨hsynced', ?_⟩
  rw [outlook, outlook, pushedLog_of_nil hsynced', pushedLog_of_nil hsynced, hgot,
    Outlook.mk.injEq]
  refine ⟨rfl, ?_, ?_⟩
  · rw [hstream, List.map_append, DeviceEventLog.append_append]
    rfl
  · rw [if_neg hne]
    change SyncState.mk _ (if link.log.after page.nextOffset = [] then page.nextOffset else _) = _
    split_ifs with hnil
    · -- the page was the last one
      rw [hlog.lastOffset_eq hne, hstream, hnil, List.append_nil, hdef]
      rfl
    · rfl

/-- **The loop of `pull` leaves the outlook as it was**, however it ends. -/
theorem Pulls.outlook_eq (hlog : link.log.NumberedFrom base) (hquiet : ∀ k, w.others k = [])
    (hsynced : client.unsynced = []) (h : Pulls w batch touched client link o') :
    o'.device.outlook o'.server = client.outlook link := by
  have hgot : ∀ (client : SyncClient) (link : Link),
      client.outlook (link.got w) = client.outlook link := by
    intro client link
    refine outlook_congr ?_ rfl rfl
    rw [pushedLog, pushedLog]
    change (((link.arrive w).append _ _).1).untimed = _
    rw [link.arrive_of_quiet (hquiet link.requests)]
  induction h with
  | done | failed => exact hgot _ _
  | @page touched client link o _ hpage _ ih =>
    obtain ⟨hsynced', heq⟩ := outlook_received hlog hquiet hsynced hpage
    rw [ih (hlog.of_grows (link.grows_arrive w)) hsynced', heq]

/-- **A round leaves the outlook as it was**, however it ends. -/
theorem sync_outlook (hbatch : 0 < batch) (hnd : client.log.ids.Nodup)
    (hlog : link.log.NumberedFrom base) (hquiet : ∀ k, w.others k = [])
    (h : sync (httpServerApi w) batch fuel client link = some o') :
    o'.device.outlook o'.server = client.outlook link := by
  obtain ⟨pushed, hpush, hsync⟩ := sync_cases h
  have hpushed := (pushes_of_push hbatch hpush).outlook_eq hnd hlog hquiet
  rcases hsync with ⟨e, -, rfl⟩ | ⟨hok, hpull⟩
  · exact hpushed
  · have hspec := push_spec hbatch hnd hlog hpush
    rw [(pulls_of_pull hpull).outlook_eq (hlog.of_grows hspec.grows) hquiet (hspec.ok hok).1]
    exact hpushed

/-! ### Rounds again and again -/

/-- Rounds of a device, one after the other, of which the last one goes through. -/
inductive Retried (w : Weather) (batch : ℕ) :
    SyncClient → Link → Outcome SyncClient Link (List ItemId) → Prop
  | ok {fuel : ℕ} {client : SyncClient} {link : Link} {o : Outcome SyncClient Link (List ItemId)}
      {touched : List ItemId}
      (round : sync (httpServerApi w) batch fuel client link = some o)
      (result : o.result = .ok touched) : Retried w batch client link o
  | failed {fuel : ℕ} {client : SyncClient} {link : Link}
      {o o' : Outcome SyncClient Link (List ItemId)} {e : SyncError}
      (round : sync (httpServerApi w) batch fuel client link = some o)
      (result : o.result = .error e) (rest : Retried w batch o.device o.server o') :
      Retried w batch client link o'

private theorem Pushes.reachable (h : Pushes w batch client link o)
    (hclient : client.log.Reachable) : o.device.log.Reachable := by
  induction h with
  | done | failed => exact hclient
  | answered _ _ _ ih => exact ih (hclient.markSynced _)

private theorem Pulls.reachable (h : Pulls w batch touched client link o')
    (hclient : client.log.Reachable) : o'.device.log.Reachable := by
  induction h with
  | done | failed => exact hclient
  | page _ _ _ ih => exact ih (hclient.append _)

/-- When `pull` is through, nothing is left in the stream. -/
private theorem Pulls.after_eq_nil (hbatch : 0 < batch) (hlog : link.log.NumberedFrom base)
    (h : Pulls w batch touched client link o') {ids : List ItemId} (hok : o'.result = .ok ids) :
    o'.server.log.after o'.device.state.pulled = [] := by
  induction h with
  | @done touched client link _ hpage =>
    rw [SyncClient.page, (hlog.of_grows (link.grows_arrive w)).eventsAfter_eq_take,
      List.take_eq_nil_iff] at hpage
    exact hpage.resolve_left hbatch.ne'
  | failed => cases hok
  | @page touched client link o _ _ _ ih => exact ih (hlog.of_grows (link.grows_arrive w)) hok

/-- What a round leaves of the device's log and of the server's. -/
private theorem sync_frame (hbatch : 0 < batch) (hclient : client.log.Reachable)
    (hlog : link.log.NumberedFrom base)
    (h : sync (httpServerApi w) batch fuel client link = some o') :
    o'.device.log.Reachable ∧ o'.server.log.NumberedFrom base := by
  obtain ⟨pushed, hpush, hsync⟩ := sync_cases h
  have hreachable := (pushes_of_push hbatch hpush).reachable hclient
  have hlog' := hlog.of_grows (push_spec hbatch hclient.nodup hlog hpush).grows
  rcases hsync with ⟨e, -, rfl⟩ | ⟨-, hpull⟩
  · exact ⟨hreachable, hlog'⟩
  · exact ⟨(pulls_of_pull hpull).reachable hreachable,
      hlog'.of_grows (pull_spec hbatch hlog' hpull).grows⟩

/-- **After a round that went through, the outlook is what is there.** -/
theorem outlook_of_ok (hbatch : 0 < batch) (hclient : client.log.Reachable)
    (hlog : link.log.NumberedFrom base)
    (h : sync (httpServerApi w) batch fuel client link = some o') {ids : List ItemId}
    (hok : o'.result = .ok ids) :
    o'.device.unsynced = [] ∧ o'.device.outlook o'.server = ⟨o'.server.log.untimed,
      o'.device.log.entries.map EventDescriptor.unstamped, o'.device.state⟩ := by
  obtain ⟨pushed, hpush, ⟨e, -, rfl⟩ | ⟨hpushok, hpull⟩⟩ := sync_cases h
  · cases hok
  · have hspec := push_spec hbatch hclient.nodup hlog hpush
    have hlog' := hlog.of_grows hspec.grows
    have hsynced : o'.device.unsynced = [] :=
      ((pull_spec hbatch hlog' hpull).unsynced hlog' hok).trans (hspec.ok hpushok).1
    have hnil := (pulls_of_pull hpull).after_eq_nil hbatch hlog' hok
    refine ⟨hsynced, ?_⟩
    rw [outlook, pushedLog_of_nil hsynced, hnil]
    rfl

/-- Retries end in the outlook they began with. -/
private theorem Retried.outlook_eq (hbatch : 0 < batch) (hclient : client.log.Reachable)
    (hlog : link.log.NumberedFrom base) (hquiet : ∀ k, w.others k = [])
    (h : Retried w batch client link o') :
    o'.device.unsynced = [] ∧ client.outlook link = ⟨o'.server.log.untimed,
      o'.device.log.entries.map EventDescriptor.unstamped, o'.device.state⟩ := by
  induction h with
  | ok hround hres =>
    obtain ⟨hsynced, heq⟩ := outlook_of_ok hbatch hclient hlog hround hres
    exact ⟨hsynced, (sync_outlook hbatch hclient.nodup hlog hquiet hround).symm.trans heq⟩
  | failed hround _ _ ih =>
    obtain ⟨hclient', hlog'⟩ := sync_frame hbatch hclient hlog hround
    obtain ⟨hsynced, heq⟩ := ih hclient' hlog'
    exact ⟨hsynced, (sync_outlook hbatch hclient.nodup hlog hquiet hround).symm.trans heq⟩

end SyncClient

/-- **Failures leave no trace.** While nobody else pushes, let a device retry until a round goes
through, in any two weathers and with any two batch sizes. Either way it ends with nothing unsynced,
the same events in the same order on both sides, the same offsets at the server, and the cursor in
the same place. -/
theorem retries_leave_no_trace {w w' : Weather} {batch batch' : ℕ} {client : SyncClient}
    {link : Link} {o o' : Outcome SyncClient Link (List ItemId)} (hclient : client.log.Reachable)
    (hserver : ServerEventLog.new.Reachable link.log ∨ ServerEventLog.default.Reachable link.log)
    (hbatch : 0 < batch) (hbatch' : 0 < batch') (hquiet : ∀ k, w.others k = [])
    (hquiet' : ∀ k, w'.others k = []) (h : SyncClient.Retried w batch client link o)
    (h' : SyncClient.Retried w' batch' client link o') :
    (o.device.unsynced = [] ∧ o'.device.unsynced = []) ∧
      o.server.log.untimed = o'.server.log.untimed ∧
      o.device.log.entries.map EventDescriptor.unstamped
        = o'.device.log.entries.map EventDescriptor.unstamped ∧
      o.device.state = o'.device.state := by
  obtain ⟨base, hlog⟩ := ServerEventLog.exists_numberedFrom hserver
  obtain ⟨hsynced, heq⟩ := h.outlook_eq hbatch hclient hlog hquiet
  obtain ⟨hsynced', heq'⟩ := h'.outlook_eq hbatch' hclient hlog hquiet'
  obtain ⟨hlogs, hevents, hstate⟩ := Outlook.mk.inj (heq.symm.trans heq')
  exact ⟨⟨hsynced, hsynced'⟩, hlogs, hevents, hstate⟩

/-- The answer to the second push is lost, and so is the second pull. -/
def stormy : Weather where
  others _ := []
  now _ _ := 2000
  fate k := if k = 1 then .answerLost "timeout" else if k = 4 then .lost "no route" else .answered

/-- The round after `o`. -/
def nextRound (w : Weather) (batch : ℕ) (o : Outcome SyncClient Link (List ItemId)) :
    Outcome SyncClient Link (List ItemId) :=
  (o.device.sync (httpServerApi w) batch 10 o.server).getD o

private theorem sync_nextRound {w : Weather} {batch : ℕ} {o : Outcome SyncClient Link (List ItemId)}
    (h : (o.device.sync (httpServerApi w) batch 10 o.server).isSome) :
    o.device.sync (httpServerApi w) batch 10 o.server = some (nextRound w batch o) := by
  obtain ⟨o', ho'⟩ := Option.isSome_iff_exists.mp h
  rw [nextRound, ho', Option.getD_some]

/-- Before the first round. -/
def beforeSync : Outcome SyncClient Link (List ItemId) :=
  ⟨busyClient, otherLink, .ok []⟩

/-- Three rounds, of which the first two fail. -/
def stormyRounds : Outcome SyncClient Link (List ItemId) :=
  nextRound stormy 1 (nextRound stormy 1 (nextRound stormy 1 beforeSync))

theorem retries_leave_no_trace_stormy :
    stormyRounds.server.posts = 3 ∧ (nextRound calm 500 beforeSync).server.posts = 1 ∧
      stormyRounds.server.log.untimed = (nextRound calm 500 beforeSync).server.log.untimed := by
  have hstormy : SyncClient.Retried stormy 1 busyClient otherLink stormyRounds := by
    refine .failed (sync_nextRound (o := beforeSync) (by decide +kernel)) rfl ?_
    refine .failed (sync_nextRound (o := nextRound stormy 1 beforeSync) (by decide +kernel)) rfl ?_
    exact .ok (sync_nextRound (by decide +kernel)) rfl
  have hcalm : SyncClient.Retried calm 500 busyClient otherLink (nextRound calm 500 beforeSync) :=
    .ok (sync_nextRound (o := beforeSync) (by decide +kernel)) rfl
  obtain ⟨-, hlogs, -⟩ := retries_leave_no_trace (.appendLocal .new _)
    (.inl (.append .start _ _)) Nat.one_pos (by decide) (fun _ => rfl) (fun _ => rfl) hstormy hcalm
  exact ⟨by decide +kernel, by decide +kernel, hlogs⟩

end OfflineSync
