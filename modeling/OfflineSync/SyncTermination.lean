import OfflineSync.SyncEngine

/-!
# How long a round takes

Neither loop of a round has a bound of its own. `push` ends because every event it sends comes back
acknowledged, with an offset, so each request takes a batch off what is unsynced; `pull` ends
because each page that is not empty moves the cursor on, so once nobody else pushes each request
takes a batch off the stream. With no failures and finitely many events from elsewhere a round
therefore ends, and when nothing comes from elsewhere the number of its requests is known
beforehand (`sync_terminates`).
-/

namespace OfflineSync

theorem Link.arrive_of_quiet {w : Weather} (link : Link) (h : w.others link.requests = []) :
    link.arrive w = link.log := by
  rw [Link.arrive, h]
  rfl

private theorem Link.requests_got (w : Weather) (link : Link) :
    (link.got w).requests = link.requests + 1 := rfl

namespace SyncClient

variable {w : Weather} {batch fuel base : ℕ} {client : SyncClient} {link : Link}
  {touched : List ItemId} {o : Outcome SyncClient Link Unit}
  {o' : Outcome SyncClient Link (List ItemId)}

/-! ### Fuel -/

private theorem push_mono {σ : Type} {api : ServerApi σ} {server : σ}
    {o : Outcome SyncClient σ Unit}
    (h : push api batch fuel client server = some o) {fuel' : ℕ} (hle : fuel ≤ fuel') :
    push api batch fuel' client server = some o := by
  induction fuel generalizing client server fuel' with
  | zero => cases h
  | succ fuel ih =>
    obtain ⟨fuel', rfl⟩ : ∃ n, fuel' = n + 1 := ⟨fuel' - 1, by omega⟩
    have hle : fuel ≤ fuel' := by omega
    rw [push] at h ⊢
    split_ifs at h ⊢ with hnil
    · exact h
    · split at h
      next => exact h
      next => exact ih h hle

private theorem pull_mono {σ : Type} {api : ServerApi σ} {server : σ}
    {o : Outcome SyncClient σ (List ItemId)}
    (h : pull api batch fuel touched client server = some o) {fuel' : ℕ} (hle : fuel ≤ fuel') :
    pull api batch fuel' touched client server = some o := by
  induction fuel generalizing touched client server fuel' with
  | zero => cases h
  | succ fuel ih =>
    obtain ⟨fuel', rfl⟩ : ∃ n, fuel' = n + 1 := ⟨fuel' - 1, by omega⟩
    have hle : fuel ≤ fuel' := by omega
    rw [pull] at h ⊢
    split at h
    next => exact h
    next =>
      split_ifs at h ⊢ with hnil
      · exact h
      · exact ih h hle

/-- A round is its two loops. -/
private theorem sync_of_push {σ : Type} {api : ServerApi σ} {server : σ}
    {pushed : Outcome SyncClient σ Unit} {o : Outcome SyncClient σ (List ItemId)} {fuel' : ℕ}
    (hpush : push api batch fuel client server = some pushed) (hok : pushed.result = .ok ())
    (hpull : pull api batch fuel' [] pushed.device pushed.server = some o) :
    sync api batch (max fuel fuel') client server = some o := by
  rw [sync, push_mono hpush (Nat.le_max_left _ _), Option.bind_some, hok]
  exact pull_mono hpull (Nat.le_max_right _ _)

/-! ### Without failures and without others -/

private theorem PushSpec.ok_of_answered (h : PushSpec w batch client link o)
    (hfate : ∀ k, w.fate k = .answered) : o.result = .ok () := by
  cases hres : o.result with
  | ok => rfl
  | error e =>
    obtain ⟨k, -, hfail⟩ := h.error e hres
    exact absurd (hfate _) hfail

private theorem PullSpec.ok_of_answered (h : PullSpec w touched client link o')
    (hfate : ∀ k, w.fate k = .answered) : ∃ ids, o'.result = .ok ids := by
  cases hres : o'.result with
  | ok ids => exact ⟨ids, rfl⟩
  | error e =>
    rcases h.error e hres with ⟨-, hfail⟩ | ⟨-, ⟨k, hfail⟩, -⟩
    · exact absurd (hfate _) hfail
    · exact absurd (hfate _) hfail

/-- When nobody else pushes, the server has stored just what was unsynced, in order. -/
private theorem push_quiet (hbatch : 0 < batch) (hnd : client.log.ids.Nodup)
    (hlog : link.log.NumberedFrom base) (hquiet : ∀ k, w.others k = [])
    (h : push (httpServerApi w) batch fuel client link = some o) (hok : o.result = .ok ())
    (now : ℕ → ℤ) :
    o.server.log.untimed
      = (link.log.append now (client.unsynced.map AppendEvent.ofDescriptor)).1.untimed := by
  replace h := pushes_of_push hbatch h
  induction h with
  | done hnil =>
    rw [hnil]
    rfl
  | failed => cases hok
  | @answered client link o _ _ _ ih =>
    obtain ⟨hids, -, hunsynced⟩ := acknowledged_spec w batch hnd hlog
    have hrest := ih (hids ▸ hnd) (hlog.of_grows (link.grows_posted w _)) hok
    rw [hunsynced] at hrest
    have harrive := link.arrive_of_quiet (hquiet link.requests)
    -- the batch sent and the batches still to come make up what was unsynced
    have hsplit : client.unsynced.map AppendEvent.ofDescriptor
        = client.toPush batch ++ (client.unsynced.drop batch).map AppendEvent.ofDescriptor := by
      rw [toPush, ← List.map_append, List.take_append_drop]
    rw [hrest, hsplit, ServerEventLog.append_append]
    refine (ServerEventLog.append_untimed ?_ _ _ _).1
    change ((link.arrive w).append _ (client.toPush batch)).1.untimed = _
    rw [harrive]
    exact (ServerEventLog.append_untimed rfl _ _ _).1

/-- A page takes a batch off the stream when nothing has come in between. -/
private theorem after_received (hlog : link.log.NumberedFrom base)
    (hquiet : w.others link.requests = []) (hpage : (client.page w batch link).events ≠ []) :
    (link.got w).log = link.log ∧
      link.log.after (client.received (client.page w batch link)).state.pulled
        = (link.log.after client.state.pulled).drop batch ∧
      0 < (link.log.after client.state.pulled).length := by
  have harrive := link.arrive_of_quiet hquiet
  rw [page, harrive] at hpage
  refine ⟨harrive, ?_, List.length_pos_iff.mpr fun hnil => hpage ?_⟩
  · change link.log.after (client.page w batch link).nextOffset = _
    rw [page, harrive]
    exact hlog.after_nextOffset hpage
  · rw [hlog.eventsAfter_eq_take, hnil, List.take_nil]

/-- When nobody else pushes, `pull` reads one page for each batch of the stream, and an empty
one. -/
private theorem pull_quiet (hbatch : 0 < batch) (hlog : link.log.NumberedFrom base)
    (hquiet : ∀ k, link.requests ≤ k → w.others k = [])
    (h : pull (httpServerApi w) batch fuel touched client link = some o') {ids : List ItemId}
    (hok : o'.result = .ok ids) : o'.server.log = link.log ∧ o'.server.gets
      = link.gets + (link.log.after client.state.pulled).length ⌈/⌉ batch + 1 := by
  replace h := pulls_of_pull h
  induction h with
  | @done touched client link _ hpage =>
    have harrive := link.arrive_of_quiet (hquiet _ le_rfl)
    rw [page, harrive, hlog.eventsAfter_eq_take, List.take_eq_nil_iff] at hpage
    rw [hpage.resolve_left hbatch.ne']
    refine ⟨harrive, ?_⟩
    simp [Link.got]
  | failed => cases hok
  | @page touched client link o _ hpage _ ih =>
    obtain ⟨hgot, hrest, hpos⟩ := after_received hlog (hquiet _ le_rfl) hpage
    have hquiet' : ∀ k, (link.got w).requests ≤ k → w.others k = [] := by
      intro k hk
      exact hquiet k ((Nat.le_succ _).trans hk)
    obtain ⟨hlog', hgets⟩ := ih (hgot.symm ▸ hlog) hquiet' hok
    refine ⟨hlog'.trans hgot, ?_⟩
    rw [hgets, hgot, hrest, List.length_drop, ceilDiv_eq_succ hbatch hpos]
    change link.gets + 1 + _ + 1 = _
    omega

/-! ### Termination -/

/-- **The loop of `push` ends**, whatever the weather. -/
theorem exists_push (hbatch : 0 < batch) (hnd : client.log.ids.Nodup)
    (hlog : link.log.NumberedFrom base) (hfuel : client.unsynced.length < fuel) :
    ∃ o, push (httpServerApi w) batch fuel client link = some o := by
  induction fuel generalizing client link with
  | zero => exact absurd hfuel (Nat.not_lt_zero _)
  | succ fuel ih =>
    by_cases hnil : client.unsynced = []
    · exact ⟨_, push_of_nil hnil⟩
    · by_cases hfate : w.fate link.requests = .answered
      · obtain ⟨hids, -, hunsynced⟩ := acknowledged_spec w batch hnd hlog
        rw [push_of_answered hbatch hnil hfate]
        refine ih (hids ▸ hnd) (hlog.of_grows (link.grows_posted w _)) ?_
        have hpos := List.length_pos_iff.mpr hnil
        rw [hunsynced, List.length_drop]
        omega
      · obtain ⟨log, e, hfailed, -⟩ := push_of_failed fuel hbatch hnil hfate
        exact ⟨_, hfailed⟩

/-- Once nobody else pushes, each pass of `pull` takes a batch off the stream. -/
private theorem exists_pull_of_quiet (hbatch : 0 < batch) (hlog : link.log.NumberedFrom base)
    (hquiet : ∀ k, link.requests ≤ k → w.others k = [])
    (hfuel : (link.log.after client.state.pulled).length < fuel) :
    ∃ o, pull (httpServerApi w) batch fuel touched client link = some o := by
  induction fuel generalizing touched client link with
  | zero => exact absurd hfuel (Nat.not_lt_zero _)
  | succ fuel ih =>
    by_cases hfate : w.fate link.requests = .answered
    · by_cases hpage : (client.page w batch link).events = []
      · exact ⟨_, pull_of_nil hfate hpage⟩
      · obtain ⟨hgot, hrest, hpos⟩ := after_received hlog (hquiet _ le_rfl) hpage
        have hquiet' : ∀ k, (link.got w).requests ≤ k → w.others k = [] := fun k hk =>
          hquiet k ((Nat.le_succ _).trans hk)
        rw [pull_of_page hfate hpage]
        refine ih (hgot.symm ▸ hlog) hquiet' ?_
        rw [hgot, hrest, List.length_drop]
        omega
    · obtain ⟨e, hfailed⟩ := pull_of_failed batch fuel touched client hfate
      exact ⟨_, hfailed⟩

/-- **The loop of `pull` ends** once others have stopped pushing. -/
theorem exists_pull (hbatch : 0 < batch) (hlog : link.log.NumberedFrom base) {n : ℕ}
    (hquiet : ∀ k, link.requests + n ≤ k → w.others k = []) :
    ∃ fuel o, pull (httpServerApi w) batch fuel touched client link = some o := by
  induction n generalizing touched client link with
  | zero => exact ⟨_, exists_pull_of_quiet hbatch hlog hquiet (Nat.lt_succ_self _)⟩
  | succ n ih =>
    by_cases hfate : w.fate link.requests = .answered
    · by_cases hpage : (client.page w batch link).events = []
      · exact ⟨1, _, pull_of_nil hfate hpage⟩
      · have hquiet' : ∀ k, (link.got w).requests + n ≤ k → w.others k = [] := by
          intro k hk
          rw [Link.requests_got] at hk
          exact hquiet k (by omega)
        obtain ⟨fuel, o, ho⟩ := ih (show (link.got w).log.NumberedFrom base from
          hlog.of_grows (link.grows_arrive w)) hquiet'
        exact ⟨fuel + 1, o, (pull_of_page hfate hpage).trans ho⟩
    · obtain ⟨e, hfailed⟩ := pull_of_failed batch 0 touched client hfate
      exact ⟨1, _, hfailed⟩

/-- **A round ends** once others have stopped pushing, whether its requests are answered or not. -/
theorem exists_sync (hbatch : 0 < batch) (hnd : client.log.ids.Nodup)
    (hlog : link.log.NumberedFrom base) {n : ℕ} (hquiet : ∀ k, n ≤ k → w.others k = []) :
    ∃ fuel o, sync (httpServerApi w) batch fuel client link = some o := by
  obtain ⟨pushed, hpush⟩ : ∃ pushed,
      push (httpServerApi w) batch (client.unsynced.length + 1) client link = some pushed :=
    exists_push hbatch hnd hlog (Nat.lt_succ_self _)
  cases hres : pushed.result with
  | error e =>
    refine ⟨client.unsynced.length + 1, ⟨pushed.device, pushed.server, .error e⟩, ?_⟩
    rw [sync, hpush, Option.bind_some, hres]
  | ok =>
    have hlog' := hlog.of_grows (push_spec hbatch hnd hlog hpush).grows
    have hquiet' : ∀ k, pushed.server.requests + n ≤ k → w.others k = [] := fun k hk =>
      hquiet k ((Nat.le_add_left _ _).trans hk)
    obtain ⟨fuel, o, hpull⟩ := exists_pull hbatch hlog' hquiet'
    exact ⟨_, o, sync_of_push hpush hres hpull⟩

/-- When nobody else pushes, a round that goes through leaves the server with what was unsynced. -/
theorem sync_quiet (hbatch : 0 < batch) (hnd : client.log.ids.Nodup)
    (hlog : link.log.NumberedFrom base) (hquiet : ∀ k, w.others k = [])
    (h : sync (httpServerApi w) batch fuel client link = some o') (hok : o'.result = .ok touched)
    (now : ℕ → ℤ) :
    o'.server.log.untimed
      = (link.log.append now (client.unsynced.map AppendEvent.ofDescriptor)).1.untimed := by
  obtain ⟨pushed, hpush, ⟨e, -, rfl⟩ | ⟨hpushok, hpull⟩⟩ := sync_cases h
  · cases hok
  · have hlog' := hlog.of_grows (push_spec hbatch hnd hlog hpush).grows
    rw [(pull_quiet hbatch hlog' (fun k _ => hquiet k) hpull hok).1]
    exact push_quiet hbatch hnd hlog hquiet hpush hpushok now

end SyncClient

/-- **A round ends**: with no failures and finitely many events from elsewhere both loops do, and
when none come from elsewhere their requests are counted by what there was to push and to pull. -/
theorem sync_terminates {w : Weather} {batch : ℕ} {client : SyncClient} {link : Link}
    (hclient : client.log.Reachable)
    (hserver : ServerEventLog.new.Reachable link.log ∨ ServerEventLog.default.Reachable link.log)
    (hbatch : 0 < batch) (hfate : ∀ k, w.fate k = .answered)
    (hfinite : ∃ n, ∀ k, n ≤ k → w.others k = []) :
    (∃ fuel o, client.sync (httpServerApi w) batch fuel link = some o) ∧
      ∀ fuel o, client.sync (httpServerApi w) batch fuel link = some o →
        (∃ touched, o.result = .ok touched) ∧ o.device.unsynced = [] ∧
          ((∀ k, w.others k = []) →
            let stored :=
              (link.log.append (fun _ => 0) (client.unsynced.map AppendEvent.ofDescriptor)).1
            let stream := stored.after client.state.pulled
            o.server.log.untimed = stored.untimed ∧
              o.server.posts = link.posts + client.unsynced.length ⌈/⌉ batch ∧
              o.server.gets = link.gets + (stream.length ⌈/⌉ batch + 1) ∧
              o.device.state.pulled
                = if stream = [] then client.state.pulled else o.server.log.lastOffset) := by
  obtain ⟨base, hlog⟩ := ServerEventLog.exists_numberedFrom hserver
  have hnd := hclient.nodup
  obtain ⟨n, hfinite⟩ := hfinite
  constructor
  · exact SyncClient.exists_sync hbatch hnd hlog hfinite
  · intro fuel o h
    obtain ⟨pushed, hpush, ⟨e, he, -⟩ | ⟨hok, hpull⟩⟩ := SyncClient.sync_cases h
    · have hspec := SyncClient.push_spec hbatch hnd hlog hpush
      cases he.symm.trans (hspec.ok_of_answered hfate)
    · have hpushed := SyncClient.push_spec hbatch hnd hlog hpush
      have hlog' := hlog.of_grows hpushed.grows
      have hpulled := SyncClient.pull_spec hbatch hlog' hpull
      obtain ⟨touched, hres⟩ := hpulled.ok_of_answered hfate
      obtain ⟨hdone, hposts, -⟩ := hpushed.ok hok
      refine ⟨⟨touched, hres⟩, (hpulled.unsynced hlog' hres).trans hdone, fun hquiet => ?_⟩
      intro stored stream
      obtain ⟨hsame, hgets⟩ := SyncClient.pull_quiet hbatch hlog' (fun k _ => hquiet k) hpull hres
      have huntimed : o.server.log.untimed = stored.untimed :=
        SyncClient.sync_quiet hbatch hnd hlog hquiet h hres _
      -- the stream that was pulled is the one that the log after the push has
      have hstream : stream.map EventDescriptor.untimed
          = (pushed.server.log.after client.state.pulled).map EventDescriptor.untimed := by
        rw [← ServerEventLog.after_untimed, ← ServerEventLog.after_untimed, ← huntimed, hsame]
      have hlength : stream.length = (pushed.server.log.after client.state.pulled).length := by
        simpa using congrArg List.length hstream
      obtain ⟨-, -, hcursor⟩ := hpulled.ok touched hres
      rw [hpushed.state] at hgets hcursor
      refine ⟨huntimed, hpulled.posts.trans hposts, ?_, ?_⟩
      · rw [hgets, hpushed.gets, hlength, Nat.add_assoc]
      · rw [hcursor, hsame]
        refine if_congr ?_ rfl rfl
        rw [← List.length_eq_zero_iff, ← hlength, List.length_eq_zero_iff]

/-- Nothing goes wrong, and nobody else is there. -/
def calm : Weather where
  others _ := []
  now _ _ := 1000
  fate _ := .answered

/-- A device with two events of its own that it has not pushed. -/
def busyClient : SyncClient where
  log := (DeviceEventLog.new.appendLocal
    [⟨1, ⟨7⟩, .created "milk" 2, "A", 100, none, none, none⟩,
      ⟨2, ⟨7⟩, .renamed "oat milk", "A", 150, none, none, none⟩]).1
  state := .new "A"

/-- A server with an event of another device. -/
def otherLink : Link where
  log := (ServerEventLog.new.append (fun _ => 500)
    [⟨3, ⟨8⟩, .created "eggs" 6, "B", 120, some 1, none, none⟩]).1

theorem sync_terminates_busyClient :
    ∃ fuel o, busyClient.sync (httpServerApi calm) 1 fuel otherLink = some o ∧
      o.server.posts = 2 ∧ o.server.gets = 4 ∧ o.device.state.pulled = o.server.log.lastOffset := by
  obtain ⟨⟨fuel, o, ho⟩, hall⟩ :
      (∃ fuel o, busyClient.sync (httpServerApi calm) 1 fuel otherLink = some o) ∧ _ :=
    sync_terminates (.appendLocal .new _) (.inl (.append .start _ _)) Nat.one_pos
      (fun _ => rfl) ⟨0, fun _ _ => rfl⟩
  obtain ⟨-, -, hquiet⟩ := hall fuel o ho
  obtain ⟨-, hposts, hgets, hpulled⟩ := hquiet fun _ => rfl
  exact ⟨fuel, o, ho, hposts.trans (by decide +kernel), hgets.trans (by decide +kernel),
    hpulled.trans (if_neg (by decide +kernel))⟩

end OfflineSync
