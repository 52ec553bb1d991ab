import OfflineSync.Rounds
import OfflineSync.SyncTermination

/-!
# A call of `sync` is a round of the protocol

`OfflineSync.SyncEngine` runs a whole round at once, `OfflineSync.Sync` step by step. They are two
readings of the same source, and this module says that they agree: what a call of `sync` leaves
behind, the protocol reaches by actions of that device's round (`reaches_sync`), through the same
answers, losses and lost answers, and with the same ids returned. The other devices see nothing but
the server's log, and the invariant of the protocol holds there too (`inv_sync`).

The calm between the requests is on purpose: what other devices do there are their own rounds.
-/

namespace OfflineSync

namespace Net

variable {ι : Type} [DecidableEq ι]

/-- Reached by actions of device `d`. -/
def ReachesBy (d : ι) (s s' : Net ι) : Prop :=
  (machine ι).Reaches (fun a => a.device = some d) s s'

theorem ReachesBy.sync {d : ι} {s s' : Net ι} {a : SyncAction ι} (ha : a.device = some d)
    (h : s.syncStep a = some s') : ReachesBy d s s' :=
  .single (a := .sync a) ha h

/-- What a device does in its rounds no other device notices. -/
theorem ReachesBy.frame {d : ι} {s s' : Net ι} (h : ReachesBy d s s') {e : ι} (he : e ≠ d) :
    s'.log e = s.log e ∧ s'.state e = s.state e ∧ s'.round e = s.round e := by
  refine Machine.Reaches.mono
    (R := fun s s' => s'.log e = s.log e ∧ s'.state e = s.state e ∧ s'.round e = s.round e)
    (fun s => ⟨rfl, rfl, rfl⟩) (fun s₁ s₂ s₃ h h' => ?_) (fun s a s' ha hstep => ?_) h
  · exact ⟨h'.1.trans h.1, h'.2.1.trans h.2.1, h'.2.2.trans h.2.2⟩
  · refine (step_cases hstep).frame fun heq => he ?_
    exact Option.some.inj (heq.symm.trans ha)

/-- Rounds keep the invariant of the protocol. -/
theorem ReachesBy.inv {d : ι} {s s' : Net ι} (h : ReachesBy d s s') (hinv : s.Inv) : s'.Inv := by
  refine Machine.Reaches.mono (R := fun s s' => s.Inv → s'.Inv) (fun _ => id) ?_ ?_ h hinv
  · intro s₁ s₂ s₃ h h'
    exact h' ∘ h
  · intro s a s' _ hstep hinv
    exact hinv.step (step_cases hstep)

/-- Device `d` is in the given phase, with what the call has in its hands. -/
structure Runs (s : Net ι) (d : ι) (client : SyncClient) (link : Link) (round : Option Round) :
    Prop where
  log : s.log d = client.log
  state : s.state d = client.state
  server : s.server = link.log
  round : s.round d = round

variable {d : ι} {s : Net ι} {w : Weather} {batch fuel : ℕ} {client : SyncClient} {link : Link}
  {touched : List ItemId}

omit [DecidableEq ι] in
private theorem Runs.unsynced (h : s.Runs d client link (some ⟨batch, .push⟩)) :
    s.unsynced d batch = client.unsynced.take batch := by
  rw [Net.unsynced, h.log, h.state]
  rfl

/-! ### One step of a round -/

theorem Runs.send (h : s.Runs d client link (some ⟨batch, .push⟩))
    (hne : client.unsynced.take batch ≠ []) : ∃ s', ReachesBy d s s' ∧
      s'.Runs d client link (some ⟨batch, .pushing (client.toPush batch)⟩) := by
  have hstep : s.syncStep (.send d) = some
      { s.setRound d (some ⟨batch, .pushing (client.toPush batch)⟩) with
        inflight := client.toPush batch :: s.inflight } := by
    simp only [syncStep, h.round, h.unsynced]
    exact if_neg hne
  exact ⟨_, .sync rfl hstep, h.log, h.state, h.server, round_setRound_self s d _⟩

theorem Runs.pushed (h : s.Runs d client link (some ⟨batch, .push⟩))
    (hnil : client.unsynced = []) :
    ∃ s', ReachesBy d s s' ∧ s'.Runs d client link (some ⟨batch, .pull []⟩) := by
  have hstep : s.syncStep (.send d) = some (s.setRound d (some ⟨batch, .pull []⟩)) := by
    have hbatch : s.unsynced d batch = [] := by rw [h.unsynced, hnil, List.take_nil]
    simp only [syncStep, h.round]
    exact if_pos hbatch
  exact ⟨_, .sync rfl hstep, h.log, h.state, h.server, round_setRound_self s d _⟩

theorem Runs.handle {events : List ItemAppend} (hquiet : w.others link.requests = [])
    (h : s.Runs d client link (some ⟨batch, .pushing events⟩)) : ∃ s', ReachesBy d s s' ∧
      s'.Runs d client (link.posted w events)
        (some ⟨batch, .acknowledged (link.handlePost w events).2⟩) := by
  have hpost : ∃ now, link.handlePost w events = link.log.append now events :=
    ⟨_, by rw [Link.handlePost, link.arrive_of_quiet hquiet]⟩
  obtain ⟨now, hpost⟩ := hpost
  have hstep : s.syncStep (.handle d now) = some
      { s.setRound d (some ⟨batch, .acknowledged (s.server.append now events).2⟩) with
        toReplicas := s.store now events } := by
    simp only [syncStep, h.round]
  refine ⟨_, .sync rfl hstep, h.log, h.state, ?_, ?_⟩
  · rw [Link.posted, hpost, ← h.server]
    rfl
  · rw [hpost, ← h.server]
    exact round_setRound_self s d _

theorem Runs.ack {acks : List ItemDescriptor}
    (h : s.Runs d client link (some ⟨batch, .acknowledged acks⟩)) :
    ∃ s', ReachesBy d s s' ∧ s'.Runs d (client.acknowledged acks) link (some ⟨batch, .push⟩) := by
  have hstep : s.syncStep (.ack d) = some
      { s.setRound d (some ⟨batch, .push⟩) with toReplicas := s.record d acks } := by
    simp only [syncStep, h.round]
  refine ⟨_, .sync rfl hstep, ?_, h.state, h.server, round_setRound_self s d _⟩
  exact Replicas.log_record_self.trans (congrArg (·.markSynced acks) h.log)

theorem Runs.fail {phase : SyncPhase} (h : s.Runs d client link (some ⟨batch, phase⟩))
    (hphase : phase ≠ .push) : ∃ s', s.syncStep (.fail d) = some s' ∧
      s'.Runs d client link none := by
  have hstep : s.syncStep (.fail d) = some (s.setRound d none) := by
    cases phase with
    | push => exact absurd rfl hphase
    | _ => simp only [syncStep, h.round]
  exact ⟨_, hstep, h.log, h.state, h.server, round_setRound_self s d _⟩

theorem Runs.answer (hquiet : w.others link.requests = [])
    (h : s.Runs d client link (some ⟨batch, .pull touched⟩)) : ∃ s', ReachesBy d s s' ∧
      s'.Runs d client (link.got w) (some ⟨batch, .pulled touched (client.page w batch link)⟩) := by
  have harrive := link.arrive_of_quiet hquiet
  have hpage : s.server.eventsAfter (s.state d).pulled batch = client.page w batch link := by
    rw [SyncClient.page, harrive, h.server, h.state]
  have hstep : s.syncStep (.answer d) = some
      (s.setRound d (some ⟨batch, .pulled touched (client.page w batch link)⟩)) := by
    simp only [syncStep, h.round, hpage]
  exact ⟨_, .sync rfl hstep, h.log, h.state, h.server.trans harrive.symm,
    round_setRound_self s d _⟩

theorem Runs.take {page : EventsPage ItemEvent ItemId}
    (h : s.Runs d client link (some ⟨batch, .pulled touched page⟩)) (hne : page.events ≠ []) :
    ∃ s', ReachesBy d s s' ∧ s'.Runs d (client.received page) link
      (some ⟨batch, .pull (touched ++ page.events.map EventDescriptor.entityId)⟩) := by
  have hstep : s.syncStep (.take d) = some
      { s.setRound d
          (some ⟨batch, .pull (touched ++ page.events.map EventDescriptor.entityId)⟩) with
        toReplicas := s.receive d page } := by
    simp only [syncStep, h.round]
    exact if_neg hne
  refine ⟨_, .sync rfl hstep, ?_, ?_, h.server, round_setRound_self s d _⟩
  · refine Replicas.log_receive_self.trans ?_
    rw [h.log]
    rfl
  · refine Replicas.state_receive_self.trans ?_
    rw [h.state]
    rfl

theorem Runs.finish {page : EventsPage ItemEvent ItemId}
    (h : s.Runs d client link (some ⟨batch, .pulled touched page⟩)) (hnil : page.events = []) :
    s.returns (.take d) = some (d, touched) ∧
      ∃ s', s.syncStep (.take d) = some s' ∧ s'.Runs d client link none := by
  constructor
  · simp only [returns, h.round]
    exact if_pos hnil
  · have hstep : s.syncStep (.take d) = some (s.setRound d none) := by
      simp only [syncStep, h.round]
      exact if_pos hnil
    exact ⟨_, hstep, h.log, h.state, h.server, round_setRound_self s d _⟩

/-! ### The loops -/

/-- The loop of `push` is the protocol's, and ends at its `pull` or with the round. -/
private theorem reaches_push {o : Outcome SyncClient Link Unit} (hbatch : 0 < batch)
    (hquiet : ∀ k, w.others k = [])
    (h : SyncClient.push (httpServerApi w) batch fuel client link = some o)
    (hs : s.Runs d client link (some ⟨batch, .push⟩)) : ∃ s', ReachesBy d s s' ∧
      s'.Runs d o.device o.server (match o.result with
        | .ok _ => some ⟨batch, .pull []⟩
        | .error _ => none) := by
  replace h := SyncClient.pushes_of_push hbatch h
  induction h generalizing s with
  | done hnil => exact hs.pushed hnil
  | @failed client link log e hne _ hhandled =>
    obtain ⟨s₁, hreach₁, hs₁⟩ := hs.send (SyncClient.take_unsynced_ne_nil hbatch hne)
    rcases hhandled with rfl | rfl
    · -- the request is lost
      obtain ⟨s₂, hstep, hs₂⟩ := hs₁.fail nofun
      have hserver := hs₂.server.trans (link.arrive_of_quiet (hquiet _)).symm
      exact ⟨s₂, hreach₁.trans (ReachesBy.sync rfl hstep), hs₂.log, hs₂.state, hserver, hs₂.round⟩
    · -- its answer is
      obtain ⟨s₂, hreach₂, hs₂⟩ := hs₁.handle (hquiet _)
      obtain ⟨s₃, hstep, hs₃⟩ := hs₂.fail nofun
      exact ⟨s₃, hreach₁.trans (hreach₂.trans (ReachesBy.sync rfl hstep)), hs₃.log, hs₃.state,
        hs₃.server, hs₃.round⟩
  | @answered client link o hne _ _ ih =>
    obtain ⟨s₁, hreach₁, hs₁⟩ := hs.send (SyncClient.take_unsynced_ne_nil hbatch hne)
    obtain ⟨s₂, hreach₂, hs₂⟩ := hs₁.handle (hquiet _)
    obtain ⟨s₃, hreach₃, hs₃⟩ := hs₂.ack
    obtain ⟨s', hreach, hs'⟩ := ih hs₃
    exact ⟨s', hreach₁.trans (hreach₂.trans (hreach₃.trans hreach)), hs'⟩

/-- The loop of `pull` is the protocol's; when it goes through, the protocol returns the same
ids. -/
private theorem reaches_pull {o : Outcome SyncClient Link (List ItemId)}
    (hquiet : ∀ k, w.others k = [])
    (h : SyncClient.pull (httpServerApi w) batch fuel touched client link = some o)
    (hs : s.Runs d client link (some ⟨batch, .pull touched⟩)) : ∃ s₁ a s',
      ReachesBy d s s₁ ∧ a.device = some d ∧ s₁.syncStep a = some s' ∧
        s'.Runs d o.device o.server none ∧
        ∀ ids, o.result = .ok ids → s₁.returns a = some (d, ids) := by
  replace h := SyncClient.pulls_of_pull h
  induction h generalizing s with
  | @done touched client link _ hpage =>
    obtain ⟨s₁, hreach₁, hs₁⟩ := hs.answer (hquiet _)
    obtain ⟨hreturns, s', hstep, hs'⟩ := hs₁.finish hpage
    refine ⟨s₁, .take d, s', hreach₁, rfl, hstep, hs', fun ids hids => ?_⟩
    rw [hreturns, Except.ok.inj hids]
  | @failed touched client link e _ =>
    obtain ⟨s', hstep, hs'⟩ := hs.fail nofun
    have hserver := hs'.server.trans (link.arrive_of_quiet (hquiet _)).symm
    refine ⟨s, .fail d, s', .refl, rfl, hstep, ⟨hs'.log, hs'.state, hserver, hs'.round⟩, ?_⟩
    intro ids hids
    cases hids
  | @page touched client link o _ hpage _ ih =>
    obtain ⟨s₁, hreach₁, hs₁⟩ := hs.answer (hquiet _)
    obtain ⟨s₂, hreach₂, hs₂⟩ := hs₁.take hpage
    obtain ⟨s₃, a, s', hreach, hlast⟩ := ih hs₂
    exact ⟨s₃, a, s', hreach₁.trans (hreach₂.trans hreach), hlast⟩

/-- **A call of `sync` is a round of the protocol**: from a device outside a round, the protocol
reaches what the call leaves behind by that device's actions, the last of which returns what the
call returns. -/
theorem reaches_sync {o : Outcome SyncClient Link (List ItemId)} (hbatch : 0 < batch)
    (hquiet : ∀ k, w.others k = []) (hround : s.round d = none) (hserver : link.log = s.server)
    (h : SyncClient.sync (httpServerApi w) batch fuel ⟨s.log d, s.state d⟩ link = some o) :
    ∃ s', ReachesBy d s s' ∧ s'.Runs d o.device o.server none ∧
      ∀ ids, o.result = .ok ids → ∃ s₁ a, ReachesBy d s s₁ ∧ s₁.syncStep a = some s' ∧
        s₁.returns a = some (d, ids) := by
  have hbegin : s.syncStep (.beginRound d batch) = some (s.setRound d (some ⟨batch, .push⟩)) := by
    simp only [syncStep, hround]
    exact if_pos hbatch
  have hreach₀ := ReachesBy.sync rfl hbegin
  have hs₀ : (s.setRound d (some ⟨batch, .push⟩)).Runs d ⟨s.log d, s.state d⟩ link
      (some ⟨batch, .push⟩) := ⟨rfl, rfl, hserver.symm, round_setRound_self s d _⟩
  obtain ⟨pushed, hpush, ⟨e, he, rfl⟩ | ⟨hok, hpull⟩⟩ := SyncClient.sync_cases h
  · obtain ⟨s', hreach, hs'⟩ := reaches_push hbatch hquiet hpush hs₀
    rw [he] at hs'
    refine ⟨s', hreach₀.trans hreach, hs', fun ids hids => ?_⟩
    cases hids
  · obtain ⟨s₁, hreach₁, hs₁⟩ := reaches_push hbatch hquiet hpush hs₀
    rw [hok] at hs₁
    obtain ⟨s₂, a, s', hreach₂, ha, hstep, hs', hreturns⟩ := reaches_pull hquiet hpull hs₁
    have hreach := hreach₀.trans (hreach₁.trans hreach₂)
    exact ⟨s', hreach.trans (ReachesBy.sync ha hstep), hs', fun ids hids =>
      ⟨s₂, a, hreach, hstep, hreturns ids hids⟩⟩

/-- What a call of `sync` leaves behind is a state of the protocol: its invariant holds there, and
the other devices are as they were. -/
theorem inv_sync {o : Outcome SyncClient Link (List ItemId)} (hinv : s.Inv) (hbatch : 0 < batch)
    (hquiet : ∀ k, w.others k = []) (hround : s.round d = none) (hserver : link.log = s.server)
    (h : SyncClient.sync (httpServerApi w) batch fuel ⟨s.log d, s.state d⟩ link = some o) :
    ∃ s' : Net ι, s'.Inv ∧ s'.Runs d o.device o.server none ∧
      ∀ e ≠ d, s'.log e = s.log e ∧ s'.state e = s.state e ∧ s'.round e = s.round e := by
  obtain ⟨s', hreach, hs', -⟩ := reaches_sync hbatch hquiet hround hserver h
  exact ⟨s', hreach.inv hinv, hs', fun e he => hreach.frame he⟩

end Net

end OfflineSync
