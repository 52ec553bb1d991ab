import OfflineSync.DeviceEventLog
import OfflineSync.ServerEventLog
import OfflineSync.Lib.Machine

/-!
# The sync protocol

The devices, the server's log and the requests between them: `client-sdk/src/sync.rs` over
`client-sdk/src/http.rs` and the two `/events` handlers of `backend/src/server.rs`.

A round runs `push` and then `pull` with the device's log locked throughout, so a device has
at most one round between its first and its last step, and where it stands in its two loops
is a `SyncPhase`. Each step of a round is one action: everything the code does between two
points where it waits for the network. Whatever another device does may come between two
steps of a round.

The network may do the following to a request. A push request stays in `inflight` once it is
sent, and `deliver` may have the server store it at any later time, also after the device gave
up on it, and also repeatedly; `handle` stores it while the device still waits and sends the
answer; `fail` is the device's view of a request that was lost, of an answer that was lost,
and of one it did not wait for. A pull request changes nothing on the server, so it is
answered (`answer`) or fails.

`authored` is a history variable: every event appended by `append_local` anywhere, with the
device that did, oldest first. Only the freshness of new event ids reads it.
-/

namespace OfflineSync

/-- Per-device sync state: the cursor is the highest server offset pulled so far. -/
structure SyncState where
  replicaId : String
  pulled : Option ServerOffset
deriving DecidableEq, Repr

/-- `SyncState::new`. -/
def SyncState.new (replicaId : String) : SyncState where
  replicaId := replicaId
  pulled := none

/-- Where a sync round stands. -/
inductive SyncPhase
  /-- At the head of the loop of `push`. -/
  | push
  /-- In `push`, with a request sent and not answered. -/
  | pushing (events : List ItemAppend)
  /-- In `push`, with the answer on its way back. -/
  | acknowledged (stored : List ItemDescriptor)
  /-- In `pull`, with a request sent and not answered. -/
  | pull (touched : List ItemId)
  /-- In `pull`, with the answer on its way back. -/
  | pulled (touched : List ItemId) (page : EventsPage ItemEvent ItemId)
deriving DecidableEq, Repr

/-- A sync round under way, with the batch size it was called with. -/
structure Round where
  batch : ℕ
  phase : SyncPhase
deriving DecidableEq, Repr

/-- What the replicas hold: the server's log, and each device's log and sync state. -/
structure Replicas (ι : Type) where
  server : ServerEventLog
  /-- The provider `EventSourcedStores::new` wires into a device's storage. -/
  provider : ι → ReplicaIdProvider
  log : ι → DeviceEventLog
  state : ι → SyncState
  /-- History: the events authored so far, with the device that authored each. -/
  authored : List (ι × ItemDescriptor)

/-- The replicas, the rounds under way and the push requests sent so far. -/
structure Net (ι : Type) extends Replicas ι where
  round : ι → Option Round
  inflight : List (List ItemAppend)

/-- The steps of the sync rounds and of the network. -/
inductive SyncAction (ι : Type)
  /-- A round takes the locks of the log and of the sync state. -/
  | beginRound (d : ι) (batch : ℕ)
  /-- The head of the loop of `push`: send the unsynced events, or go on to `pull`. -/
  | send (d : ι)
  /-- The server stores the events of the pending push request and answers. -/
  | handle (d : ι) (now : ℕ → ℤ)
  /-- The answer to a push arrives: `mark_synced`. -/
  | ack (d : ι)
  /-- The server answers the pending pull request. -/
  | answer (d : ι)
  /-- A page arrives: append it and ask for the next, or end the round if it is empty. -/
  | take (d : ι)
  /-- The pending request fails and the round returns the error. -/
  | fail (d : ι)
  /-- A push request sent at some time reaches the server; no answer reaches the device. -/
  | deliver (events : List ItemAppend) (now : ℕ → ℤ)
  /-- A new `SyncRunner` over the same stores: the cursor starts over, the log is kept. -/
  | newRunner (d : ι)

/-- The protocol's actions: the log half of a store on a device, and the steps of sync. -/
inductive NetAction (ι : Type)
  | author (d : ι) (id : ItemId) (changes : List (Uuid × EntityEvent ItemEvent))
  | sync (a : SyncAction ι)

variable {ι : Type}

/-- The device whose round an action moves. -/
def SyncAction.device : SyncAction ι → Option ι
  | .beginRound d _ | .send d | .handle d _ | .ack d | .answer d | .take d | .fail d
  | .newRunner d => some d
  | .deliver _ _ => none

/-- The device an action belongs to. -/
def NetAction.device : NetAction ι → Option ι
  | .author d _ _ => some d
  | .sync a => a.device

namespace Replicas

/-- The ids of all events authored so far. -/
def authoredIds (s : Replicas ι) : List Uuid :=
  eventIds (s.authored.map Prod.snd)

/-- The server stores the events of a push request. -/
def store (s : Replicas ι) (now : ℕ → ℤ) (events : List ItemAppend) : Replicas ι :=
  { s with server := (s.server.append now events).1 }

variable [DecidableEq ι]

/-- The events device `d` authored, oldest first. -/
def authoredBy (s : Replicas ι) (d : ι) : List ItemDescriptor :=
  (s.authored.filter fun p => p.1 = d).map Prod.snd

/-- `append_local` on device `d`. -/
def author (s : Replicas ι) (d : ι) (events : List ItemAppend) : Replicas ι :=
  let stored := (s.log d).appendLocal events
  { s with
    log := Function.update s.log d stored.1
    authored := s.authored ++ stored.2.map fun e => (d, e) }

/-- `mark_synced` on device `d`. -/
def record (s : Replicas ι) (d : ι) (acknowledged : List ItemDescriptor) : Replicas ι :=
  { s with log := Function.update s.log d ((s.log d).markSynced acknowledged) }

/-- What `pull` does with a page on device `d`: append its events and move the cursor. -/
def receive (s : Replicas ι) (d : ι) (page : EventsPage ItemEvent ItemId) : Replicas ι :=
  { s with
    log := Function.update s.log d
      ((s.log d).append (page.events.map AppendEvent.ofDescriptor))
    state := Function.update s.state d { s.state d with pulled := page.nextOffset } }

/-- A new `SyncState` for device `d`, over the log it has. -/
def restart (s : Replicas ι) (d : ι) : Replicas ι :=
  { s with state := Function.update s.state d (SyncState.new (s.provider d).get) }

variable {s : Replicas ι} {d e : ι} {events : List ItemAppend}
  {acknowledged : List ItemDescriptor} {page : EventsPage ItemEvent ItemId}

@[simp] theorem log_author_self :
    (s.author d events).log d = ((s.log d).appendLocal events).1 :=
  Function.update_self d _ s.log

theorem log_author_of_ne (h : e ≠ d) : (s.author d events).log e = s.log e :=
  Function.update_of_ne h _ s.log

@[simp] theorem log_record_self :
    (s.record d acknowledged).log d = (s.log d).markSynced acknowledged :=
  Function.update_self d _ s.log

theorem log_record_of_ne (h : e ≠ d) : (s.record d acknowledged).log e = s.log e :=
  Function.update_of_ne h _ s.log

@[simp] theorem log_receive_self : (s.receive d page).log d
    = (s.log d).append (page.events.map AppendEvent.ofDescriptor) :=
  Function.update_self d _ s.log

theorem log_receive_of_ne (h : e ≠ d) : (s.receive d page).log e = s.log e :=
  Function.update_of_ne h _ s.log

@[simp] theorem state_receive_self :
    (s.receive d page).state d = { s.state d with pulled := page.nextOffset } :=
  Function.update_self d _ s.state

theorem state_receive_of_ne (h : e ≠ d) : (s.receive d page).state e = s.state e :=
  Function.update_of_ne h _ s.state

@[simp] theorem state_restart_self :
    (s.restart d).state d = SyncState.new (s.provider d).get :=
  Function.update_self d _ s.state

theorem state_restart_of_ne (h : e ≠ d) : (s.restart d).state e = s.state e :=
  Function.update_of_ne h _ s.state

end Replicas

namespace Net

variable [DecidableEq ι]

/-- Move the round of a device to a phase, or end it. -/
def setRound (s : Net ι) (d : ι) (round : Option Round) : Net ι :=
  { s with round := Function.update s.round d round }

@[simp] theorem round_setRound_self (s : Net ι) (d : ι) (round : Option Round) :
    (s.setRound d round).round d = round :=
  Function.update_self d _ s.round

private theorem round_setRound_of_ne (s : Net ι) {d e : ι} (round : Option Round) (h : e ≠ d) :
    (s.setRound d round).round e = s.round e :=
  Function.update_of_ne h _ s.round

/-- What `get_unsynced` gives the round of a device. -/
def unsynced (s : Net ι) (d : ι) (batch : ℕ) : List ItemDescriptor :=
  (s.log d).getUnsynced (s.state d).replicaId batch

/-- One step of a sync round or of the network; `none` when it is not enabled. -/
def syncStep (s : Net ι) : SyncAction ι → Option (Net ι)
  | .beginRound d batch =>
    match s.round d with
    | none => if 0 < batch then some (s.setRound d (some ⟨batch, .push⟩)) else none
    | some _ => none
  | .send d =>
    match s.round d with
    | some ⟨batch, .push⟩ =>
      if s.unsynced d batch = [] then some (s.setRound d (some ⟨batch, .pull []⟩))
      else
        let events := (s.unsynced d batch).map AppendEvent.ofDescriptor
        some { s.setRound d (some ⟨batch, .pushing events⟩) with
          inflight := events :: s.inflight }
    | _ => none
  | .handle d now =>
    match s.round d with
    | some ⟨batch, .pushing events⟩ =>
      let stored := s.server.append now events
      -- the request stays in flight: it may be delivered again
      some { s.setRound d (some ⟨batch, .acknowledged stored.2⟩) with
        toReplicas := s.store now events }
    | _ => none
  | .ack d =>
    match s.round d with
    | some ⟨batch, .acknowledged stored⟩ =>
      some { s.setRound d (some ⟨batch, .push⟩) with toReplicas := s.record d stored }
    | _ => none
  | .answer d =>
    match s.round d with
    | some ⟨batch, .pull touched⟩ =>
      let page := s.server.eventsAfter (s.state d).pulled batch
      some (s.setRound d (some ⟨batch, .pulled touched page⟩))
    | _ => none
  | .take d =>
    match s.round d with
    | some ⟨batch, .pulled touched page⟩ =>
      if page.events = [] then some (s.setRound d none)
      else
        let touched := touched ++ page.events.map EventDescriptor.entityId
        some { s.setRound d (some ⟨batch, .pull touched⟩) with toReplicas := s.receive d page }
    | _ => none
  | .fail d =>
    match s.round d with
    -- at the head of `push` no request is pending
    | none | some ⟨_, .push⟩ => none
    | some _ => some (s.setRound d none)
  | .deliver events now =>
    if events ∈ s.inflight then some { s with toReplicas := s.store now events } else none
  | .newRunner d =>
    match s.round d with
    | none => some { s with toReplicas := s.restart d }
    | some _ => none

/-- The device whose sync an action ends with `Ok`, and the touched ids that `sync` returns. -/
def returns (s : Net ι) : SyncAction ι → Option (ι × List ItemId)
  | .take d =>
    match s.round d with
    | some ⟨_, .pulled touched page⟩ => if page.events = [] then some (d, touched) else none
    | _ => none
  | _ => none

/-- The log half of `ItemStorage::store` on device `d`: the log is not locked by a round, and
the ids drawn for the events are new. -/
def author (s : Net ι) (d : ι) (id : ItemId) (changes : List (Uuid × EntityEvent ItemEvent)) :
    Option (Net ι) :=
  match s.round d with
  | none =>
    if (changes.map Prod.fst).Nodup ∧ ∀ e ∈ changes.map Prod.fst, e ∉ s.authoredIds then
      let events := ItemStorage.appendEvents (s.provider d).get id changes
      some { s with toReplicas := s.toReplicas.author d events }
    else none
  | some _ => none

/-- A device as `EventSourcedStores::new` and `SyncRunner::new` make it, and the server as
`build_router` does: nothing stored, nothing sent. -/
def Init (s : Net ι) : Prop :=
  s.server = .new ∧ s.authored = [] ∧ s.inflight = [] ∧
    ∀ d, s.log d = .new ∧ s.state d = .new (s.provider d).get ∧ s.round d = none

/-- The initial state over given replica identities. -/
def start (provider : ι → ReplicaIdProvider) : Net ι where
  server := .new
  provider := provider
  log _ := .new
  state d := .new (provider d).get
  authored := []
  round _ := none
  inflight := []

omit [DecidableEq ι] in
theorem init_start (provider : ι → ReplicaIdProvider) : (start provider).Init :=
  ⟨rfl, rfl, rfl, fun _ => ⟨rfl, rfl, rfl⟩⟩

/-- The protocol as a machine. -/
def machine (ι : Type) [DecidableEq ι] : Machine (Net ι) (NetAction ι) where
  init := Init
  step s
    | .author d id changes => s.author d id changes
    | .sync a => s.syncStep a

/-! ### What a step can do -/

/-- The steps of the protocol, one case for each way an enabled action can go. -/
inductive Step (s : Net ι) : NetAction ι → Net ι → Prop
  | author {d id changes} (unlocked : s.round d = none)
      (nodup : (changes.map Prod.fst).Nodup)
      (fresh : ∀ e ∈ changes.map Prod.fst, e ∉ s.authoredIds) :
      Step s (.author d id changes)
        { s with toReplicas :=
            s.toReplicas.author d (ItemStorage.appendEvents (s.provider d).get id changes) }
  | beginRound {d batch} (idle : s.round d = none) (pos : 0 < batch) :
      Step s (.sync (.beginRound d batch)) (s.setRound d (some ⟨batch, .push⟩))
  | pushed {d batch} (phase : s.round d = some ⟨batch, .push⟩)
      (synced : s.unsynced d batch = []) :
      Step s (.sync (.send d)) (s.setRound d (some ⟨batch, .pull []⟩))
  | send {d batch} (phase : s.round d = some ⟨batch, .push⟩)
      (unsynced : s.unsynced d batch ≠ []) :
      Step s (.sync (.send d))
        { s.setRound d
            (some ⟨batch, .pushing ((s.unsynced d batch).map AppendEvent.ofDescriptor)⟩) with
          inflight := (s.unsynced d batch).map AppendEvent.ofDescriptor :: s.inflight }
  | handle {d now batch events} (phase : s.round d = some ⟨batch, .pushing events⟩) :
      Step s (.sync (.handle d now))
        { s.setRound d (some ⟨batch, .acknowledged (s.server.append now events).2⟩) with
          toReplicas := s.store now events }
  | ack {d batch stored} (phase : s.round d = some ⟨batch, .acknowledged stored⟩) :
      Step s (.sync (.ack d))
        { s.setRound d (some ⟨batch, .push⟩) with toReplicas := s.record d stored }
  | answer {d batch touched} (phase : s.round d = some ⟨batch, .pull touched⟩) :
      Step s (.sync (.answer d)) (s.setRound d (some ⟨batch,
        .pulled touched (s.server.eventsAfter (s.state d).pulled batch)⟩))
  | finish {d batch touched page} (phase : s.round d = some ⟨batch, .pulled touched page⟩)
      (empty : page.events = []) :
      Step s (.sync (.take d)) (s.setRound d none)
  | take {d batch touched page} (phase : s.round d = some ⟨batch, .pulled touched page⟩)
      (more : page.events ≠ []) :
      Step s (.sync (.take d))
        { s.setRound d (some ⟨batch,
            .pull (touched ++ page.events.map EventDescriptor.entityId)⟩) with
          toReplicas := s.receive d page }
  | fail {d batch phase} (phase_eq : s.round d = some ⟨batch, phase⟩)
      (pending : phase ≠ .push) :
      Step s (.sync (.fail d)) (s.setRound d none)
  | deliver {events now} (sent : events ∈ s.inflight) :
      Step s (.sync (.deliver events now)) { s with toReplicas := s.store now events }
  | newRunner {d} (idle : s.round d = none) :
      Step s (.sync (.newRunner d)) { s with toReplicas := s.restart d }

/-- An enabled step is one of the cases of `Step`. -/
theorem step_cases {s s' : Net ι} {a : NetAction ι} (h : (machine ι).step s a = some s') :
    Step s a s' := by
  cases a with
  | author d id changes =>
    simp only [machine, author] at h
    split at h
    next hround =>
      split_ifs at h with hids
      exact Option.some.inj h ▸ .author hround hids.1 hids.2
    next => cases h
  | sync a =>
    simp only [machine] at h
    cases a with
    | beginRound d batch =>
      simp only [syncStep] at h
      split at h
      next hround =>
        split_ifs at h with hpos
        exact Option.some.inj h ▸ .beginRound hround hpos
      next => cases h
    | send d =>
      simp only [syncStep] at h
      split at h
      next batch hround =>
        split_ifs at h with hnil
        · exact Option.some.inj h ▸ .pushed hround hnil
        · exact Option.some.inj h ▸ .send hround hnil
      next => cases h
    | handle d now =>
      simp only [syncStep] at h
      split at h
      next batch events hround => exact Option.some.inj h ▸ .handle hround
      next => cases h
    | ack d =>
      simp only [syncStep] at h
      split at h
      next batch stored hround => exact Option.some.inj h ▸ .ack hround
      next => cases h
    | answer d =>
      simp only [syncStep] at h
      split at h
      next batch touched hround => exact Option.some.inj h ▸ .answer hround
      next => cases h
    | take d =>
      simp only [syncStep] at h
      split at h
      next batch touched page hround =>
        split_ifs at h with hnil
        · exact Option.some.inj h ▸ .finish hround hnil
        · exact Option.some.inj h ▸ .take hround hnil
      next => cases h
    | fail d =>
      simp only [syncStep] at h
      split at h
      next => cases h
      next => cases h
      next r hne hround =>
        obtain ⟨batch, phase⟩ := r
        refine Option.some.inj h ▸ .fail hround fun hpush => ?_
        exact hne batch (by rw [hpush])
    | deliver events now =>
      simp only [syncStep] at h
      split_ifs at h with hsent
      exact Option.some.inj h ▸ .deliver hsent
    | newRunner d =>
      simp only [syncStep] at h
      split at h
      next hround => exact Option.some.inj h ▸ .newRunner hround
      next => cases h

/-- A step leaves the devices it does not belong to as they are. -/
theorem Step.frame {s s' : Net ι} {a : NetAction ι} (h : Step s a s') {d : ι}
    (hd : a.device ≠ some d) :
    s'.log d = s.log d ∧ s'.state d = s.state d ∧ s'.round d = s.round d := by
  have hne : ∀ {d' : ι}, some d' ≠ some d → d ≠ d' := by
    rintro d' h rfl
    exact h rfl
  cases h with
  | author => exact ⟨Replicas.log_author_of_ne (hne hd), rfl, rfl⟩
  | ack => exact ⟨Replicas.log_record_of_ne (hne hd), rfl, round_setRound_of_ne _ _ (hne hd)⟩
  | take =>
    exact ⟨Replicas.log_receive_of_ne (hne hd), Replicas.state_receive_of_ne (hne hd),
      round_setRound_of_ne _ _ (hne hd)⟩
  | newRunner => exact ⟨rfl, Replicas.state_restart_of_ne (hne hd), rfl⟩
  | deliver => exact ⟨rfl, rfl, rfl⟩
  | beginRound | pushed | send | handle | answer | finish | fail =>
    exact ⟨rfl, rfl, round_setRound_of_ne _ _ (hne hd)⟩

omit [DecidableEq ι] in
/-- A round returns `Ok` at an empty page. -/
theorem returns_eq_some {s : Net ι} {a : SyncAction ι} {d : ι} {touched : List ItemId}
    (h : s.returns a = some (d, touched)) : a = .take d ∧
      ∃ batch page, s.round d = some ⟨batch, .pulled touched page⟩ ∧ page.events = [] := by
  cases a with
  | take d' =>
    simp only [returns] at h
    split at h
    next batch touched' page hround =>
      split_ifs at h with hnil
      obtain ⟨rfl, rfl⟩ := Prod.mk.inj (Option.some.inj h)
      exact ⟨rfl, batch, page, hround, hnil⟩
    next => cases h
  | _ => cases h

end Net

end OfflineSync
