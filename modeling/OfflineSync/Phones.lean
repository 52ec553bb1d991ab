import OfflineSync.NetworkStatus
import OfflineSync.SyncEngine
import OfflineSync.Table

/-!
# The phones

Each device with the runner that syncs it: `SyncRunner` of `client-sdk/src/sync_runner.rs` over the
stores of `OfflineSync.Device`. What the two models leave open of each other is put together here.
`OfflineSync.Device` has rounds that begin at any time, and `OfflineSync.Runner` has tasks that are
in `sync_once` for any time. On a phone a round is the `sync` of a task that is in `sync_once`: the
task waits for the log, runs the round, and when the round touched something waits for the storage,
rebuilds and has the listener called.

Several tasks may be in `sync_once` at once, so a phone keeps for each where it is (`SyncOncePc`),
and which of them has the log or the storage locked. `Wired` says that the three views agree: a
task is in `sync_once` for the runner when it is somewhere there for the phone, and a round is
under way when some task has the log.

Seen in its stores a run of the phones is a run of the protocol (`PhoneRun.netRun`), so what holds
of all its runs holds here.
-/

namespace OfflineSync

/-- A task that calls `sync_once`: a background loop, or a one-off round. -/
inductive RunnerTask
  | loop (k : ℕ)
  | round (k : ℕ)
deriving DecidableEq, Repr

/-- The next step of the task. -/
def RunnerTask.action : RunnerTask → RunnerAction
  | .loop k => .loop k
  | .round k => .round k

/-- Where a task is in `sync_once`, and in what its caller does with the result. -/
inductive SyncOncePc
  /-- Waits for the log. -/
  | log
  /-- In `sync`, with the log and the sync state locked. -/
  | syncing
  /-- Waits for the storage, with the ids that `sync` returned. -/
  | storage (touched : List ItemId)
  /-- Rebuilds them. -/
  | rebuilding (touched : List ItemId)
  /-- `sync_once` has returned `Ok(true)`, and the listener is to be called. -/
  | notify
  | returned
deriving DecidableEq, Repr

/-- What comes after `sync`: nothing when it fails or touches nothing. -/
def SyncOncePc.after (touched : List ItemId) : SyncOncePc :=
  if touched = [] then .returned else .storage touched

private theorem SyncOncePc.after_ne_syncing (touched : List ItemId) : after touched ≠ .syncing := by
  unfold after
  split_ifs <;> simp

private theorem SyncOncePc.after_ne_rebuilding (touched ids : List ItemId) :
    after touched ≠ .rebuilding ids := by
  unfold after
  split_ifs <;> simp

instance : DecidablePred RunnerAction.IsTask
  | .loop _ | .round _ => .isTrue trivial
  | .start | .stop | .setOnline _ | .syncNow => .isFalse id

private theorem LoopPc.next_eq_syncing_iff {running online : Bool} {pc : LoopPc} :
    pc.next running online = some .syncing ↔ pc = .enter := by
  cases pc <;> cases running <;> cases online <;> decide

private theorem RoundPc.next_eq_syncing_iff {online : Bool} {pc : RoundPc} :
    pc.next online = some .syncing ↔ pc = .enter := by
  cases pc <;> cases online <;> decide

private theorem RunnerTask.action_inj {T T' : RunnerTask} (h : T.action = T'.action) : T = T' := by
  cases T with
  | loop =>
    cases T' with
    | loop => exact congrArg RunnerTask.loop (RunnerAction.loop.inj h)
    | round => cases h
  | round =>
    cases T' with
    | loop => cases h
    | round => exact congrArg RunnerTask.round (RunnerAction.round.inj h)

private theorem RunnerTask.isTask_action (T : RunnerTask) : T.action.IsTask := by
  cases T <;> trivial

namespace SyncRunner

/-- The task stands before `sync_once`. -/
def Enters (s : SyncRunner) : RunnerTask → Prop
  | .loop k => s.loops[k]? = some .enter
  | .round k => s.rounds[k]? = some .enter

/-- The task is in `sync_once`. -/
def InSyncOnce (s : SyncRunner) : RunnerTask → Prop
  | .loop k => s.loops[k]? = some .syncing
  | .round k => s.rounds[k]? = some .syncing

instance (s : SyncRunner) : DecidablePred s.Enters
  | .loop k => inferInstanceAs (Decidable (s.loops[k]? = some .enter))
  | .round k => inferInstanceAs (Decidable (s.rounds[k]? = some .enter))

variable {s s' : SyncRunner} {a : RunnerAction} {T : RunnerTask}

theorem Enters.pending (h : s.Enters T) : s.Pending := by
  cases T with
  | loop k => exact .inl (List.mem_of_getElem? h)
  | round k => exact .inr (List.mem_of_getElem? h)

private theorem Enters.not_inSyncOnce (h : s.Enters T) : ¬ s.InSyncOnce T := by
  intro h'
  cases T with
  | loop k => cases h.symm.trans h'
  | round k => cases h.symm.trans h'

/-- A new task at the end of a list stands elsewhere. -/
private theorem getElem?_concat_iff {α : Type} {l : List α} {x y : α} (hxy : x ≠ y) (k : ℕ) :
    (l ++ [x])[k]? = some y ↔ l[k]? = some y := by
  rcases Nat.lt_trichotomy k l.length with hlt | rfl | hgt
  · rw [List.getElem?_append_left hlt]
  · simp [hxy]
  · rw [List.getElem?_eq_none hgt.le, List.getElem?_eq_none]
    simpa using Nat.succ_le_of_lt hgt

/-- A task comes into `sync_once` by a step of its own, and it leaves by one. -/
private theorem Step.inSyncOnce_iff (h : Step s a s') (T : RunnerTask) :
    s'.InSyncOnce T ↔ s.InSyncOnce T ∧ a ≠ T.action ∨ s.Enters T ∧ a = T.action := by
  have hcall : ¬ a.IsTask → a ≠ T.action := by
    rintro h rfl
    exact h T.isTask_action
  cases h with
  | started | stop | reconnect | setOnline | syncNow | start =>
    have hne := hcall id
    cases T <;> simp [InSyncOnce, hne, getElem?_concat_iff]
  | @loop k pc pc' hat hnext =>
    cases T with
    | round j => simp [InSyncOnce, RunnerTask.action]
    | loop j =>
      obtain ⟨hk, -⟩ := List.getElem?_eq_some_iff.mp hat
      rcases eq_or_ne k j with rfl | hkj
      · refine ⟨fun hin => .inr ⟨?_, rfl⟩, ?_⟩
        · obtain rfl := Option.some.inj ((List.getElem?_set_self hk).symm.trans hin)
          obtain rfl := LoopPc.next_eq_syncing_iff.mp hnext
          exact hat
        · rintro (⟨-, hne⟩ | ⟨henter, -⟩)
          · exact absurd rfl hne
          · obtain rfl := Option.some.inj (hat.symm.trans henter)
            exact (List.getElem?_set_self hk).trans hnext.symm
      · simp [InSyncOnce, Enters, RunnerTask.action, hkj]
  | @round k pc pc' hat hnext =>
    cases T with
    | loop j => simp [InSyncOnce, RunnerTask.action]
    | round j =>
      obtain ⟨hk, -⟩ := List.getElem?_eq_some_iff.mp hat
      rcases eq_or_ne k j with rfl | hkj
      · refine ⟨fun hin => .inr ⟨?_, rfl⟩, ?_⟩
        · obtain rfl := Option.some.inj ((List.getElem?_set_self hk).symm.trans hin)
          obtain rfl := RoundPc.next_eq_syncing_iff.mp hnext
          exact hat
        · rintro (⟨-, hne⟩ | ⟨henter, -⟩)
          · exact absurd rfl hne
          · obtain rfl := Option.some.inj (hat.symm.trans henter)
            exact (List.getElem?_set_self hk).trans hnext.symm
      · simp [InSyncOnce, Enters, RunnerTask.action, hkj]

end SyncRunner

/-! ### The phones -/

/-- The devices with their runners. -/
structure Phones (ι : Type) where
  system : System ι
  runner : ι → SyncRunner
  /-- Where each task is in `sync_once`. -/
  once : ι → RunnerTask → Option SyncOncePc
  /-- The task whose `sync` has the log of a device locked. -/
  active : ι → Option RunnerTask
  /-- The task whose rebuild has the storage of a device locked. -/
  rebuilder : ι → Option RunnerTask
  /-- The listener the app has registered. -/
  listener : ι → Option ℕ

/-- The steps of the phones. -/
inductive PhoneAction (ι : Type)
  /-- `start`, `stop`, `set_online` or `sync_now`. -/
  | call (d : ι) (a : RunnerAction)
  | setListener (d : ι) (l : ℕ)
  /-- A step of a task outside `sync_once`, or its call, or its return. -/
  | task (d : ι) (T : RunnerTask)
  /-- A task in `sync_once` gets the log. -/
  | lockLog (d : ι) (T : RunnerTask)
  /-- A step of the `sync` that has the log, or of the network. -/
  | sync (a : SyncAction ι)
  /-- A task in `sync_once` gets the storage: its ids are the `k`-th that wait. -/
  | lockStorage (d : ι) (T : RunnerTask) (k : ℕ)
  /-- A step of a service operation, or of the rebuild that has the storage. -/
  | storage (a : Action ι)
  /-- The registered listener is called, if there is one. -/
  | notify (d : ι) (T : RunnerTask)

/-- The phone an action belongs to. -/
def PhoneAction.device {ι : Type} : PhoneAction ι → Option ι
  | .call d _ | .setListener d _ | .task d _ | .lockLog d _ | .lockStorage d _ _
  | .notify d _ => some d
  | .sync a => a.device
  | .storage a => a.device

namespace Net

variable {ι : Type}

/-- The device whose `sync` an action ends, with the ids that `sync` touched if it returns
`Ok`. -/
def ends (s : Net ι) : SyncAction ι → Option (ι × List ItemId)
  | .fail d => some (d, [])
  | a => s.returns a

/-- A round ends with an error or at an empty page. -/
theorem ends_eq_some {s : Net ι} {a : SyncAction ι} {d : ι} {touched : List ItemId}
    (h : s.ends a = some (d, touched)) :
    a = .fail d ∧ touched = [] ∨ s.returns a = some (d, touched) := by
  cases a with
  | fail =>
    obtain ⟨rfl, rfl⟩ := Prod.mk.inj (Option.some.inj h)
    exact .inl ⟨rfl, rfl⟩
  | _ => exact .inr h

theorem not_begins_of_ends {s : Net ι} {a : SyncAction ι} {d : ι} {touched : List ItemId}
    (h : s.ends a = some (d, touched)) (e : ι) (batch : ℕ) :
    a ≠ .beginRound e batch ∧ a ≠ .newRunner e := by
  constructor <;> rintro rfl <;> cases h

theorem device_of_ends {s : Net ι} {a : SyncAction ι} {d : ι} {touched : List ItemId}
    (h : s.ends a = some (d, touched)) : a.device = some d := by
  rcases ends_eq_some h with ⟨rfl, -⟩ | h
  · rfl
  · obtain ⟨rfl, -⟩ := returns_eq_some h
    rfl

variable [DecidableEq ι] {s s' : Net ι} {a : SyncAction ι} {d : ι}

/-- A round that is under way goes on until an action ends it. -/
private theorem Step.round_eq_none_iff (h : Step s (.sync a) s')
    (ha : ∀ d batch, a ≠ .beginRound d batch ∧ a ≠ .newRunner d) :
    s'.round d = none ↔ s.round d = none ∨ ∃ touched, s.ends a = some (d, touched) := by
  by_cases hd : a.device = some d
  · cases h with
    | beginRound => exact absurd rfl (ha _ _).1
    | newRunner => exact absurd rfl (ha _ 0).2
    | deliver => cases hd
    | @finish d' batch touched page phase empty =>
      obtain rfl := Option.some.inj hd
      have hends : s.ends (.take d') = some (d', touched) := by simp [ends, returns, phase, empty]
      simp [hends]
    | @take d' batch touched page phase more =>
      obtain rfl := Option.some.inj hd
      simp [setRound, phase, ends, returns, more]
    | @fail d' batch phase hphase pending =>
      obtain rfl := Option.some.inj hd
      simp [ends]
    | pushed phase | send phase | handle phase | ack phase | answer phase =>
      obtain rfl := Option.some.inj hd
      simp [setRound, phase, ends, returns]
  · have hnot : ∀ touched, s.ends a ≠ some (d, touched) := fun _ h => hd (device_of_ends h)
    rw [(h.frame hd).2.2]
    simp [hnot]

end Net

namespace Phones

variable {ι : Type} [DecidableEq ι]

def setRunner (s : Phones ι) (d : ι) (runner : SyncRunner) : Phones ι :=
  { s with runner := Function.update s.runner d runner }

/-- Move a task in `sync_once`, or out of it. -/
def setOnce (s : Phones ι) (d : ι) (T : RunnerTask) (pc : Option SyncOncePc) : Phones ι :=
  { s with once := Function.update s.once d (Function.update (s.once d) T pc) }

/-- One step of the phones; `none` when it is not enabled. -/
def step (s : Phones ι) : PhoneAction ι → Option (Phones ι)
  | .call d a =>
    if a.IsTask then none else ((s.runner d).step a).map (s.setRunner d)
  | .setListener d l => some { s with listener := Function.update s.listener d (some l) }
  | .task d T =>
    ((s.runner d).step T.action).bind fun runner =>
      match s.once d T with
      | none =>
        if (s.runner d).Enters T then some ((s.setRunner d runner).setOnce d T (some .log))
        else some (s.setRunner d runner)
      | some .returned => some ((s.setRunner d runner).setOnce d T none)
      | some _ => none
  | .lockLog d T =>
    match s.once d T with
    | some .log =>
      (s.system.step (.sync (.beginRound d syncBatch))).map fun system =>
        { s.setOnce d T (some .syncing) with
          system
          active := Function.update s.active d (some T) }
    | _ => none
  -- a round begins in `lockLog`, and a phone keeps its runner
  | .sync (.beginRound _ _) | .sync (.newRunner _) => none
  | .sync a =>
    (s.system.step (.sync a)).bind fun system =>
      match s.system.net.ends a with
      | none => some { s with system }
      | some (d, touched) =>
        (s.active d).map fun T =>
          { s.setOnce d T (some (.after touched)) with
            system
            active := Function.update s.active d none }
  | .lockStorage d T k =>
    match s.once d T with
    | some (.storage touched) =>
      if (s.system.waiting d)[k]? = some touched then
        (s.system.step (.lockRebuild d k)).map fun system =>
          { s.setOnce d T (some (.rebuilding touched)) with
            system
            rebuilder := Function.update s.rebuilder d (some T) }
      else none
    | _ => none
  | .storage (.sync _) | .storage (.lockRebuild _ _) => none
  | .storage (.unlock d) =>
    (s.system.step (.unlock d)).map fun system =>
      match s.rebuilder d with
      | none => { s with system }
      | some T =>
        { s.setOnce d T (some .notify) with
          system
          rebuilder := Function.update s.rebuilder d none }
  | .storage a => (s.system.step a).map fun system => { s with system }
  | .notify d T =>
    match s.once d T with
    | some .notify => some (s.setOnce d T (some .returned))
    | _ => none

/-- The phones at the start: their stores empty, nothing started, no listener. -/
def Init (s : Phones ι) : Prop :=
  s.system.Init ∧ ∀ d, s.runner d = .new ∧ s.active d = none ∧ s.rebuilder d = none ∧
    s.listener d = none ∧ ∀ T, s.once d T = none

/-- The initial state over given replica identities. -/
def start (provider : ι → ReplicaIdProvider) : Phones ι where
  system := .start provider
  runner _ := .new
  once _ _ := none
  active _ := none
  rebuilder _ := none
  listener _ := none

/-- The phones as a machine. -/
def machine (ι : Type) [DecidableEq ι] : Machine (Phones ι) (PhoneAction ι) where
  init := Init
  step := step

/-! ### What a step can do -/

/-- The steps of the phones, one case for each way an enabled action can go. -/
inductive Step (s : Phones ι) : PhoneAction ι → Phones ι → Prop
  | call {d a runner} (app : ¬ a.IsTask) (step : SyncRunner.Step (s.runner d) a runner) :
      Step s (.call d a) (s.setRunner d runner)
  | setListener {d l} : Step s (.setListener d l)
      { s with listener := Function.update s.listener d (some l) }
  | outside {d T runner} (outside : s.once d T = none)
      (step : SyncRunner.Step (s.runner d) T.action runner) (stays : ¬ (s.runner d).Enters T) :
      Step s (.task d T) (s.setRunner d runner)
  | enter {d T runner} (outside : s.once d T = none)
      (step : SyncRunner.Step (s.runner d) T.action runner) (enters : (s.runner d).Enters T) :
      Step s (.task d T) ((s.setRunner d runner).setOnce d T (some .log))
  | leave {d T runner} (returned : s.once d T = some .returned)
      (step : SyncRunner.Step (s.runner d) T.action runner) :
      Step s (.task d T) ((s.setRunner d runner).setOnce d T none)
  | lockLog {d T system} (waits : s.once d T = some .log)
      (step : (System.machine ι).step s.system (.sync (.beginRound d syncBatch)) = some system) :
      Step s (.lockLog d T) { s.setOnce d T (some .syncing) with
        system
        active := Function.update s.active d (some T) }
  | sync {a system} (round : ∀ d batch, a ≠ .beginRound d batch ∧ a ≠ .newRunner d)
      (step : (System.machine ι).step s.system (.sync a) = some system)
      (goes : s.system.net.ends a = none) : Step s (.sync a) { s with system }
  | ends {a d T touched system} (step : (System.machine ι).step s.system (.sync a) = some system)
      (ends : s.system.net.ends a = some (d, touched)) (active : s.active d = some T) :
      Step s (.sync a) { s.setOnce d T (some (.after touched)) with
        system
        active := Function.update s.active d none }
  | lockStorage {d T k touched system} (waits : s.once d T = some (.storage touched))
      (mem : (s.system.waiting d)[k]? = some touched)
      (step : (System.machine ι).step s.system (.lockRebuild d k) = some system) :
      Step s (.lockStorage d T k) { s.setOnce d T (some (.rebuilding touched)) with
        system
        rebuilder := Function.update s.rebuilder d (some T) }
  | rebuilt {d T system} (step : (System.machine ι).step s.system (.unlock d) = some system)
      (rebuilder : s.rebuilder d = some T) :
      Step s (.storage (.unlock d)) { s.setOnce d T (some .notify) with
        system
        rebuilder := Function.update s.rebuilder d none }
  | storage {a system} (sync : ∀ b, a ≠ .sync b) (lock : ∀ d k, a ≠ .lockRebuild d k)
      (service : ∀ d, a = .unlock d → s.rebuilder d = none)
      (step : (System.machine ι).step s.system a = some system) :
      Step s (.storage a) { s with system }
  | notify {d T} (waits : s.once d T = some .notify) :
      Step s (.notify d T) (s.setOnce d T (some .returned))

/-- An enabled step is one of the cases of `Step`. -/
private theorem step_cases {s s' : Phones ι} {a : PhoneAction ι}
    (h : (machine ι).step s a = some s') : Step s a s' := by
  simp only [machine] at h
  cases a with
  | call d a =>
    simp only [step] at h
    split_ifs at h with htask
    obtain ⟨runner, hrunner, rfl⟩ := Option.map_eq_some_iff.mp h
    exact .call htask (SyncRunner.step_cases hrunner)
  | setListener d l => exact Option.some.inj h ▸ .setListener
  | task d T =>
    obtain ⟨runner, hrunner, h⟩ := Option.bind_eq_some_iff.mp h
    have hstep := SyncRunner.step_cases hrunner
    split at h
    next hout =>
      split_ifs at h with henters
      · exact Option.some.inj h ▸ .enter hout hstep henters
      · exact Option.some.inj h ▸ .outside hout hstep henters
    next hreturned => exact Option.some.inj h ▸ .leave hreturned hstep
    next => cases h
  | lockLog d T =>
    simp only [step] at h
    split at h
    next hlog =>
      obtain ⟨system, hsystem, rfl⟩ := Option.map_eq_some_iff.mp h
      exact .lockLog hlog hsystem
    next => cases h
  | sync a =>
    have hround : ∀ d batch, a ≠ .beginRound d batch ∧ a ≠ .newRunner d := by
      rintro d batch
      constructor <;> rintro rfl <;> cases h
    obtain ⟨system, hsystem, h⟩ : ∃ system, s.system.step (.sync a) = some system ∧
        (match s.system.net.ends a with
          | none => some { s with system }
          | some (d, touched) => (s.active d).map fun T =>
            { s.setOnce d T (some (.after touched)) with
              system
              active := Function.update s.active d none }) = some s' := by
      cases a with
      | beginRound | newRunner => cases h
      | _ => exact Option.bind_eq_some_iff.mp h
    split at h
    next hgoes => exact Option.some.inj h ▸ .sync hround hsystem hgoes
    next d touched hends =>
      obtain ⟨T, hactive, rfl⟩ := Option.map_eq_some_iff.mp h
      exact .ends hsystem hends hactive
  | lockStorage d T k =>
    simp only [step] at h
    split at h
    next touched hwaits =>
      split_ifs at h with hmem
      obtain ⟨system, hsystem, rfl⟩ := Option.map_eq_some_iff.mp h
      exact .lockStorage hwaits hmem hsystem
    next => cases h
  | storage a =>
    cases a with
    | sync | lockRebuild => cases h
    | unlock d =>
      obtain ⟨system, hsystem, hs'⟩ := Option.map_eq_some_iff.mp h
      split at hs'
      next hnone =>
        subst hs'
        refine .storage (fun _ => by simp) (fun _ _ => by simp) (fun d' hd => ?_) hsystem
        rw [← Action.unlock.inj hd]
        exact hnone
      next T hT => exact hs' ▸ .rebuilt hsystem hT
    | _ =>
      obtain ⟨system, hsystem, rfl⟩ := Option.map_eq_some_iff.mp h
      exact .storage (by simp) (by simp) (by simp) hsystem
  | notify d T =>
    simp only [step] at h
    split at h
    next hwaits => exact Option.some.inj h ▸ .notify hwaits
    next => cases h

/-! ### How the views fit together -/

section
variable {s s' : Phones ι} {a : PhoneAction ι} {d e : ι} {T T' : RunnerTask}
  {pc : Option SyncOncePc}

@[simp] theorem once_setOnce_self : (s.setOnce d T pc).once d T = pc := by
  simp [setOnce]

theorem once_setOnce_of_ne (h : T' ≠ T) : (s.setOnce d T pc).once d T' = s.once d T' := by
  simp [setOnce, h]

theorem once_setOnce_of_device_ne (h : e ≠ d) : (s.setOnce d T pc).once e = s.once e :=
  Function.update_of_ne h _ s.once

/-- A step leaves the other phones as they are. -/
theorem Step.frame (h : Step s a s') (hd : a.device ≠ some d) :
    s'.runner d = s.runner d ∧ s'.once d = s.once d ∧ s'.active d = s.active d ∧
      s'.rebuilder d = s.rebuilder d ∧ s'.listener d = s.listener d := by
  have hne : ∀ {d' : ι}, some d' ≠ some d → d ≠ d' := by
    rintro d' h rfl
    exact h rfl
  cases h with
  | call | outside => exact ⟨Function.update_of_ne (hne hd) _ _, rfl, rfl, rfl, rfl⟩
  | setListener => exact ⟨rfl, rfl, rfl, rfl, Function.update_of_ne (hne hd) _ _⟩
  | enter | leave =>
    exact ⟨Function.update_of_ne (hne hd) _ _, once_setOnce_of_device_ne (hne hd), rfl, rfl, rfl⟩
  | lockLog =>
    exact ⟨rfl, once_setOnce_of_device_ne (hne hd), Function.update_of_ne (hne hd) _ _, rfl, rfl⟩
  | sync | storage => exact ⟨rfl, rfl, rfl, rfl, rfl⟩
  | @ends a d' T touched system step ends active =>
    have hd' : d ≠ d' := by
      rintro rfl
      exact hd (Net.device_of_ends ends)
    exact ⟨rfl, once_setOnce_of_device_ne hd', Function.update_of_ne hd' _ _, rfl, rfl⟩
  | lockStorage | rebuilt =>
    exact ⟨rfl, once_setOnce_of_device_ne (hne hd), rfl, Function.update_of_ne (hne hd) _ _, rfl⟩
  | notify => exact ⟨rfl, once_setOnce_of_device_ne (hne hd), rfl, rfl, rfl⟩

end

/-- The views of a phone agree: a task is in `sync_once` for the runner when it is somewhere there,
it has the log when a round is under way, and the storage when it rebuilds. -/
structure Wired (s : Phones ι) (d : ι) : Prop where
  once : ∀ T, s.once d T ≠ none ↔ (s.runner d).InSyncOnce T
  active : ∀ T, s.active d = some T ↔ s.once d T = some .syncing
  round : s.system.net.round d = none ↔ s.active d = none
  rebuilder : ∀ T, s.rebuilder d = some T ↔ ∃ touched, s.once d T = some (.rebuilding touched)
  lock : s.rebuilder d ≠ none → s.system.lock d ≠ none

/-- What an action of the phones is for their stores. -/
def systemAction : PhoneAction ι → Option (Action ι)
  | .lockLog d _ => some (.sync (.beginRound d syncBatch))
  | .sync a => some (.sync a)
  | .lockStorage d _ k => some (.lockRebuild d k)
  | .storage a => some a
  | .call _ _ | .setListener _ _ | .task _ _ | .notify _ _ => none

/-- **A step of the phones is a step of their stores, or leaves them idle.** -/
theorem Step.system {s s' : Phones ι} {a : PhoneAction ι} (h : Step s a s') :
    (System.machine ι).stuttering.step s.system (systemAction a) = some s'.system := by
  cases h with
  | call | setListener | outside | enter | leave | notify => rfl
  | lockLog _ step | sync _ step | ends step | lockStorage _ _ step | rebuilt step
  | storage _ _ _ step => exact step

/-- The protocol within the phones. -/
def net (s : Phones ι) : Net ι :=
  s.system.net

/-- What an action of the phones is for the protocol. -/
def netAction (s : Phones ι) (a : PhoneAction ι) : Option (NetAction ι) :=
  (systemAction a).bind s.system.netAction

theorem Step.net {s s' : Phones ι} {a : PhoneAction ι} (h : Step s a s') :
    (Net.machine ι).stuttering.step s.net (s.netAction a) = some s'.net := by
  have hsystem := h.system
  rw [netAction]
  cases ha : systemAction a with
  | none =>
    rw [ha] at hsystem
    exact congrArg (Option.map System.net) hsystem
  | some b =>
    rw [ha] at hsystem
    exact System.netStep hsystem

end Phones

/-! ### What a step of the stores leaves alone -/

namespace System

variable {ι : Type} [DecidableEq ι] {s s' : System ι} {a : Action ι} {d : ι}

private theorem Step.round_eq (h : Step s a s') (ha : ∀ b, a ≠ .sync b) :
    s'.net.round = s.net.round := by
  cases h with
  | sync => exact absurd rfl (ha _)
  | append _ _ author =>
    cases (Net.step_cases author : Net.Step s.net (.author _ _ _) _) with
    | author => rfl
  | _ => rfl

private theorem Step.round_frame (h : Step s a s') (ha : ∀ b, a = .sync b → b.device ≠ some d) :
    s'.net.round d = s.net.round d := by
  cases h with
  | sync step =>
    exact ((Net.step_cases step : Net.Step s.net (.sync _) _).frame (ha _ rfl)).2.2
  | append _ _ author =>
    cases (Net.step_cases author : Net.Step s.net (.author _ _ _) _) with
    | author => rfl
  | _ => rfl

/-- A lock that is held is freed by an `unlock`. -/
private theorem Step.lock_ne_none (h : Step s a s') (hheld : s.lock d ≠ none) (ha : a ≠ .unlock d) :
    s'.lock d ≠ none := by
  cases h.lockStep d with
  | keep same => rwa [same]
  | acquire free => exact absurd free hheld
  | append _ next | read _ next | write _ next =>
    rw [next]
    exact Option.some_ne_none _
  | unlock => exact absurd rfl ha

end System

namespace Phones

variable {ι : Type} [DecidableEq ι] {s s' : Phones ι} {a : PhoneAction ι} {d : ι}

/-- A step leaves the round and the storage of the other phones as they are. -/
private theorem Step.frame_system (h : Step s a s') (hd : a.device ≠ some d) :
    s'.system.net.round d = s.system.net.round d ∧ s'.system.lock d = s.system.lock d := by
  have hkeep : ∀ {b system}, (System.machine ι).step s.system b = some system →
      b.device ≠ some d → (∀ c, b = .sync c → c.device ≠ some d) →
      system.net.round d = s.system.net.round d ∧ system.lock d = s.system.lock d := by
    intro b system step hb hc
    have hstep := System.step_cases step
    exact ⟨hstep.round_frame hc, (hstep.frame hb).2.1⟩
  cases h with
  | lockLog _ step | sync _ step | ends step =>
    exact hkeep step (by simp [Action.device]) fun c hc => Action.sync.inj hc ▸ hd
  | lockStorage _ _ step | rebuilt step => exact hkeep step hd (by simp)
  | storage sync _ _ step => exact hkeep step hd fun c hc => absurd hc (sync c)
  | _ => exact ⟨rfl, rfl⟩

/-- A step of a task, as the runner sees it. -/
private theorem Wired.once_of_task {runner : SyncRunner} {T : RunnerTask} (h : s.Wired d)
    (step : SyncRunner.Step (s.runner d) T.action runner) (pc : Option SyncOncePc)
    (hpc : pc ≠ none ↔ (s.runner d).Enters T) (T' : RunnerTask) :
    ((s.setRunner d runner).setOnce d T pc).once d T' ≠ none ↔
      (((s.setRunner d runner).setOnce d T pc).runner d).InSyncOnce T' := by
  have hrunner : ((s.setRunner d runner).setOnce d T pc).runner d = runner := by
    simp [setOnce, setRunner]
  rw [hrunner, step.inSyncOnce_iff T']
  rcases eq_or_ne T' T with rfl | hne
  · simpa using hpc
  · have haction : T.action ≠ T'.action := fun heq => hne (RunnerTask.action_inj heq).symm
    rw [once_setOnce_of_ne hne]
    simpa [haction, setRunner] using h.once T'

/-- A task moves within `sync_once`. -/
private theorem Wired.once_setOnce (h : s.Wired d) {T : RunnerTask} {pc : SyncOncePc}
    (hT : s.once d T ≠ none) (T' : RunnerTask) :
    (s.setOnce d T (some pc)).once d T' ≠ none ↔ (s.runner d).InSyncOnce T' := by
  rcases eq_or_ne T' T with rfl | hne
  · simpa using (h.once T').mp hT
  · rw [once_setOnce_of_ne hne, h.once T']

/-- A task moves that neither had the log nor gets it. -/
private theorem Wired.active_setOnce (h : s.Wired d) {T : RunnerTask} {pc : Option SyncOncePc}
    (hT : s.once d T ≠ some .syncing) (hpc : pc ≠ some .syncing) (T' : RunnerTask) :
    s.active d = some T' ↔ (s.setOnce d T pc).once d T' = some .syncing := by
  rcases eq_or_ne T' T with rfl | hne
  · simp [h.active T', hT, hpc]
  · rw [once_setOnce_of_ne hne, h.active T']

/-- A task moves that neither had the storage nor gets it. -/
private theorem Wired.rebuilder_setOnce (h : s.Wired d) {T : RunnerTask} {pc : Option SyncOncePc}
    (hT : ∀ touched, s.once d T ≠ some (.rebuilding touched))
    (hpc : ∀ touched, pc ≠ some (.rebuilding touched)) (T' : RunnerTask) :
    s.rebuilder d = some T' ↔
      ∃ touched, (s.setOnce d T pc).once d T' = some (.rebuilding touched) := by
  rcases eq_or_ne T' T with rfl | hne
  · simp [h.rebuilder T', hT, hpc]
  · rw [once_setOnce_of_ne hne, h.rebuilder T']

omit [DecidableEq ι] in
private theorem Wired.init (h : s.Init) (d : ι) : s.Wired d := by
  obtain ⟨hsystem, hd⟩ := h
  obtain ⟨hrunner, hactive, hrebuilder, -, honce⟩ := hd d
  refine ⟨fun T => ?_, fun T => ?_, ?_, fun T => ?_, fun hne => absurd hrebuilder hne⟩
  · cases T <;> simp [honce, hrunner, SyncRunner.InSyncOnce, SyncRunner.new]
  · simp [hactive, honce]
  · simp [hactive, (hsystem.1.2.2.2 d).2.2]
  · simp [hrebuilder, honce]

/-- **Every step keeps the views together.** -/
theorem Wired.step (h : s.Wired d) (hstep : Step s a s') : s'.Wired d := by
  by_cases hd : a.device = some d
  · cases hstep with
    | @call d' a runner app step =>
      obtain rfl := Option.some.inj hd
      have hne : ∀ T : RunnerTask, a ≠ T.action := by
        rintro T rfl
        exact app T.isTask_action
      refine ⟨fun T => (h.once T).trans ?_, h.active, h.round, h.rebuilder, h.lock⟩
      simp [setRunner, step.inSyncOnce_iff T, hne T]
    | setListener => exact ⟨h.once, h.active, h.round, h.rebuilder, h.lock⟩
    | @outside d' T runner outside step stays =>
      obtain rfl := Option.some.inj hd
      have hsame : (s.setRunner d' runner).setOnce d' T none = s.setRunner d' runner := by
        simp [setOnce, setRunner, ← outside]
      have honce := h.once_of_task step none (by simpa using stays)
      rw [hsame] at honce
      exact ⟨honce, h.active, h.round, h.rebuilder, h.lock⟩
    | @enter d' T runner outside step enters =>
      obtain rfl := Option.some.inj hd
      exact ⟨h.once_of_task step (some .log) (by simpa using enters),
        h.active_setOnce (by simp [outside]) (by simp), h.round,
        h.rebuilder_setOnce (by simp [outside]) (by simp), h.lock⟩
    | @leave d' T runner returned step =>
      obtain rfl := Option.some.inj hd
      have hin : (s.runner d').InSyncOnce T := (h.once T).mp (by simp [returned])
      have hnot : ¬ (s.runner d').Enters T := fun henters => henters.not_inSyncOnce hin
      exact ⟨h.once_of_task step none (by simpa using hnot),
        h.active_setOnce (by simp [returned]) (by simp), h.round,
        h.rebuilder_setOnce (by simp [returned]) (by simp), h.lock⟩
    | @lockLog d' T system waits step =>
      obtain rfl := Option.some.inj hd
      obtain ⟨net, hnet, rfl⟩ := Option.map_eq_some_iff.mp step
      have hbegin : Net.Step s.system.net (.sync (.beginRound d' syncBatch)) net :=
        Net.step_cases hnet
      cases hbegin with
      | beginRound idle =>
        have hactive := h.round.mp idle
        have hnone : ∀ T', s.once d' T' ≠ some .syncing := fun T' hT' => by
          simpa [hactive] using (h.active T').mpr hT'
        refine ⟨h.once_setOnce (by simp [waits]), fun T' => ?_, by simp,
          h.rebuilder_setOnce (by simp [waits]) (by simp), h.lock⟩
        rcases eq_or_ne T' T with rfl | hne
        · simp [setOnce]
        · simpa [setOnce, hne, hne.symm] using hnone T'
    | @sync a system round step goes =>
      obtain ⟨net, hnet, rfl⟩ := Option.map_eq_some_iff.mp step
      have hround := (Net.step_cases hnet : Net.Step _ (.sync a) _).round_eq_none_iff round (d := d)
      refine ⟨h.once, h.active, ?_, h.rebuilder, h.lock⟩
      simpa [goes] using hround.trans (or_iff_left (by simp [goes])) |>.trans h.round
    | @ends a d' T touched system step ends active =>
      obtain rfl := Option.some.inj ((Net.device_of_ends ends).symm.trans hd)
      obtain ⟨net, hnet, rfl⟩ := Option.map_eq_some_iff.mp step
      have hround : net.round d' = none :=
        ((Net.step_cases hnet : Net.Step _ (.sync a) _).round_eq_none_iff
          (Net.not_begins_of_ends ends)).mpr (.inr ⟨touched, ends⟩)
      have hsyncing := (h.active T).mp active
      refine ⟨h.once_setOnce (by simp [hsyncing]), fun T' => ?_, by simp [hround],
        h.rebuilder_setOnce (by simp [hsyncing]) (by simp [SyncOncePc.after_ne_rebuilding]),
        h.lock⟩
      rcases eq_or_ne T' T with rfl | hne
      · simp [setOnce, SyncOncePc.after_ne_syncing]
      · have hnot : s.once d' T' ≠ some .syncing := by
          rw [Ne, ← h.active T', active]
          simpa using hne.symm
        simpa [setOnce, hne] using hnot
    | @lockStorage d' T k touched system waits mem step =>
      obtain rfl := Option.some.inj hd
      have hlock := System.step_cases step
      have hround := hlock.round_eq (by simp)
      cases hlock with
      | lockRebuild free =>
        -- no task rebuilds, for the lock is free
        have hnone : s.rebuilder d' = none := by
          by_contra hne
          exact h.lock hne free
        refine ⟨h.once_setOnce (by simp [waits]), h.active_setOnce (by simp [waits]) (by simp),
          (by rw [hround]; exact h.round), fun T' => ?_, fun _ => by simp [System.setLock]⟩
        rcases eq_or_ne T' T with rfl | hne
        · simp [setOnce]
        · have hnot := (h.rebuilder T').not.mp (by simp [hnone])
          simpa [setOnce, hne, hne.symm] using hnot
    | @rebuilt d' T system step rebuilder =>
      obtain rfl := Option.some.inj hd
      have hround := (System.step_cases step).round_eq (by simp)
      obtain ⟨touched, hT⟩ := (h.rebuilder T).mp rebuilder
      refine ⟨h.once_setOnce (by simp [hT]), h.active_setOnce (by simp [hT]) (by simp),
        (by rw [hround]; exact h.round), fun T' => ?_, by simp⟩
      rcases eq_or_ne T' T with rfl | hne
      · simp [setOnce]
      · have hnot := (h.rebuilder T').not.mp (by simpa [rebuilder] using hne.symm)
        simpa [setOnce, hne] using hnot
    | @storage a system sync lock service step =>
      have hstorage := System.step_cases step
      refine ⟨h.once, h.active, ?_, h.rebuilder, fun hne => ?_⟩
      · rw [hstorage.round_eq sync, h.round]
      · refine hstorage.lock_ne_none (h.lock hne) ?_
        rintro rfl
        exact hne (service d rfl)
    | @notify d' T waits =>
      obtain rfl := Option.some.inj hd
      exact ⟨h.once_setOnce (by simp [waits]), h.active_setOnce (by simp [waits]) (by simp),
        h.round, h.rebuilder_setOnce (by simp [waits]) (by simp), h.lock⟩
  · obtain ⟨hrunner, honce, hactive, hrebuilder, -⟩ := hstep.frame hd
    obtain ⟨hround, hlock⟩ := hstep.frame_system hd
    exact ⟨by rw [hrunner, honce]; exact h.once, by rw [hactive, honce]; exact h.active,
      by rw [hround, hactive]; exact h.round, by rw [hrebuilder, honce]; exact h.rebuilder,
      by rw [hrebuilder, hlock]; exact h.lock⟩

end Phones

/-- The runs of the phones. -/
abbrev PhoneRun (ι : Type) [DecidableEq ι] : Type :=
  (Phones.machine ι).Run

namespace PhoneRun

variable {ι : Type} [DecidableEq ι] {r : PhoneRun ι} {d : ι} {t : ℕ}

theorem step_cases (r : PhoneRun ι) (ht : t < r.length) :
    Phones.Step (r.state t) (r.act t) (r.state (t + 1)) :=
  Phones.step_cases (r.step_state t ht)

/-- What the stores of the phones do in a run. -/
def systemRun (r : PhoneRun ι) : (System.machine ι).stuttering.Run :=
  r.project Phones.system (fun _ => Phones.systemAction) (fun _ (h : Phones.Init _) => h.1)
    fun _ _ _ h => (Phones.step_cases h).system

/-- **The run of the protocol within a run of the phones**, along the same times. -/
def netRun (r : PhoneRun ι) : NetRun ι :=
  r.project Phones.net Phones.netAction (fun _ (h : Phones.Init _) => h.1.1)
    fun _ _ _ h => (Phones.step_cases h).net

/-- **In every run the views of a phone agree**: the tasks in `sync_once`, the round under way and
the locks. -/
theorem wired (r : PhoneRun ι) (d : ι) (ht : t ≤ r.length) : (r.state t).Wired d :=
  r.invariant (P := fun s => s.Wired d) (fun _ h => .init h d)
    (fun _ _ _ h hstep => h.step (Phones.step_cases hstep)) ht

/-- The run that executes a list of actions, over given replica identities. -/
def ofList (provider : ι → ReplicaIdProvider) (actions : List (PhoneAction ι)) (a₀ : PhoneAction ι)
    (h : ((Phones.machine ι).exec (.start provider) actions).isSome) : PhoneRun ι :=
  Machine.Run.ofList (Phones.machine ι) (.start provider)
    ⟨System.init_start provider, fun _ => ⟨rfl, rfl, rfl, rfl, fun _ => rfl⟩⟩ actions a₀ h

end PhoneRun

end OfflineSync
