import OfflineSync.Lib.LockOrder
import OfflineSync.SyncEngine
import OfflineSync.Device

/-!
# The locks of a device

The mutexes that the tasks of one device share: those of the item storage and of the log, wired by
`EventSourcedStores::new`, and for each `SyncRunner` over these stores the one of its sync state and
the one of its listener. Each function that locks one of them is here the list of what it does with
them, after `shared/src/item_storage.rs`, `client-sdk/src/item_service.rs` and
`client-sdk/src/sync_runner.rs`.

The service asks for the log with the storage locked; a round lets go of the log, which it holds
across its requests, before it asks for the storage. So all follow one order, and the device never
deadlocks (`no_deadlock`): as long as some task is not through, one of them has a step. Who gets a
free lock among those that wait for it is left open; the queues of the mutexes are one order. No
lock is held while the listener runs, so its calls are calls like all others, made in the task that
notifies or in tasks of their own. A background loop holds nothing between two ticks, so each tick
is a task.

The storage tasks of `OfflineSync.Device` run along these programs (`System.Step.inCall`,
`System.LockStep.program`), and no call is stuck there either (`System.exists_continues`).
-/

namespace OfflineSync

open LockOp

/-- The mutexes of a device. Each runner over its stores has two of its own. -/
inductive DeviceLock
  | storage
  | log
  | syncState (runner : ℕ)
  | listener (runner : ℕ)
deriving DecidableEq, Repr

/-- The order in which they are taken. -/
def DeviceLock.rank : DeviceLock → ℕ
  | .storage => 0
  | .log => 1
  | .syncState _ => 2
  | .listener _ => 3

namespace DeviceLock

/-- `ItemStorage::build_projection`: the log is locked for `events_of_entity`. -/
def buildProjection : List (LockOp DeviceLock) :=
  holding .log []

/-- `ItemStorage::store`: the log is locked for `append_local`, and then for the projection. -/
def store : List (LockOp DeviceLock) :=
  holding .log [] ++ buildProjection

/-- `create_item`. -/
def createItem : List (LockOp DeviceLock) :=
  holding .storage store

/-- `set_quantity`, `rename`, `set_note` or `delete`, with the item found or not. -/
def edit (found : Bool) : List (LockOp DeviceLock) :=
  holding .storage (if found then store else [])

/-- `items`. -/
def items : List (LockOp DeviceLock) :=
  holding .storage []

/-- `set_listener`. -/
def setListener (runner : ℕ) : List (LockOp DeviceLock) :=
  holding (.listener runner) []

/-- `sync_once`, where `sync` returns the given result. -/
def syncOnce (runner : ℕ) (result : Except SyncError (List ItemId)) : List (LockOp DeviceLock) :=
  holding .log (holding (.syncState runner) [.answers]) ++
    match result with
    | .error _ => []
    | .ok touched =>
      if touched = [] then [] else holding .storage (touched.flatMap fun _ => buildProjection)

/-- The listener, when there is one, is called with its lock released. -/
def notify (runner : ℕ) (registered : Bool) : List (LockOp DeviceLock) :=
  holding (.listener runner) [] ++ if registered then [.callback] else []

/-- `sync_once` and, when it returns `Ok(true)`, the call of the listener. -/
def round (runner : ℕ) (result : Except SyncError (List ItemId)) (registered : Bool) :
    List (LockOp DeviceLock) :=
  syncOnce runner result ++
    match result with
    | .error _ => []
    | .ok touched => if touched = [] then [] else notify runner registered

/-- `sync_now`. -/
def syncNow (runner : ℕ) (online : Bool) (result : Except SyncError (List ItemId))
    (registered : Bool) : List (LockOp DeviceLock) :=
  if online then round runner result registered else []

/-- A tick of the loop that `start` spawns. -/
def tick (runner : ℕ) (online : Bool) (result : Except SyncError (List ItemId))
    (registered : Bool) : List (LockOp DeviceLock) :=
  if online then round runner result registered else []

/-- The task that `set_online` spawns on a reconnect. -/
def reconnect (runner : ℕ) (result : Except SyncError (List ItemId)) (registered : Bool) :
    List (LockOp DeviceLock) :=
  round runner result registered

end DeviceLock

/-- What a task of a device calls, with all that decides on its locks: what `sync` returns, the
network status, whether an item is there and whether a listener is. -/
inductive DeviceCall
  | createItem
  | edit (found : Bool)
  | items
  | setListener (runner : ℕ)
  | syncNow (runner : ℕ) (online : Bool) (result : Except SyncError (List ItemId))
      (registered : Bool)
  | tick (runner : ℕ) (online : Bool) (result : Except SyncError (List ItemId))
      (registered : Bool)
  | reconnect (runner : ℕ) (result : Except SyncError (List ItemId)) (registered : Bool)

/-- What a call does with the locks. -/
def DeviceCall.program : DeviceCall → List (LockOp DeviceLock)
  | .createItem => DeviceLock.createItem
  | .edit found => DeviceLock.edit found
  | .items => DeviceLock.items
  | .setListener runner => DeviceLock.setListener runner
  | .syncNow runner online result registered => DeviceLock.syncNow runner online result registered
  | .tick runner online result registered => DeviceLock.tick runner online result registered
  | .reconnect runner result registered => DeviceLock.reconnect runner result registered

namespace DeviceLock

variable {held : List DeviceLock}

/-! ### All calls take the locks in one order -/

private theorem orderly_buildProjection (h : ∀ l ∈ held, l.rank < 1) :
    Orderly rank held buildProjection held :=
  .holding h rfl

private theorem orderly_store (h : ∀ l ∈ held, l.rank < 1) : Orderly rank held store held := by
  have happend : Orderly rank held (holding .log []) held := .holding h rfl
  exact happend.append (orderly_buildProjection h)

private theorem rank_lt_log : ∀ l ∈ [DeviceLock.storage], l.rank < 1 := by
  decide

private theorem orderly_syncOnce (runner : ℕ) (result : Except SyncError (List ItemId)) :
    Orderly rank [] (syncOnce runner result) [] := by
  have hround : Orderly rank [] (holding .log (holding (.syncState runner) [.answers])) [] := by
    refine .holding_of_nil (.holding ?_ rfl)
    intro l hl
    obtain rfl := List.mem_singleton.mp hl
    exact Nat.one_lt_two
  refine hround.append ?_
  cases result with
  | error e => exact rfl
  | ok touched =>
    dsimp only
    split_ifs
    · exact rfl
    · exact .holding_of_nil (.flatMap fun _ _ => orderly_buildProjection rank_lt_log)

private theorem orderly_notify (runner : ℕ) (registered : Bool) :
    Orderly rank [] (notify runner registered) [] := by
  have hread : Orderly rank [] (holding (.listener runner) []) [] := .holding_of_nil rfl
  refine hread.append ?_
  cases registered with
  | false => exact rfl
  | true => exact ⟨rfl, rfl⟩

private theorem orderly_round (runner : ℕ) (result : Except SyncError (List ItemId))
    (registered : Bool) : Orderly rank [] (round runner result registered) [] := by
  refine (orderly_syncOnce runner result).append ?_
  cases result with
  | error e => exact rfl
  | ok touched =>
    dsimp only
    split_ifs
    · exact rfl
    · exact orderly_notify runner registered

end DeviceLock

open DeviceLock

/-- **Every call takes the locks in their order** and returns with none. -/
theorem DeviceCall.orderly (call : DeviceCall) : Orderly rank [] call.program [] := by
  cases call with
  | createItem => exact Orderly.holding_of_nil (orderly_store rank_lt_log)
  | edit found =>
    refine .holding_of_nil ?_
    cases found with
    | false => exact rfl
    | true => exact orderly_store rank_lt_log
  | items => exact .holding_of_nil rfl
  | setListener runner => exact .holding_of_nil rfl
  | syncNow runner online result registered | tick runner online result registered =>
    cases online with
    | false => exact rfl
    | true => exact orderly_round runner result registered
  | reconnect runner result registered => exact orderly_round runner result registered

/-- The tasks of a device, seen through its locks. -/
abbrev deviceLocks : Machine (Locks DeviceLock) (LockAction DeviceCall) :=
  Locks.machine DeviceCall.program

private theorem sound_deviceLocks (r : deviceLocks.Run) {t : ℕ} (ht : t ≤ r.length) :
    (r.state t).Sound rank := by
  refine r.invariant ?_ ?_ ht
  · intro s hs
    obtain rfl : s = Locks.start := hs
    exact Locks.sound_start rank
  · intro s a s' hs hstep
    exact hs.step DeviceCall.orderly (Locks.step_cases hstep)

/-- **The locks of a device never deadlock**: whatever tasks have come so far, while one of them is
not through, one that is not through has a step. -/
theorem no_deadlock (r : deviceLocks.Run) {t : ℕ} (ht : t ≤ r.length)
    (hwork : ∃ ops ∈ (r.state t).tasks, ops ≠ []) :
    ∃ k ops a s', (r.state t).tasks[k]? = some ops ∧ ops ≠ [] ∧ a.task = some k ∧
      deviceLocks.step (r.state t) a = some s' := by
  obtain ⟨k, hk⟩ := (sound_deviceLocks r ht).exists_enabled hwork
  obtain ⟨a, s', ha, hstep, op, ops, hnext, -⟩ := hk.exists_step DeviceCall.program
  exact ⟨k, op :: ops, a, s', hnext, List.cons_ne_nil op ops, ha, hstep⟩

/-- A service call has the storage and waits for the log, which a round has. -/
def serviceMeetsRound : List (LockAction DeviceCall) :=
  [.spawn [.createItem], .spawn [.syncNow 0 true (.ok [⟨7⟩]) true], .run 0, .run 1]

def serviceMeetsRoundRun : deviceLocks.Run :=
  .ofList deviceLocks .start rfl serviceMeetsRound (.run 0) (by decide +kernel)

theorem no_deadlock_serviceMeetsRound : ∃ k ops a s',
    (serviceMeetsRoundRun.state 4).tasks[k]? = some ops ∧ ops ≠ [] ∧ a.task = some k ∧
      deviceLocks.step (serviceMeetsRoundRun.state 4) a = some s' :=
  no_deadlock serviceMeetsRoundRun (by decide) (by decide +kernel)

/-- And when no new tasks come, all can get through, after which every lock is free. -/
theorem exists_all_through (r : deviceLocks.Run) {t : ℕ} (ht : t ≤ r.length) :
    ∃ s', deviceLocks.Reaches (fun a => a.task ≠ none) (r.state t) s' ∧
      (∀ ops ∈ s'.tasks, ops = []) ∧ ∀ l, s'.holder l = none :=
  (sound_deviceLocks r ht).exists_done DeviceCall.orderly

/-! ### The calls of the device, with its tables and its log -/

variable {ι : Type} {d : ι}

/-- What the holder of the storage lock has left to do with the locks. -/
def StorageTask.program : StorageTask → List (LockOp DeviceLock)
  | .store _ => DeviceLock.store ++ [.release .storage]
  | .project ids | .write _ _ ids => (ids.flatMap fun _ => buildProjection) ++ [.release .storage]

/-- A step of the task that holds the storage lock is a step along its program. -/
theorem System.LockStep.program {s s' : System ι} {a : Action ι} {task : StorageTask}
    (h : System.LockStep s s' d a) (held : s.lock d = some task) :
    ∃ ops, task.program = ops ++ (s'.lock d).elim [] StorageTask.program := by
  cases h with
  | keep same =>
    refine ⟨[], ?_⟩
    rw [same, held]
    rfl
  | acquire free => cases free.symm.trans held
  | append hlock next =>
    obtain rfl := Option.some.inj (hlock.symm.trans held)
    refine ⟨holding .log [], ?_⟩
    rw [next]
    rfl
  | read hlock next =>
    obtain rfl := Option.some.inj (hlock.symm.trans held)
    refine ⟨buildProjection, ?_⟩
    rw [next]
    rfl
  | write hlock next =>
    obtain rfl := Option.some.inj (hlock.symm.trans held)
    refine ⟨[], ?_⟩
    rw [next]
    rfl
  | unlock hlock next =>
    obtain rfl := Option.some.inj (hlock.symm.trans held)
    refine ⟨[.release .storage], ?_⟩
    rw [next]
    rfl

variable [DecidableEq ι]

/-- The task has the storage lock in some call, and then the rest of that call before it. -/
def StorageTask.InCall (task : StorageTask) : Prop :=
  ∃ (call : DeviceCall) (before after : List (LockOp DeviceLock)),
    call.program = before ++ .acquire .storage :: (task.program ++ after)

private theorem StorageTask.inCall_store (item : Item) : (StorageTask.store item).InCall :=
  ⟨.createItem, [], [], rfl⟩

private theorem StorageTask.inCall_project (ids : List ItemId) :
    (StorageTask.project ids).InCall := by
  cases ids with
  | nil => exact ⟨.items, [], [], rfl⟩
  | cons id ids =>
    refine ⟨.reconnect 0 (.ok (id :: ids)) false, holding .log (holding (.syncState 0) [.answers]),
      notify 0 false, ?_⟩
    simp [DeviceCall.program, reconnect, DeviceLock.round, syncOnce, holding, StorageTask.program]

/-- Who gets the storage lock begins the locked part of a call. -/
theorem System.Step.inCall {s s' : System ι} {a : Action ι} {task : StorageTask}
    (h : System.Step s a s') (free : s.lock d = none) (held : s'.lock d = some task) :
    task.InCall := by
  by_cases hd : a.device = some d
  · cases h with
    | sync | create | editMissing => cases free.symm.trans held
    | lockCreated | edit | store =>
      obtain rfl := Option.some.inj hd
      obtain rfl := Option.some.inj ((System.lock_setLock_self _ _ _).symm.trans held)
      exact StorageTask.inCall_store _
    | lockRebuild =>
      obtain rfl := Option.some.inj hd
      obtain rfl := Option.some.inj ((System.lock_setLock_self _ _ _).symm.trans held)
      exact StorageTask.inCall_project _
    | append hlock | read hlock | write hlock | unlock hlock =>
      obtain rfl := Option.some.inj hd
      cases free.symm.trans hlock
  · rw [(h.frame hd).2.1, free] at held
    cases held

/-- The action is a step of a round under way on device `d`. -/
def SyncAction.Continues (d : ι) : SyncAction ι → Prop
  | .send e | .handle e _ | .ack e | .answer e | .take e | .fail e => e = d
  | .beginRound _ _ | .deliver _ _ | .newRunner _ => False

/-- The action is a step of a call under way on device `d`. -/
def Action.Continues (d : ι) : Action ι → Prop
  | .sync a => a.Continues d
  | .lockCreated e _ | .append e _ | .read e | .write e | .unlock e | .lockRebuild e _ => e = d
  | .create _ _ _ _ _ | .edit _ _ _ _ | .store _ _ => False

/-- A round waits for nothing but its requests. -/
private theorem Net.exists_continues {s : Net ι} (h : s.round d ≠ none) :
    ∃ a, SyncAction.Continues d a ∧ (s.syncStep a).isSome := by
  obtain ⟨⟨batch, phase⟩, hround⟩ := Option.ne_none_iff_exists'.mp h
  cases phase with
  | push =>
    refine ⟨.send d, rfl, ?_⟩
    simp only [syncStep, hround]
    split_ifs <;> rfl
  | pushing events =>
    refine ⟨.handle d fun _ => 0, rfl, ?_⟩
    simp only [syncStep, hround, Option.isSome_some]
  | acknowledged stored =>
    refine ⟨.ack d, rfl, ?_⟩
    simp only [syncStep, hround, Option.isSome_some]
  | pull touched =>
    refine ⟨.answer d, rfl, ?_⟩
    simp only [syncStep, hround, Option.isSome_some]
  | pulled touched page =>
    refine ⟨.take d, rfl, ?_⟩
    simp only [syncStep, hround]
    split_ifs <;> rfl

/-- **No call on a device is stuck**: while one is under way, one of them has a step, as long as
there are ids for new events. -/
theorem System.exists_continues {s : System ι} (hbusy : ¬ s.Idle d)
    (hids : ∀ item, s.lock d = some (.store item) → ∃ ids : List Uuid,
      ids.length = item.uncommitted.length ∧ ids.Nodup ∧ ∀ e ∈ ids, e ∉ s.net.authoredIds) :
    ∃ a, Action.Continues d a ∧ (s.step a).isSome := by
  by_cases hround : s.net.round d = none
  · cases hlock : s.lock d with
    | some task =>
      cases task with
      | store item =>
        obtain ⟨ids, hlength, hnodup, hfresh⟩ := hids item hlock
        have hfst : (ids.zip item.uncommitted).map Prod.fst = ids :=
          List.map_fst_zip hlength.le
        refine ⟨.append d ids, rfl, ?_⟩
        simp only [step, hlock, if_pos hlength, Net.author, hround, hfst]
        rw [if_pos ⟨hnodup, hfresh⟩]
        rfl
      | project ids =>
        cases ids with
        | nil =>
          refine ⟨.unlock d, rfl, ?_⟩
          simp only [step, hlock, Option.isSome_some]
        | cons id ids =>
          refine ⟨.read d, rfl, ?_⟩
          simp only [step, hlock, hround, Option.isSome_some]
      | write id events ids =>
        refine ⟨.write d, rfl, ?_⟩
        simp only [step, hlock, Option.isSome_some]
    | none =>
      cases hwaiting : s.waiting d with
      | cons ids rest =>
        refine ⟨.lockRebuild d 0, rfl, ?_⟩
        simp only [step, hlock, hwaiting, List.getElem?_cons_zero, Option.isSome_some]
      | nil =>
        cases hcreated : s.created d with
        | cons item rest =>
          refine ⟨.lockCreated d 0, rfl, ?_⟩
          simp only [step, hlock, hcreated, List.getElem?_cons_zero, Option.isSome_some]
        | nil => exact absurd ⟨hlock, hwaiting, hcreated, hround⟩ hbusy
  · -- the round, which has the log, comes first
    obtain ⟨a, ha, hsome⟩ := Net.exists_continues hround
    refine ⟨.sync a, ha, ?_⟩
    rw [step, Option.isSome_map]
    exact hsome

end OfflineSync
