import OfflineSync.NetRun
import Mathlib.Tactic.IntervalCases

/-!
# The devices

A device as `EventSourcedStores::new` wires it: its log and sync state, the item storage over
that log, and the tasks that use them. `client-sdk/src/item_service.rs`, `sync_once` of
`client-sdk/src/sync_runner.rs` and `shared/src/item_storage.rs`, over the protocol of
`OfflineSync.Sync`.

The storage is locked for a whole service operation, from the load of the item to the last
write of its row, and for the whole rebuild loop after a sync; who holds the lock has a
`StorageTask` left to do. The log is locked for each call of the log only, so every step of
such a task is one action, and a sync round, of this device as of any other, may come between
any two of them. A storage step that uses the log waits while a round holds it. When nothing
comes between, the steps of a task are the calls of `ItemStorage` (`exec_store`).

`create_item` makes its item before it asks for the storage lock, so created items wait in
`created`, and the touched ids of a finished pull wait in `waiting` for the rebuild. Who gets
the lock next is open: the theorems hold for every order.

Seen without tables and tasks a run of the system is a run of the protocol (`SystemRun.netRun`),
in which a storage step that does not append is an idle step.
-/

namespace OfflineSync

/-- The domain operations on a loaded item. -/
inductive Operation
  | setQuantity (quantity : ℤ)
  | rename (name : String)
  | setNote (note : Option String)
  | delete
deriving DecidableEq, Repr

/-- Carry out an operation at the clock reading `nowMs`. -/
def Operation.apply (op : Operation) (item : Item) (nowMs : ℤ) : Item :=
  match op with
  | .setQuantity quantity => item.setQuantity quantity nowMs
  | .rename name => item.rename name nowMs
  | .setNote note => item.setNote note nowMs
  | .delete => item.delete nowMs

/-- The event an operation records. -/
def Operation.event : Operation → ItemEvent
  | .setQuantity quantity => .quantityChanged quantity
  | .rename name => .renamed name
  | .setNote note => .noteChanged note
  | .delete => .deleted

theorem Operation.apply_eq (op : Operation) (item : Item) (nowMs : ℤ) :
    op.apply item nowMs = item.newEvent ⟨op.event, nowMs⟩ := by
  cases op <;> rfl

/-- The devices and the server. -/
structure System (ι : Type) where
  net : Net ι
  items : ι → ItemTable
  /-- The task that holds the storage lock of a device. -/
  lock : ι → Option StorageTask
  /-- The items of `create_item` calls that wait for the storage lock. -/
  created : ι → List Item
  /-- The touched ids of finished syncs that wait for the storage lock. -/
  waiting : ι → List (List ItemId)
  /-- History: the item ids drawn so far. -/
  itemIds : List ItemId

/-- The steps of the system. -/
inductive Action (ι : Type)
  | sync (a : SyncAction ι)
  /-- `create_item`, up to the storage lock. -/
  | create (d : ι) (id : ItemId) (name : String) (quantity : ℤ) (nowMs : ℤ)
  /-- The `k`-th of the waiting created items gets the storage lock. -/
  | lockCreated (d : ι) (k : ℕ)
  /-- `set_quantity`, `rename`, `set_note` or `delete`, up to `store`. -/
  | edit (d : ι) (id : ItemId) (op : Operation) (nowMs : ℤ)
  /-- A `store` of an item held in memory, whenever it was loaded. -/
  | store (d : ι) (item : Item)
  /-- `append_local`, with the ids drawn for the events. -/
  | append (d : ι) (eventIds : List Uuid)
  /-- `events_of_entity` in `build_projection`. -/
  | read (d : ι)
  /-- The write of the row in `build_projection`. -/
  | write (d : ι)
  /-- The holder of the storage lock is done. -/
  | unlock (d : ι)
  /-- The `k`-th of the waiting rebuild loops gets the storage lock. -/
  | lockRebuild (d : ι) (k : ℕ)

/-- The device whose storage an action is about. -/
def Action.device {ι : Type} : Action ι → Option ι
  | .sync _ => none
  | .create d _ _ _ _ | .lockCreated d _ | .edit d _ _ _ | .store d _ | .append d _ | .read d
  | .write d | .unlock d | .lockRebuild d _ => some d

namespace System

variable {ι : Type}

/-- The storage of a device. -/
def storage (s : System ι) (d : ι) : ItemStorage where
  replicaIdProvider := s.net.provider d
  items := s.items d

/-- The row of an item in the table of a device. -/
def row (s : System ι) (d : ι) (id : ItemId) : Option Item :=
  (s.storage d).findById id

/-- The entries of the log of a device. -/
def entries (s : System ι) (d : ι) : List ItemDescriptor :=
  (s.net.log d).entries

/-- No task uses the stores of a device. -/
def Idle (s : System ι) (d : ι) : Prop :=
  s.lock d = none ∧ s.waiting d = [] ∧ s.created d = [] ∧ s.net.round d = none

variable [DecidableEq ι]

/-- Give the storage lock of a device to a task, or free it. -/
def setLock (s : System ι) (d : ι) (task : Option StorageTask) : System ι :=
  { s with lock := Function.update s.lock d task }

/-- The rebuild loops that wait after a sync action. -/
def waitingAfter (s : System ι) (a : SyncAction ι) : ι → List (List ItemId) :=
  match s.net.returns a with
  -- `sync_once` rebuilds nothing when nothing was touched
  | some (d, touched) =>
    if touched = [] then s.waiting
    else Function.update s.waiting d (touched :: s.waiting d)
  | none => s.waiting

/-- One step of the system; `none` when it is not enabled. -/
def step (s : System ι) : Action ι → Option (System ι)
  | .sync a => (s.net.syncStep a).map fun net => { s with net, waiting := s.waitingAfter a }
  | .create d id name quantity nowMs =>
    if id ∈ s.itemIds then none
    else some { s with
      created := Function.update s.created d (Item.create id name quantity nowMs :: s.created d)
      itemIds := id :: s.itemIds }
  | .lockCreated d k =>
    match s.lock d, (s.created d)[k]? with
    | none, some item =>
      some { s.setLock d (some (.store item)) with
        created := Function.update s.created d ((s.created d).eraseIdx k) }
    | _, _ => none
  | .edit d id op nowMs =>
    -- a missing item makes the operation return at once
    match s.lock d, (s.storage d).findById id with
    | none, some item => some (s.setLock d (some (.store (op.apply item nowMs))))
    | none, none => some s
    | some _, _ => none
  | .store d item =>
    match s.lock d with
    | none => some (s.setLock d (some (.store item)))
    | some _ => none
  | .append d eventIds =>
    match s.lock d with
    | some (.store item) =>
      if eventIds.length = item.uncommitted.length then
        (s.net.author d item.id (eventIds.zip item.uncommitted)).map fun net =>
          { s.setLock d (some (.project [item.id])) with net }
      else none
    | _ => none
  | .read d =>
    -- a round under way has the log locked
    match s.lock d, s.net.round d with
    | some (.project (id :: ids)), none =>
      some (s.setLock d (some (.write id ((s.net.log d).eventsOfEntity id) ids)))
    | _, _ => none
  | .write d =>
    match s.lock d with
    | some (.write id events ids) =>
      some { s.setLock d (some (.project ids)) with
        items := Function.update s.items d ((s.storage d).project id events).items }
    | _ => none
  | .unlock d =>
    match s.lock d with
    | some (.project []) => some (s.setLock d none)
    | _ => none
  | .lockRebuild d k =>
    match s.lock d, (s.waiting d)[k]? with
    | none, some ids =>
      some { s.setLock d (some (.project ids)) with
        waiting := Function.update s.waiting d ((s.waiting d).eraseIdx k) }
    | _, _ => none

/-- The system at the start: nothing stored, nothing sent, nobody at work. -/
def Init (s : System ι) : Prop :=
  s.net.Init ∧ s.itemIds = [] ∧
    ∀ d, s.items d = (ItemStorage.new (s.net.provider d)).items ∧ s.lock d = none ∧
      s.created d = [] ∧ s.waiting d = []

/-- The initial state over given replica identities. -/
def start (provider : ι → ReplicaIdProvider) : System ι where
  net := .start provider
  items d := (ItemStorage.new (provider d)).items
  lock _ := none
  created _ := []
  waiting _ := []
  itemIds := []

omit [DecidableEq ι] in
theorem init_start (provider : ι → ReplicaIdProvider) : (start provider).Init :=
  ⟨Net.init_start provider, rfl, fun _ => ⟨rfl, rfl, rfl, rfl⟩⟩

/-- The system as a machine. -/
def machine (ι : Type) [DecidableEq ι] : Machine (System ι) (Action ι) where
  init := Init
  step := step

/-! ### What a step can do -/

/-- The steps of the system, one case for each way an enabled action can go. -/
inductive Step (s : System ι) : Action ι → System ι → Prop
  | sync {a net} (step : s.net.syncStep a = some net) :
      Step s (.sync a) { s with net, waiting := s.waitingAfter a }
  | create {d id name quantity nowMs} (fresh : id ∉ s.itemIds) :
      Step s (.create d id name quantity nowMs) { s with
        created := Function.update s.created d (Item.create id name quantity nowMs :: s.created d)
        itemIds := id :: s.itemIds }
  | lockCreated {d k item} (free : s.lock d = none) (mem : (s.created d)[k]? = some item) :
      Step s (.lockCreated d k) { s.setLock d (some (.store item)) with
        created := Function.update s.created d ((s.created d).eraseIdx k) }
  | edit {d id op nowMs item} (free : s.lock d = none) (found : s.row d id = some item) :
      Step s (.edit d id op nowMs) (s.setLock d (some (.store (op.apply item nowMs))))
  | editMissing {d id op nowMs} (free : s.lock d = none) (missing : s.row d id = none) :
      Step s (.edit d id op nowMs) s
  | store {d item} (free : s.lock d = none) :
      Step s (.store d item) (s.setLock d (some (.store item)))
  | append {d eventIds item net} (held : s.lock d = some (.store item))
      (length : eventIds.length = item.uncommitted.length)
      (author : s.net.author d item.id (eventIds.zip item.uncommitted) = some net) :
      Step s (.append d eventIds) { s.setLock d (some (.project [item.id])) with net }
  | read {d id ids} (held : s.lock d = some (.project (id :: ids)))
      (unlocked : s.net.round d = none) :
      Step s (.read d) (s.setLock d (some (.write id (eventsOf (s.entries d) id) ids)))
  | write {d id events ids} (held : s.lock d = some (.write id events ids)) :
      Step s (.write d) { s.setLock d (some (.project ids)) with
        items := Function.update s.items d ((s.storage d).project id events).items }
  | unlock {d} (held : s.lock d = some (.project [])) :
      Step s (.unlock d) (s.setLock d none)
  | lockRebuild {d k ids} (free : s.lock d = none) (mem : (s.waiting d)[k]? = some ids) :
      Step s (.lockRebuild d k) { s.setLock d (some (.project ids)) with
        waiting := Function.update s.waiting d ((s.waiting d).eraseIdx k) }

/-- An enabled step is one of the cases of `Step`. -/
theorem step_cases {s s' : System ι} {a : Action ι} (h : (machine ι).step s a = some s') :
    Step s a s' := by
  simp only [machine] at h
  cases a with
  | sync a =>
    obtain ⟨net, hnet, rfl⟩ := Option.map_eq_some_iff.mp h
    exact .sync hnet
  | create d id name quantity nowMs =>
    simp only [step] at h
    split_ifs at h with hid
    exact Option.some.inj h ▸ .create hid
  | lockCreated d k =>
    simp only [step] at h
    split at h
    next item hlock hitem => exact Option.some.inj h ▸ .lockCreated hlock hitem
    next => cases h
  | edit d id op nowMs =>
    simp only [step] at h
    split at h
    next item hlock hitem => exact Option.some.inj h ▸ .edit hlock hitem
    next hlock hitem => exact Option.some.inj h ▸ .editMissing hlock hitem
    next => cases h
  | store d item =>
    simp only [step] at h
    split at h
    next hlock => exact Option.some.inj h ▸ .store hlock
    next => cases h
  | append d eventIds =>
    simp only [step] at h
    split at h
    next item hlock =>
      split_ifs at h with hlength
      obtain ⟨net, hnet, rfl⟩ := Option.map_eq_some_iff.mp h
      exact .append hlock hlength hnet
    next => cases h
  | read d =>
    simp only [step] at h
    split at h
    next id ids hlock hround => exact Option.some.inj h ▸ .read hlock hround
    next => cases h
  | write d =>
    simp only [step] at h
    split at h
    next id events ids hlock => exact Option.some.inj h ▸ .write hlock
    next => cases h
  | unlock d =>
    simp only [step] at h
    split at h
    next hlock => exact Option.some.inj h ▸ .unlock hlock
    next => cases h
  | lockRebuild d k =>
    simp only [step] at h
    split at h
    next ids hlock hids => exact Option.some.inj h ▸ .lockRebuild hlock hids
    next => cases h

/-- A step leaves the stores of the devices it is not about as they are. -/
theorem Step.frame {s s' : System ι} {a : Action ι} (h : Step s a s') {d : ι}
    (hd : a.device ≠ some d) :
    s'.items d = s.items d ∧ s'.lock d = s.lock d ∧ s'.created d = s.created d := by
  have hne : ∀ {d' : ι}, some d' ≠ some d → d ≠ d' := by
    rintro d' h rfl
    exact h rfl
  cases h with
  | sync | editMissing => exact ⟨rfl, rfl, rfl⟩
  | create => exact ⟨rfl, rfl, Function.update_of_ne (hne hd) _ _⟩
  | lockCreated =>
    exact ⟨rfl, Function.update_of_ne (hne hd) _ _, Function.update_of_ne (hne hd) _ _⟩
  | write =>
    exact ⟨Function.update_of_ne (hne hd) _ _, Function.update_of_ne (hne hd) _ _, rfl⟩
  | edit | store | append | read | unlock | lockRebuild =>
    exact ⟨rfl, Function.update_of_ne (hne hd) _ _, rfl⟩

@[simp] theorem lock_setLock_self (s : System ι) (d : ι) (task : Option StorageTask) :
    (s.setLock d task).lock d = task :=
  Function.update_self d _ s.lock

/-! ### The life of a storage task -/

/-- What a step does to the storage lock of a device. -/
inductive LockStep (s s' : System ι) (d : ι) : Action ι → Prop
  | keep {a} (same : s'.lock d = s.lock d) : LockStep s s' d a
  | acquire {a} (free : s.lock d = none) : LockStep s s' d a
  | append {item eventIds} (held : s.lock d = some (.store item))
      (next : s'.lock d = some (.project [item.id])) : LockStep s s' d (.append d eventIds)
  | read {id ids} (held : s.lock d = some (.project (id :: ids)))
      (next : s'.lock d = some (.write id (eventsOf (s.entries d) id) ids)) :
      LockStep s s' d (.read d)
  | write {id events ids} (held : s.lock d = some (.write id events ids))
      (next : s'.lock d = some (.project ids)) : LockStep s s' d (.write d)
  | unlock (held : s.lock d = some (.project [])) (next : s'.lock d = none) :
      LockStep s s' d (.unlock d)

theorem Step.lockStep {s s' : System ι} {a : Action ι} (h : Step s a s') (d : ι) :
    LockStep s s' d a := by
  by_cases hd : a.device = some d
  · cases h with
    | sync => exact .keep rfl
    | create | editMissing => exact .keep rfl
    | lockCreated free | edit free | store free | lockRebuild free =>
      obtain rfl := Option.some.inj hd
      exact .acquire free
    | append held =>
      obtain rfl := Option.some.inj hd
      exact .append held (lock_setLock_self _ _ _)
    | read held =>
      obtain rfl := Option.some.inj hd
      exact .read held (lock_setLock_self _ _ _)
    | write held =>
      obtain rfl := Option.some.inj hd
      exact .write held (lock_setLock_self _ _ _)
    | unlock held =>
      obtain rfl := Option.some.inj hd
      exact .unlock held (lock_setLock_self _ _ _)
  · exact .keep (h.frame hd).2.1

/-- The write of a row. -/
theorem Step.of_write {s s' : System ι} {d : ι} (h : Step s (.write d) s') :
    ∃ id events ids, s.lock d = some (.write id events ids) ∧
      s'.lock d = some (.project ids) ∧ s'.row d id = rowOf events := by
  cases h with
  | @write _ id events ids held =>
    refine ⟨id, events, ids, held, lock_setLock_self _ _ _, ?_⟩
    simp only [row, storage, Function.update_self]
    exact ItemTable.lookup_setRow_self _ _ _

/-! ### Storage calls that nothing interrupts -/

/-- Without a sync in between, a read and the write after it are `build_projection`. -/
private theorem exec_buildProjection {s : System ι} {d : ι} {id : ItemId} {ids : List ItemId}
    (held : s.lock d = some (.project (id :: ids))) (unlocked : s.net.round d = none) :
    ∃ s', (machine ι).exec s [.read d, .write d] = some s' ∧
      s'.storage d = (s.storage d).buildProjection (s.net.log d) id ∧
      s'.net = s.net ∧ s'.lock d = some (.project ids) := by
  have hread : (machine ι).step s (.read d)
      = some (s.setLock d (some (.write id ((s.net.log d).eventsOfEntity id) ids))) := by
    simp only [machine, step, held, unlocked]
  obtain ⟨s', hwrite, hitems, hnet, hlock⟩ : ∃ s', (machine ι).step
      (s.setLock d (some (.write id ((s.net.log d).eventsOfEntity id) ids))) (.write d) = some s' ∧
      s'.items d = ((s.storage d).project id ((s.net.log d).eventsOfEntity id)).items ∧
      s'.net = s.net ∧ s'.lock d = some (.project ids) := by
    simp only [machine, step, lock_setLock_self]
    exact ⟨_, rfl, Function.update_self _ _ _, rfl, lock_setLock_self _ _ _⟩
  refine ⟨s', ?_, ?_, hnet, hlock⟩
  · rw [Machine.exec, hread, Option.bind_some, Machine.exec, hwrite]
    rfl
  · rw [storage, hitems, hnet]
    rfl

/-- **Without a sync in between, the steps of a store are `ItemStorage::store`.** -/
theorem exec_store {s : System ι} {d : ι} {item : Item} {eventIds : List Uuid} {net : Net ι}
    (held : s.lock d = some (.store item)) (length : eventIds.length = item.uncommitted.length)
    (author : s.net.author d item.id (eventIds.zip item.uncommitted) = some net) (now : ℕ → ℤ) :
    ∃ s', (machine ι).exec s [.append d eventIds, .read d, .write d] = some s' ∧
      s'.storage d = ((s.storage d).store (s.net.log d) now item eventIds).1 ∧
      s'.net.log d = ((s.storage d).store (s.net.log d) now item eventIds).2.1 ∧
      s'.lock d = some (.project []) := by
  have happend : (machine ι).step s (.append d eventIds)
      = some { s.setLock d (some (.project [item.id])) with net } := by
    simp only [machine, step, held, if_pos length, author, Option.map_some]
  have hnet : Net.Step s.net (.author d item.id (eventIds.zip item.uncommitted)) net :=
    Net.step_cases author
  obtain ⟨hround, hlog, hprovider⟩ : net.round d = none ∧
      net.log d = ((s.net.log d).appendLocal (ItemStorage.appendEvents (s.net.provider d).get
        item.id (eventIds.zip item.uncommitted))).1 ∧ net.provider = s.net.provider := by
    cases hnet with
    | author unlocked => exact ⟨unlocked, Replicas.log_author_self, rfl⟩
  obtain ⟨s', hexec, hstorage, hnet', hlock⟩ := exec_buildProjection
    (s := { s.setLock d (some (.project [item.id])) with net }) (lock_setLock_self s d _) hround
  refine ⟨s', ?_, ?_, ?_, hlock⟩
  · rw [Machine.exec, happend]
    exact hexec
  · have hstorage₁ : storage { s.setLock d (some (.project [item.id])) with net } d
        = s.storage d := by
      simp only [storage, hprovider]
      rfl
    rw [hstorage, hstorage₁]
    simp only [hlog]
    rfl
  · rw [hnet', hlog]
    rfl

/-! ### The protocol within the system -/

/-- What an action of the system is for the protocol: the append of a store authors events,
the other steps of a storage task are idle. -/
def netAction (s : System ι) : Action ι → Option (NetAction ι)
  | .sync a => some (.sync a)
  | .append d eventIds =>
    match s.lock d with
    | some (.store item) => some (.author d item.id (eventIds.zip item.uncommitted))
    | _ => none
  | _ => none

/-- A step of the system is a step of the protocol or leaves the protocol idle. -/
theorem netStep {s s' : System ι} {a : Action ι} (h : (machine ι).step s a = some s') :
    (Net.machine ι).stuttering.step s.net (s.netAction a) = some s'.net := by
  cases step_cases h with
  | sync hstep => exact hstep
  | append held _ author =>
    rw [netAction]
    simp only [held]
    exact author
  | create | lockCreated | edit | editMissing | store | read | write | unlock | lockRebuild => rfl

end System

/-- The runs of the system. -/
abbrev SystemRun (ι : Type) [DecidableEq ι] : Type :=
  (System.machine ι).Run

namespace SystemRun

variable {ι : Type} [DecidableEq ι]

/-- **The run of the protocol within a run of the system**, along the same times. -/
def netRun (r : SystemRun ι) : NetRun ι :=
  r.project System.net System.netAction (fun _ (h : System.Init _) => h.1) fun _ _ _ h =>
    System.netStep h

theorem step_cases (r : SystemRun ι) {t : ℕ} (ht : t < r.length) :
    System.Step (r.state t) (r.act t) (r.state (t + 1)) :=
  System.step_cases (r.step_state t ht)

/-- The run that executes a list of actions, over given replica identities. -/
def ofList (provider : ι → ReplicaIdProvider) (actions : List (Action ι)) (a₀ : Action ι)
    (h : ((System.machine ι).exec (.start provider) actions).isSome) : SystemRun ι :=
  Machine.Run.ofList (System.machine ι) (.start provider) (System.init_start provider) actions a₀ h

/-- The append of a store, as the protocol sees it. -/
theorem author_of_append {r : SystemRun ι} {t : ℕ} {d : ι} {eventIds : List Uuid}
    (ht : t < r.length) (ha : r.act t = .append d eventIds) :
    ∃ item : Item, (r.state t).lock d = some (.store item) ∧
      eventIds.length = item.uncommitted.length ∧
      r.netRun.act t = some (.author d item.id (eventIds.zip item.uncommitted)) := by
  have hstep := r.step_cases ht
  rw [ha] at hstep
  have hact : r.netRun.act t = (r.state t).netAction (.append d eventIds) :=
    congrArg (r.state t).netAction ha
  generalize r.state (t + 1) = s' at hstep
  cases hstep with
  | append held hlength _ =>
    refine ⟨_, held, hlength, ?_⟩
    rw [hact, System.netAction, held]

end SystemRun

/-! ### Two devices that exchange their items

A run that the results on logs and rounds are tried on. -/

/-- A device creates an item. -/
def createItem (d : Bool) (id : ItemId) (name : String) (eventId : Uuid) : List (Action Bool) :=
  [.create d id name 2 100, .lockCreated d 0, .append d [eventId], .read d, .write d, .unlock d]

/-- A round that pushes a batch and pulls a page. -/
def pushRound (d : Bool) (now : ℕ → ℤ) : List (Action Bool) :=
  [.beginRound d 500, .send d, .handle d now, .ack d, .send d, .answer d, .take d, .answer d,
    .take d].map .sync

/-- A round that pulls a page. -/
def pullRound (d : Bool) : List (Action Bool) :=
  [.beginRound d 500, .send d, .answer d, .take d, .answer d, .take d].map .sync

/-- Each of two devices creates an item and syncs twice. Then the first gets a new runner and syncs
again. -/
def exchangedItems : List (Action Bool) :=
  createItem false ⟨7⟩ "milk" 1 ++ createItem true ⟨8⟩ "eggs" 2 ++
    pushRound false (fun _ => 500) ++ pushRound true (fun _ => 600) ++ pullRound false ++
    [.beginRound true 500, .send true, .answer true, .take true].map .sync ++
    .sync (.newRunner false) :: pullRound false

def exchangedItemsRun : SystemRun Bool :=
  .ofList (fun d => ⟨if d then "B" else "A"⟩) exchangedItems (.unlock false) (by decide +kernel)

/-- The rounds of the run, all of which return `Ok`. -/
theorem returnsOk_exchangedItems :
    (exchangedItemsRun.netRun.ReturnsOk false 12 20 ∧
        exchangedItemsRun.netRun.ReturnsOk true 21 29) ∧
      (exchangedItemsRun.netRun.ReturnsOk false 30 35 ∧
        exchangedItemsRun.netRun.ReturnsOk true 36 39) ∧
      exchangedItemsRun.netRun.ReturnsOk false 41 46 := by
  have hrunning : ∀ bounds ∈ [(false, 12, 20), (true, 21, 29), (false, 30, 35), (true, 36, 39),
      (false, 41, 46)], ∀ u ≤ bounds.2.2, bounds.2.1 < u →
        (exchangedItemsRun.netRun.state u).round bounds.1 ≠ none := by decide +kernel
  simp only [List.forall_mem_cons] at hrunning
  obtain ⟨h₁, h₂, h₃, h₄, h₅, -⟩ := hrunning
  refine ⟨⟨?_, ?_⟩, ⟨?_, ?_⟩, ?_⟩
  · exact ⟨⟨⟨500, rfl⟩, by decide, by decide, fun u hu hu' => h₁ u hu' hu⟩, by decide,
      ⟨.take false, [⟨7⟩], rfl, by decide +kernel⟩⟩
  · exact ⟨⟨⟨500, rfl⟩, by decide, by decide, fun u hu hu' => h₂ u hu' hu⟩, by decide,
      ⟨.take true, [⟨7⟩, ⟨8⟩], rfl, by decide +kernel⟩⟩
  · exact ⟨⟨⟨500, rfl⟩, by decide, by decide, fun u hu hu' => h₃ u hu' hu⟩, by decide,
      ⟨.take false, [⟨8⟩], rfl, by decide +kernel⟩⟩
  · exact ⟨⟨⟨500, rfl⟩, by decide, by decide, fun u hu hu' => h₄ u hu' hu⟩, by decide,
      ⟨.take true, [], rfl, by decide +kernel⟩⟩
  · exact ⟨⟨⟨500, rfl⟩, by decide, by decide, fun u hu hu' => h₅ u hu' hu⟩, by decide,
      ⟨.take false, [⟨7⟩, ⟨8⟩], rfl, by decide +kernel⟩⟩

/-- The first two rounds of each are all that happens until the new runner. -/
theorem sync_exchangedItems {u : ℕ} (h : 12 ≤ u) (hu : u < 40) :
    ∃ a, exchangedItemsRun.netRun.act u = some (.sync a) ∧ ∀ d, a ≠ .newRunner d := by
  interval_cases u <;> exact ⟨_, rfl, fun _ heq => by cases heq⟩

end OfflineSync
