import OfflineSync.Device
import OfflineSync.Lib.Snapshot
import Mathlib.Tactic.IntervalCases

/-!
# The projection table of a device

A `build_projection` reads the events of an item from the log and writes the row later, while a
sync may append in between. Each row is still the fold of some earlier state of the log: the
storage lock lets one refresh at a time come between its read and its write, so the table is
one of `Snapshot`, and `version r d t id` is the time whose log row `id` shows at time `t`.

Versions only move forward. A store appends, then reads, then writes, all under one hold of the
lock (`Mutation.exists_stages`), so when it returns the version of its row is past its append.
-/

namespace OfflineSync

variable {ι : Type}

namespace System

/-- The table of a device over its log. -/
def snap (s : System ι) (d : ι) : Snapshot.State (List ItemDescriptor) ItemId (Option Item) where
  log := s.entries d
  row := s.row d
  loaded := StorageTask.loaded (s.lock d)

variable [DecidableEq ι]

/-- A step of the system is a step of each table. -/
theorem Step.snap {s s' : System ι} {a : Action ι} (h : Step s a s') (d : ι) :
    Snapshot.Step rowAt (s.snap d) (s'.snap d) := by
  have hrow : s'.items d = s.items d → (s'.snap d).row = (s.snap d).row := by
    intro hitems
    funext id
    simp only [System.snap, row, storage, hitems]
    rfl
  have hloaded : ∀ task, StorageTask.loaded (s.lock d) = none → s'.lock d = task →
      StorageTask.loaded task = none →
      (s'.snap d).loaded = (s.snap d).loaded := by
    intro task h₀ h₁ h₂
    simp only [System.snap, h₀, h₁, h₂]
  by_cases hd : a.device = some d
  · cases h with
    | sync => cases hd
    | create | editMissing =>
      obtain rfl := Option.some.inj hd
      exact .other rfl rfl
    | lockCreated free | edit free | store free | lockRebuild free =>
      obtain rfl := Option.some.inj hd
      exact .other rfl (hloaded _ (by rw [free]; rfl) (lock_setLock_self _ _ _) rfl)
    | append held | unlock held =>
      obtain rfl := Option.some.inj hd
      exact .other rfl (hloaded _ (by rw [held]; rfl) (lock_setLock_self _ _ _) rfl)
    | @read d' id ids held unlocked =>
      obtain rfl := Option.some.inj hd
      -- the row to be written is fixed here, by the log as it is
      refine .load id ?_ rfl ?_ <;> simp only [System.snap]
      · rw [held]
        rfl
      · rw [lock_setLock_self]
        rfl
    | @write d' id events ids held =>
      obtain rfl := Option.some.inj hd
      refine .write id (rowOf events) ?_ ?_ ?_ fun id' hne => ?_ <;>
        simp only [System.snap, row, storage, Function.update_self]
      · rw [held]
        rfl
      · exact congrArg StorageTask.loaded (lock_setLock_self s d' _)
      · exact ItemTable.lookup_setRow_self _ _ _
      · exact ItemTable.lookup_setRow_of_ne _ _ hne
  · obtain ⟨hitems, hlock, -⟩ := h.frame hd
    exact .other (hrow hitems) (congrArg StorageTask.loaded hlock)

end System

namespace SystemRun

variable [DecidableEq ι] {r : SystemRun ι} {d : ι} {t t' : ℕ} {id : ItemId}

/-- The history of the table of a device along a run. -/
private theorem tableHistory (r : SystemRun ι) (d : ι) :
    Snapshot.History rowAt r.length fun t => (r.state t).snap d where
  row_zero := by
    intro id
    obtain ⟨⟨-, -, -, hlog⟩, -, hd⟩ := r.init_state
    have hentries : (r.state 0).entries d = [] := by
      rw [System.entries, (hlog d).1]
      rfl
    have hitems : (r.state 0).items d = ∅ := (hd d).1
    change ((r.state 0).items d).lookup id = rowAt ((r.state 0).entries d) id
    rw [hentries, hitems, AList.lookup_empty, rowAt_eq_none_of_forall_ne]
    exact fun _ he => absurd he List.not_mem_nil
  loaded_zero := by
    obtain ⟨-, -, hd⟩ := r.init_state
    change StorageTask.loaded ((r.state 0).lock d) = none
    rw [(hd d).2.1]
    rfl
  step := fun t ht => (r.step_cases ht).snap d

/-- The time whose log the row of an item shows. -/
noncomputable def version (r : SystemRun ι) (d : ι) : ℕ → ItemId → ℕ :=
  Snapshot.version fun t => (r.state t).snap d

theorem version_le (r : SystemRun ι) (d : ι) (t : ℕ) (id : ItemId) : r.version d t id ≤ t :=
  Snapshot.version_le _ t id

/-- Every row is the fold of the log at its version. -/
theorem row_eq (r : SystemRun ι) (d : ι) (ht : t ≤ r.length) (id : ItemId) :
    (r.state t).row d id = rowAt ((r.state (r.version d t id)).entries d) id :=
  (r.tableHistory d).row_eq_view ht id

/-- What the table shows carries the id it is stored under, and nothing uncommitted. -/
theorem id_of_row {item : Item} (ht : t ≤ r.length) (h : (r.state t).row d id = some item) :
    item.id = id ∧ item.uncommitted = [] := by
  rw [r.row_eq d ht] at h
  exact ⟨rowAt_id h, rowAt_uncommitted h⟩

/-! ### Tasks along a run -/

/-- A task keeps the lock from time `a` until some step takes it further. -/
private theorem exists_lockStep {task : StorageTask} {a b : ℕ} (hab : a ≤ b)
    (hb : b ≤ r.length) (ha : (r.state a).lock d = some task)
    (hne : (r.state b).lock d ≠ some task) :
    ∃ u, a ≤ u ∧ u < b ∧ (∀ v, a ≤ v → v ≤ u → (r.state v).lock d = some task) ∧
      (r.state (u + 1)).lock d ≠ (r.state u).lock d ∧
      System.LockStep (r.state u) (r.state (u + 1)) d (r.act u) := by
  obtain ⟨u, hau, hub, hconst, hu⟩ :=
    exists_last_of_not (P := fun v => (r.state v).lock d = some task) hab ha hne
  refine ⟨u, hau, hub, hconst, ?_, (r.step_cases (hub.trans_le hb)).lockStep d⟩
  rwa [hconst u hau le_rfl]

/-- A store gets on by its append. -/
private theorem exists_append {item : Item} {a b : ℕ} (hab : a ≤ b) (hb : b ≤ r.length)
    (ha : (r.state a).lock d = some (.store item))
    (hne : (r.state b).lock d ≠ some (.store item)) :
    ∃ u, a ≤ u ∧ u < b ∧ (∀ v, a ≤ v → v ≤ u → (r.state v).lock d = some (.store item)) ∧
      (∃ eventIds, r.act u = .append d eventIds) ∧
      (r.state (u + 1)).lock d = some (.project [item.id]) := by
  obtain ⟨u, hau, hub, hconst, hmove, hstep⟩ := exists_lockStep hab hb ha hne
  have hlock := hconst u hau le_rfl
  refine ⟨u, hau, hub, hconst, ?_⟩
  generalize r.act u = act at hstep ⊢
  cases hstep <;> simp_all

/-- A rebuild gets on by reading the log. -/
private theorem exists_read {ids : List ItemId} {a b : ℕ} (hab : a ≤ b) (hb : b ≤ r.length)
    (ha : (r.state a).lock d = some (.project (id :: ids)))
    (hne : (r.state b).lock d ≠ some (.project (id :: ids))) :
    ∃ u, a ≤ u ∧ u < b ∧
      (∀ v, a ≤ v → v ≤ u → (r.state v).lock d = some (.project (id :: ids))) ∧
      r.act u = .read d ∧
      (r.state (u + 1)).lock d = some (.write id (eventsOf ((r.state u).entries d) id) ids) := by
  obtain ⟨u, hau, hub, hconst, hmove, hstep⟩ := exists_lockStep hab hb ha hne
  have hlock := hconst u hau le_rfl
  refine ⟨u, hau, hub, hconst, ?_⟩
  generalize r.act u = act at hstep ⊢
  cases hstep <;> simp_all

/-- A rebuild that has read the log gets on by writing the row. -/
private theorem exists_write {events : List ItemDescriptor} {ids : List ItemId} {a b : ℕ}
    (hab : a ≤ b) (hb : b ≤ r.length) (ha : (r.state a).lock d = some (.write id events ids))
    (hne : (r.state b).lock d ≠ some (.write id events ids)) :
    ∃ u, a ≤ u ∧ u < b ∧
      (∀ v, a ≤ v → v ≤ u → (r.state v).lock d = some (.write id events ids)) ∧
      r.act u = .write d ∧ (r.state (u + 1)).lock d = some (.project ids) := by
  obtain ⟨u, hau, hub, hconst, hmove, hstep⟩ := exists_lockStep hab hb ha hne
  have hlock := hconst u hau le_rfl
  refine ⟨u, hau, hub, hconst, ?_⟩
  generalize r.act u = act at hstep ⊢
  cases hstep <;> simp_all

/-- A task with nothing left to do keeps the lock until it frees it. -/
private theorem lock_of_not_unlock {a b : ℕ} (hab : a ≤ b) (hb : b ≤ r.length)
    (ha : (r.state a).lock d = some (.project []))
    (hheld : ∀ u, a ≤ u → u < b → r.act u ≠ .unlock d) :
    (r.state b).lock d = some (.project []) := by
  by_contra hne
  obtain ⟨u, hau, hub, hconst, hmove, hstep⟩ := exists_lockStep hab hb ha hne
  have hlock := hconst u hau le_rfl
  refine hheld u hau hub ?_
  generalize r.act u = act at hstep ⊢
  cases hstep <;> simp_all

/-! ### Rebuilds -/

/-- A `build_projection` of an item on device `d`: it reads the log at time `ρ` and writes the
row at time `ω`. -/
structure Rebuild (r : SystemRun ι) (d : ι) (id : ItemId) (ρ ω : ℕ) : Prop where
  key : ∃ ids, (r.state ρ).lock d = some (.project (id :: ids))
  read : r.act ρ = .read d
  write : r.act ω = .write d
  lt : ρ < ω
  le : ω < r.length
  pending : ∀ u, ρ < u → u < ω → r.act u ≠ .write d

/-- The write of a row that was read. -/
private theorem writes_of_lock {ω : ℕ} (hω : ω < r.length) {events : List ItemDescriptor}
    {ids : List ItemId} (hlock : (r.state ω).lock d = some (.write id events ids))
    (hact : r.act ω = .write d) : Snapshot.Writes (fun t => (r.state t).snap d) ω id := by
  have hstep := r.step_cases hω
  rw [hact] at hstep
  obtain ⟨id', events', ids', hheld, hnext, hrow⟩ := hstep.of_write
  rw [hlock] at hheld
  obtain ⟨rfl, rfl, rfl⟩ := StorageTask.write.inj (Option.some.inj hheld)
  refine ⟨?_, ?_⟩
  · change StorageTask.loaded ((r.state ω).lock d) = some (id, (r.state (ω + 1)).row d id)
    rw [hlock, hrow]
    rfl
  · change StorageTask.loaded ((r.state (ω + 1)).lock d) = none
    rw [hnext]
    rfl

/-- The read of a rebuild. -/
private theorem lock_of_read {ρ : ℕ} (hρ : ρ < r.length) {ids : List ItemId}
    (hlock : (r.state ρ).lock d = some (.project (id :: ids))) (hact : r.act ρ = .read d) :
    (r.state (ρ + 1)).lock d = some (.write id (eventsOf ((r.state ρ).entries d) id) ids) := by
  have hstep := r.step_cases hρ
  rw [hact] at hstep
  generalize r.state (ρ + 1) = s' at hstep
  cases hstep with
  | read held =>
    rw [hlock] at held
    obtain ⟨rfl, rfl⟩ := List.cons.inj (StorageTask.project.inj (Option.some.inj held))
    exact System.lock_setLock_self _ _ _

/-- A rebuild is a refresh of the table. -/
theorem Rebuild.refresh {ρ ω : ℕ} (h : Rebuild r d id ρ ω) :
    Snapshot.Refresh (fun t => (r.state t).snap d) ρ ω id := by
  obtain ⟨ids, hkey⟩ := h.key
  have hread := lock_of_read (h.lt.trans h.le) hkey h.read
  have hlock : (r.state ω).lock d
      = some (.write id (eventsOf ((r.state ρ).entries d) id) ids) := by
    by_contra hne
    obtain ⟨u, hρu, huω, -, hact, -⟩ := exists_write h.lt h.le.le hread hne
    exact h.pending u hρu huω hact
  refine ⟨?_, ?_, h.lt, writes_of_lock h.le hlock h.write⟩
  · change StorageTask.loaded ((r.state ρ).lock d) = none
    rw [hkey]
    rfl
  · change StorageTask.loaded ((r.state (ρ + 1)).lock d) ≠ none
    rw [hread]
    exact Option.some_ne_none _

/-! ### Mutations -/

/-- A mutation of the stores of device `d`: `store` is called for an item under the storage lock
taken at time `start`, and the lock is freed at time `stop`. -/
structure Mutation (r : SystemRun ι) (d : ι) (start stop : ℕ) (item : Item) : Prop where
  free : (r.state start).lock d = none
  locked : (r.state (start + 1)).lock d = some (.store item)
  lt : start < stop
  le : stop < r.length
  unlock : r.act stop = .unlock d
  held : ∀ u, start < u → u < stop → r.act u ≠ .unlock d

/-- When `append_local` runs, a store holds the lock. -/
private theorem lock_of_append {eventIds : List Uuid} (ht : t < r.length)
    (ha : r.act t = .append d eventIds) : ∃ item : Item,
      (r.state t).lock d = some (.store item) ∧
        (r.state (t + 1)).lock d = some (.project [item.id]) := by
  have hstep := r.step_cases ht
  rw [ha] at hstep
  generalize r.state (t + 1) = s' at hstep
  cases hstep with
  | append held => exact ⟨_, held, System.lock_setLock_self _ _ _⟩

/-- The lock is freed by a task with nothing left to do. -/
private theorem lock_of_unlock (ht : t < r.length) (ha : r.act t = .unlock d) :
    (r.state t).lock d = some (.project []) := by
  have hstep := r.step_cases ht
  rw [ha] at hstep
  generalize r.state (t + 1) = s' at hstep
  cases hstep with
  | unlock held => exact held

/-- **The stages of a mutation**: it appends, once, and then rebuilds its row. -/
theorem Mutation.exists_stages {start stop : ℕ} {item : Item}
    (h : Mutation r d start stop item) :
    ∃ t₁ ρ ω eventIds, start < t₁ ∧ t₁ < ρ ∧ ω < stop ∧ r.act t₁ = .append d eventIds ∧
      (r.state t₁).lock d = some (.store item) ∧ Rebuild r d item.id ρ ω ∧
      ∀ u, start ≤ u → u ≤ stop → ∀ eventIds', r.act u = .append d eventIds' → u = t₁ := by
  have hle := h.le
  have hlt := h.lt
  have hstop := lock_of_unlock hle h.unlock
  -- at the unlock nothing is left to do, so each stage has been passed
  obtain ⟨t₁, hst₁, ht₁stop, hstore, ⟨eventIds, hact₁⟩, hproject⟩ :=
    exists_append hlt hle.le h.locked (by rw [hstop]; simp)
  obtain ⟨ρ, ht₁ρ, hρstop, hproj, hread, hwrite⟩ :=
    exists_read ht₁stop hle.le hproject (by rw [hstop]; simp)
  obtain ⟨ω, hρω, hωstop, hwr, hact₃, hdone⟩ :=
    exists_write hρstop hle.le hwrite (by rw [hstop]; simp)
  have hlast : ∀ v, ω + 1 ≤ v → v ≤ stop → (r.state v).lock d = some (.project []) :=
    fun v hv hvs => lock_of_not_unlock hv (by omega) hdone fun u hu huv =>
      h.held u (by omega) (by omega)
  refine ⟨t₁, ρ, ω, eventIds, hst₁, ht₁ρ, hωstop, hact₁, hstore t₁ hst₁ le_rfl,
    ⟨⟨[], hproj ρ ht₁ρ le_rfl⟩, hread, hact₃, hρω, hωstop.trans hle, fun u hu huω ha => ?_⟩,
    fun u hu hus eventIds' ha => ?_⟩
  · -- the row is written once
    have hstep := r.step_cases (t := u) (by omega)
    rw [ha] at hstep
    obtain ⟨_, _, _, -, hnext, -⟩ := hstep.of_write
    rw [hwr (u + 1) (by omega) (by omega)] at hnext
    cases hnext
  · -- a store holds the lock at the append only
    obtain ⟨item', hlock, hnext⟩ := lock_of_append (by omega) ha
    rcases Nat.lt_trichotomy u t₁ with hlt₁ | heq | hgt
    · rcases hu.eq_or_lt with rfl | hu
      · rw [h.free] at hlock
        cases hlock
      · rw [hstore (u + 1) (by omega) (by omega)] at hnext
        cases hnext
    · exact heq
    · rcases Nat.lt_or_ge ρ u with hρu | huρ
      · rcases Nat.lt_or_ge ω u with hωu | huω
        · rw [hlast u hωu hus] at hlock
          cases hlock
        · rw [hwr u hρu huω] at hlock
          cases hlock
      · rw [hproj u hgt huρ] at hlock
        cases hlock

/-- After a mutation the version of its row is past its append. -/
private theorem Mutation.lt_version {start stop : ℕ} {item : Item}
    (h : Mutation r d start stop item)
    {t₁ : ℕ} {eventIds : List Uuid} (hst₁ : start ≤ t₁) (ht₁ : t₁ ≤ stop)
    (ha : r.act t₁ = .append d eventIds) (ht : stop < t) : t₁ < r.version d t item.id := by
  obtain ⟨t₁', ρ, ω, -, -, hlt, hω, -, -, hrebuild, hunique⟩ := h.exists_stages
  obtain rfl := hunique t₁ hst₁ ht₁ eventIds ha
  exact hlt.trans_le (hrebuild.refresh.le_version (hω.trans ht))

/-- A created item that waits for the storage lock comes from a `create_item`. -/
theorem exists_create (ht : t ≤ r.length) {item : Item} (h : item ∈ (r.state t).created d) :
    ∃ u < t, ∃ name quantity nowMs, r.act u = .create d item.id name quantity nowMs ∧
      item = Item.create item.id name quantity nowMs := by
  induction t with
  | zero =>
    rw [(r.init_state.2.2 d).2.2.1] at h
    exact absurd h List.not_mem_nil
  | succ t ih =>
    -- waiting items leave the list, and only `create_item` adds one
    have hold : item ∈ (r.state t).created d → ∃ u < t + 1, ∃ name quantity nowMs,
        r.act u = .create d item.id name quantity nowMs ∧
          item = Item.create item.id name quantity nowMs := by
      intro hmem
      obtain ⟨u, hu, hcreate⟩ := ih (Nat.le_of_succ_le ht) hmem
      exact ⟨u, hu.trans (Nat.lt_succ_self t), hcreate⟩
    have hstep := r.step_cases ht
    by_cases hd : (r.act t).device = some d
    · generalize hact : r.act t = act at hstep hd
      generalize r.state (t + 1) = s' at hstep h
      cases hstep with
      | sync => cases hd
      | @create d' id name quantity nowMs =>
        obtain rfl := Option.some.inj hd
        simp only [Function.update_self] at h
        rcases List.mem_cons.mp h with rfl | h
        · have hid : (Item.create id name quantity nowMs).id = id := Item.newEvent_id _ _
          exact ⟨t, Nat.lt_succ_self t, name, quantity, nowMs, by rw [hid, hact], by rw [hid]⟩
        · exact hold h
      | lockCreated =>
        obtain rfl := Option.some.inj hd
        simp only [Function.update_self] at h
        exact hold (List.mem_of_mem_eraseIdx h)
      | _ => exact hold h
    · rw [(hstep.frame hd).2.2] at h
      exact hold h

/-! ### Service calls -/

/-- At time `start` a mutation of the service gets the storage lock and goes on with the item it
found or created, to record `event` on it at the clock reading `nowMs`. -/
inductive CallAt (r : SystemRun ι) (d : ι) (start : ℕ) : ItemId → ItemEvent → ℤ → Prop
  | edit {id op nowMs item} (act : r.act start = .edit d id op nowMs)
      (found : (r.state start).row d id = some item) : CallAt r d start id op.event nowMs
  | create {id name quantity nowMs u k} (call : r.act u = .create d id name quantity nowMs)
      (lt : u < start) (act : r.act start = .lockCreated d k)
      (waits : ((r.state start).created d)[k]? = some (Item.create id name quantity nowMs)) :
      CallAt r d start id (.created name quantity) nowMs

/-- The call that got the storage lock at time `start` returns at time `stop`. -/
structure Returns (r : SystemRun ι) (d : ι) (start stop : ℕ) : Prop where
  lt : start < stop
  le : stop < r.length
  unlock : r.act stop = .unlock d
  held : ∀ u, start < u → u < stop → r.act u ≠ .unlock d

/-- A mutation of the service stores one event on its item. -/
private theorem CallAt.mutation {start stop : ℕ} {event : ItemEvent} {nowMs : ℤ}
    (h : r.CallAt d start id event nowMs) (hreturns : r.Returns d start stop) :
    ∃ item, r.Mutation d start stop item ∧ item.id = id ∧
      item.uncommitted = [⟨event, nowMs⟩] := by
  obtain ⟨hlt, hle, hunlock, hheld⟩ := hreturns
  have hstep := r.step_cases (hlt.trans hle)
  cases h with
  | @edit op _ item hact hfound =>
    rw [hact] at hstep
    generalize hs' : r.state (start + 1) = s' at hstep
    cases hstep with
    | edit free found =>
      obtain rfl := Option.some.inj (hfound.symm.trans found)
      -- a row carries nothing uncommitted, so the operation's event is all there is to store
      obtain ⟨hid, hunc⟩ := id_of_row (hlt.trans hle).le hfound
      refine ⟨op.apply item nowMs, ⟨free, ?_, hlt, hle, hunlock, hheld⟩, ?_, ?_⟩
      · rw [hs']
        exact System.lock_setLock_self _ _ _
      · rw [Operation.apply_eq, Item.newEvent_id, hid]
      · rw [Operation.apply_eq, Item.newEvent_uncommitted, hunc]
        rfl
    | editMissing free missing =>
      rw [missing] at hfound
      cases hfound
  | create _ _ hact hwaits =>
    rw [hact] at hstep
    generalize hs' : r.state (start + 1) = s' at hstep
    cases hstep with
    | lockCreated free mem =>
      obtain rfl := Option.some.inj (hwaits.symm.trans mem)
      refine ⟨Item.create _ _ _ _, ⟨free, ?_, hlt, hle, hunlock, hheld⟩, Item.newEvent_id _ _,
        Item.newEvent_uncommitted _ _⟩
      rw [hs']
      exact System.lock_setLock_self _ _ _

/-- What a store appends is in the log, once, from then on. -/
private theorem count_ids_eq_one {t₁ : ℕ} {eventIds : List Uuid} (ht₁ : t₁ < r.length)
    (ha : r.act t₁ = .append d eventIds) (hlt : t₁ < t) (ht : t ≤ r.length) :
    ∀ x ∈ eventIds, ((r.state t).net.log d).ids.count x = 1 := by
  intro x hx
  obtain ⟨item, -, hlength, hact⟩ := author_of_append ht₁ ha
  obtain ⟨hf, hstate⟩ := NetRun.author_of_act ht₁ hact
  refine List.count_eq_one_of_mem ((r.netRun.sound ht).log_nodup d) ?_
  refine ((r.netRun.extends_of_le hlt ht).log d).subset ?_
  rw [hstate, (r.netRun.sound ht₁.le).ids_author hf,
    ItemStorage.map_replicaEventId_appendEvents, List.map_fst_zip hlength.le]
  exact List.mem_append_right _ hx

/-- The log after the append of a store. -/
private theorem entries_append {t₁ : ℕ} {eventIds : List Uuid} {item : Item} (ht₁ : t₁ < r.length)
    (ha : r.act t₁ = .append d eventIds) (hlock : (r.state t₁).lock d = some (.store item)) :
    (r.state (t₁ + 1)).entries d = (r.state t₁).entries d ++ DeviceEventLog.authoredBatch
      (ItemStorage.appendEvents ((r.state t₁).net.provider d).get item.id
        (eventIds.zip item.uncommitted)) := by
  obtain ⟨item', hlock', -, hact⟩ := author_of_append ht₁ ha
  rw [hlock] at hlock'
  obtain rfl := StorageTask.store.inj (Option.some.inj hlock')
  obtain ⟨hf, hstate⟩ := NetRun.author_of_act ht₁ hact
  have hentries := (r.netRun.sound ht₁.le).entries_author (d := d) hf
  rw [← hstate] at hentries
  exact hentries

/-- The ids that a store draws are new to the log. -/
private theorem notMem_ids_of_append {t₁ : ℕ} {eventIds : List Uuid} (ht₁ : t₁ < r.length)
    (ha : r.act t₁ = .append d eventIds) : ∀ x ∈ eventIds, x ∉ ((r.state t₁).net.log d).ids := by
  intro x hx hmem
  obtain ⟨item, -, hlength, hact⟩ := author_of_append ht₁ ha
  obtain ⟨hf, -⟩ := NetRun.author_of_act ht₁ hact
  have hids : x ∈ (ItemStorage.appendEvents ((r.netRun.state t₁).provider d).get item.id
      (eventIds.zip item.uncommitted)).map AppendEvent.replicaEventId := by
    rw [ItemStorage.map_replicaEventId_appendEvents, List.map_fst_zip hlength.le]
    exact hx
  obtain ⟨ev, hev, rfl⟩ := List.mem_map.mp hids
  exact hf.2 ev hev ((r.netRun.sound ht₁.le).log_subset_authored d _ hmem)

/-- An entry stays, up to the server's stamps. -/
private theorem exists_entry_of_le {t₁ : ℕ} (hlt : t₁ < t) (ht : t ≤ r.length) {e : ItemDescriptor}
    (he : e ∈ (r.state (t₁ + 1)).entries d) :
    ∃ e' ∈ (r.state t).entries d, e'.unstamped = e.unstamped := by
  have hsegment := (r.netRun.sound (Nat.succ_le_of_lt hlt |>.trans ht)).unstamped_isPrefix
    (r.netRun.sound ht) (r.netRun.extends_of_le hlt ht) d
  exact List.mem_map.mp (hsegment.subset (List.mem_map_of_mem he))

/-- **What a store does**: it appends the events that its item carries once, where they stay, and
when it returns the version of its row is past that append. -/
theorem Mutation.stored {start stop : ℕ} {item : Item} (h : r.Mutation d start stop item) :
    ∃ t₁ eventIds, start < t₁ ∧ t₁ < stop ∧ r.act t₁ = .append d eventIds ∧
      (∀ u, start ≤ u → u ≤ stop → ∀ eventIds', r.act u = .append d eventIds' → u = t₁) ∧
      eventIds.length = item.uncommitted.length ∧
      (r.state (t₁ + 1)).entries d = (r.state t₁).entries d ++ DeviceEventLog.authoredBatch
        (ItemStorage.appendEvents ((r.state t₁).net.provider d).get item.id
          (eventIds.zip item.uncommitted)) ∧
      (∀ t, t₁ < t → t ≤ r.length →
        ∀ x ∈ eventIds, ((r.state t).net.log d).ids.count x = 1) ∧
      ∀ t, stop < t → t ≤ r.length → t₁ < r.version d t item.id ∧
        ((r.state (t₁ + 1)).entries d).map EventDescriptor.unstamped
          <+: ((r.state (r.version d t item.id)).entries d).map EventDescriptor.unstamped := by
  obtain ⟨t₁, ρ, ω, eventIds, hst₁, ht₁ρ, hω, hact, hlock, hrebuild, hunique⟩ := h.exists_stages
  have ht₁stop : t₁ < stop := ht₁ρ.trans (hrebuild.lt.trans hω)
  have ht₁ : t₁ < r.length := ht₁stop.trans h.le
  refine ⟨t₁, eventIds, hst₁, ht₁stop, hact, hunique, ?_, entries_append ht₁ hact hlock,
    fun t hlt ht => count_ids_eq_one ht₁ hact hlt ht, fun t hlt ht => ?_⟩
  · obtain ⟨item', hlock', hlength, -⟩ := author_of_append ht₁ hact
    rw [hlock] at hlock'
    obtain rfl := StorageTask.store.inj (Option.some.inj hlock')
    exact hlength
  · have hpast := h.lt_version hst₁.le ht₁stop.le hact hlt
    have hle := (r.version_le d t item.id).trans ht
    exact ⟨hpast, (r.netRun.sound ht₁).unstamped_isPrefix (r.netRun.sound hle)
      (r.netRun.extends_of_le hpast hle) d⟩

end SystemRun

/-- **No local update is lost to a concurrent sync.** Along every run each row of a device is at
every time the fold of the log at some earlier time, its version, and versions never move
backwards. A mutation of the service that found or created its item appends one event of its own,
under an id that is new, at one time between its start and its return. That event stays in the log,
once, with the item, the change and the clock reading of the call; and from the return on the
version of the row is past the append, so that the row reflects the event and all that was in the
log before it. The same holds of any store, with the events that its item carries. -/
theorem no_lost_update [DecidableEq ι] (r : SystemRun ι) (d : ι) :
    ∃ version : ℕ → ItemId → ℕ,
      (∀ t ≤ r.length, ∀ id, version t id ≤ t ∧
        (r.state t).row d id = rowAt ((r.state (version t id)).entries d) id) ∧
      (∀ id t t', t ≤ t' → version t id ≤ version t' id) ∧
      (∀ start stop id event nowMs, r.CallAt d start id event nowMs → r.Returns d start stop →
        ∃ t₁ eventId, start < t₁ ∧ t₁ < stop ∧ r.act t₁ = .append d [eventId] ∧
          (∀ u, start ≤ u → u ≤ stop → ∀ eventIds, r.act u = .append d eventIds → u = t₁) ∧
          eventId ∉ ((r.state t₁).net.log d).ids ∧
          (∀ t, t₁ < t → t ≤ r.length → ((r.state t).net.log d).ids.count eventId = 1 ∧
            ∃ e ∈ (r.state t).entries d, e.replicaEventId = eventId ∧ e.entityId = id ∧
              e.payload = event ∧ e.replicaTimeMs = nowMs) ∧
          ∀ t, stop < t → t ≤ r.length → t₁ < version t id ∧
            ((r.state (t₁ + 1)).entries d).map EventDescriptor.unstamped
              <+: ((r.state (version t id)).entries d).map EventDescriptor.unstamped) ∧
      ∀ start stop item, r.Mutation d start stop item →
        ∃ t₁ eventIds, start < t₁ ∧ t₁ < stop ∧ r.act t₁ = .append d eventIds ∧
          (∀ u, start ≤ u → u ≤ stop → ∀ eventIds', r.act u = .append d eventIds' → u = t₁) ∧
          eventIds.length = item.uncommitted.length ∧
          (r.state (t₁ + 1)).entries d = (r.state t₁).entries d ++ DeviceEventLog.authoredBatch
            (ItemStorage.appendEvents ((r.state t₁).net.provider d).get item.id
              (eventIds.zip item.uncommitted)) ∧
          (∀ t, t₁ < t → t ≤ r.length →
            ∀ x ∈ eventIds, ((r.state t).net.log d).ids.count x = 1) ∧
          ∀ t, stop < t → t ≤ r.length → t₁ < version t item.id ∧
            ((r.state (t₁ + 1)).entries d).map EventDescriptor.unstamped
              <+: ((r.state (version t item.id)).entries d).map EventDescriptor.unstamped := by
  refine ⟨r.version d, fun t ht id => ⟨r.version_le d t id, r.row_eq d ht id⟩,
    fun id t t' h => Snapshot.version_mono _ id h, ?_, fun start stop item hm => hm.stored⟩
  intro start stop id event nowMs hcall hreturns
  obtain ⟨item, hm, rfl, hunc⟩ := hcall.mutation hreturns
  obtain ⟨t₁, eventIds, hstart, hstop, hact, hunique, hlength, hentries, hcount, hpast⟩ := hm.stored
  have ht₁ : t₁ < r.length := hstop.trans hm.le
  rw [hunc] at hlength hentries
  obtain ⟨eventId, rfl⟩ := List.length_eq_one_iff.mp hlength
  refine ⟨t₁, eventId, hstart, hstop, hact, hunique, SystemRun.notMem_ids_of_append ht₁ hact _
    List.mem_cons_self, fun t hlt ht => ⟨hcount t hlt ht eventId List.mem_cons_self, ?_⟩, hpast⟩
  -- the entry that the append made, stamped or not
  obtain ⟨e, he, hunstamped⟩ := SystemRun.exists_entry_of_le hlt ht
    (hentries ▸ List.mem_append_right _ List.mem_cons_self)
  refine ⟨e, he, ?_⟩
  have hfields := congrArg (fun e : ItemDescriptor =>
    (e.replicaEventId, e.entityId, e.payload, e.replicaTimeMs)) hunstamped
  simpa [DeviceEventLog.authored] using hfields

/-- A device creates an item and edits it. -/
def editedItem : List (Action Unit) :=
  [.create () ⟨7⟩ "milk" 2 100, .lockCreated () 0, .append () [9], .read (), .write (), .unlock (),
    .edit () ⟨7⟩ (.setQuantity 5) 110, .append () [4], .read (), .write (), .unlock ()]

def editedItemRun : SystemRun Unit :=
  .ofList (fun _ => ⟨"A"⟩) editedItem (.unlock ()) (by decide +kernel)

theorem no_lost_update_editedItem : ∃ version : ℕ → ItemId → ℕ, 7 < version 11 ⟨7⟩ ∧
    (editedItemRun.state 11).row () ⟨7⟩
      = rowAt ((editedItemRun.state (version 11 ⟨7⟩)).entries ()) ⟨7⟩ ∧
    ∃ e ∈ (editedItemRun.state 11).entries (), e.payload = .quantityChanged 5 := by
  obtain ⟨version, hrow, -, hcall, -⟩ := no_lost_update editedItemRun ()
  obtain ⟨item, hfound⟩ := Option.isSome_iff_exists.mp
    (show ((editedItemRun.state 6).row () ⟨7⟩).isSome by decide +kernel)
  have hedit : editedItemRun.CallAt () 6 ⟨7⟩ (Operation.setQuantity 5).event 110 :=
    .edit rfl hfound
  obtain ⟨t₁, eventId, hstart, hstop, hact, -, -, hevent, hpast⟩ :=
    hcall 6 10 ⟨7⟩ _ 110 hedit
      ⟨by decide, by decide, rfl, fun u hu hu' hu'' => by interval_cases u <;> cases hu''⟩
  have hpast := (hpast 11 (by decide) (by decide)).1
  obtain ⟨-, e, he, -, -, hpayload, -⟩ := hevent 11 (by omega) (by decide)
  refine ⟨version, ?_, (hrow 11 (by decide) ⟨7⟩).2, e, he, hpayload⟩
  interval_cases t₁
  · exact hpast
  · cases hact
  · cases hact

end OfflineSync
