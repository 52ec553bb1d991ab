import OfflineSync.Phones

/-!
# The listener

`on_items_changed` tells the app to read its items again. When a task calls it, `sync_once` has
returned `Ok(true)` to that task, so the rebuild of what the round touched is over: every touched
row shows all that was in the log when the round returned (`notified_rows`), whatever other tasks,
service operations and phones did meanwhile, and each such round is answered by one call.

The round and the call are apart: other rounds may run while the task waits for the storage, and
stores may refresh the same rows before it. `PhoneRun.Owes` says what a task on the way from the one
to the other has behind it, and `PhoneRun.NotifyOk` what the rows have.
-/

namespace OfflineSync

variable {ι : Type} [DecidableEq ι]

/-! ### The way of a task through `sync_once` -/

namespace Phones

/-- What a step does to a task from the return of its `sync` to the call of the listener. -/
inductive OnceStep (s s' : Phones ι) (d : ι) (T : RunnerTask) : PhoneAction ι → Prop
  | keep {a} (same : s'.once d T = s.once d T) (lockLog : a ≠ .lockLog d T)
      (notify : a ≠ .notify d T)
      (unlock : s.rebuilder d = some T → a ≠ .storage (.unlock d)) : OnceStep s s' d T a
  | ends {b touched} (ends : s.net.ends b = some (d, touched)) (active : s.active d = some T)
      (next : s'.once d T = some (.after touched)) : OnceStep s s' d T (.sync b)
  | lockStorage {k touched} (waits : s.once d T = some (.storage touched))
      (next : s'.once d T = some (.rebuilding touched))
      (lock : s'.system.lock d = some (.project touched)) :
      OnceStep s s' d T (.lockStorage d T k)
  | rebuilt (held : s.system.lock d = some (.project [])) (rebuilder : s.rebuilder d = some T)
      (next : s'.once d T = some .notify) : OnceStep s s' d T (.storage (.unlock d))
  | other {a} (next : s'.once d T = none ∨ s'.once d T = some .log ∨
      s'.once d T = some .syncing ∨ s'.once d T = some .returned) : OnceStep s s' d T a

variable {s s' : Phones ι} {a : PhoneAction ι} {d : ι} {T : RunnerTask}

private theorem Step.onceStep (h : Step s a s') (d : ι) (T : RunnerTask) : OnceStep s s' d T a := by
  have hother : ∀ {d' T'} (pc : Option SyncOncePc), ¬ (d' = d ∧ T' = T) →
      (s.setOnce d' T' pc).once d T = s.once d T := by
    intro d' T' pc hne
    rcases eq_or_ne d d' with rfl | hd
    · exact once_setOnce_of_ne fun hT => hne ⟨rfl, hT.symm⟩
    · rw [once_setOnce_of_device_ne hd]
  cases h with
  | call | setListener | outside => exact .keep rfl (by simp) (by simp) (by simp)
  | @enter d' T' runner =>
    by_cases hT : d' = d ∧ T' = T
    · obtain ⟨rfl, rfl⟩ := hT
      exact .other (.inr (.inl once_setOnce_self))
    · exact .keep (hother _ hT) (by simp) (by simp) (by simp)
  | @leave d' T' runner =>
    by_cases hT : d' = d ∧ T' = T
    · obtain ⟨rfl, rfl⟩ := hT
      exact .other (.inl once_setOnce_self)
    · exact .keep (hother _ hT) (by simp) (by simp) (by simp)
  | @lockLog d' T' system =>
    by_cases hT : d' = d ∧ T' = T
    · obtain ⟨rfl, rfl⟩ := hT
      exact .other (.inr (.inr (.inl once_setOnce_self)))
    · exact .keep (hother _ hT) (by simpa using hT) (by simp) (by simp)
  | sync => exact .keep rfl (by simp) (by simp) (by simp)
  | @ends b d' T' touched system step ends active =>
    by_cases hT : d' = d ∧ T' = T
    · obtain ⟨rfl, rfl⟩ := hT
      exact .ends ends active once_setOnce_self
    · exact .keep (hother _ hT) (by simp) (by simp) (by simp)
  | @lockStorage d' T' k touched system waits mem step =>
    by_cases hT : d' = d ∧ T' = T
    · obtain ⟨rfl, rfl⟩ := hT
      refine .lockStorage waits once_setOnce_self ?_
      cases System.step_cases step with
      | lockRebuild free mem' =>
        obtain rfl := Option.some.inj (mem.symm.trans mem')
        exact System.lock_setLock_self _ _ _
    · exact .keep (hother _ hT) (by simp) (by simp) (by simp)
  | @rebuilt d' T' system step rebuilder =>
    by_cases hT : d' = d ∧ T' = T
    · obtain ⟨rfl, rfl⟩ := hT
      refine .rebuilt ?_ rebuilder once_setOnce_self
      cases System.step_cases step with
      | unlock held => exact held
    · refine .keep (hother _ hT) (by simp) (by simp) fun hrebuilder heq => hT ?_
      obtain rfl : d' = d := by simpa using heq
      exact ⟨rfl, Option.some.inj (rebuilder.symm.trans hrebuilder)⟩
  | @storage a system sync lock service step =>
    refine .keep rfl (by simp) (by simp) fun hrebuilder heq => ?_
    rw [service d (PhoneAction.storage.inj heq)] at hrebuilder
    cases hrebuilder
  | @notify d' T' waits =>
    by_cases hT : d' = d ∧ T' = T
    · obtain ⟨rfl, rfl⟩ := hT
      exact .other (.inr (.inr (.inr once_setOnce_self)))
    · exact .keep (hother _ hT) (by simp) (by simpa using hT) (by simp)

omit [DecidableEq ι] in
private theorem eq_storage_unlock (h : systemAction a = some (.unlock d)) :
    a = .storage (.unlock d) := by
  cases a with
  | storage => exact congrArg PhoneAction.storage (Option.some.inj h)
  | lockLog | sync | lockStorage | call | setListener | task | notify => cases h

end Phones

namespace PhoneRun

variable {r : PhoneRun ι} {d : ι} {T : RunnerTask} {t b : ℕ} {id : ItemId}
  {touched : List ItemId}

/-! ### The tables of the phones -/

/-- A step of the stores, or none. -/
private theorem system_cases (r : PhoneRun ι) (ht : t < r.length) :
    (r.state (t + 1)).system = (r.state t).system ∨
      ∃ a, System.Step (r.state t).system a (r.state (t + 1)).system ∧
        Phones.systemAction (r.act t) = some a := by
  have hstep := (r.step_cases ht).system
  cases ha : Phones.systemAction (r.act t) with
  | none =>
    rw [ha] at hstep
    exact .inl (Option.some.inj hstep).symm
  | some a =>
    rw [ha] at hstep
    exact .inr ⟨a, System.step_cases hstep, rfl⟩

/-- The history of the table of a phone along a run. -/
private theorem tableHistory (r : PhoneRun ι) (d : ι) :
    Snapshot.History rowAt r.length fun t => (r.state t).system.snap d where
  row_zero := by
    intro id
    obtain ⟨⟨⟨-, -, -, hlog⟩, -, hd⟩, -⟩ := r.init_state
    have hentries : (r.state 0).system.entries d = [] := by
      rw [System.entries, (hlog d).1]
      rfl
    have hitems : (r.state 0).system.items d = ∅ := (hd d).1
    change ((r.state 0).system.items d).lookup id = rowAt ((r.state 0).system.entries d) id
    rw [hentries, hitems, AList.lookup_empty, rowAt_eq_none_of_forall_ne]
    exact fun _ he => absurd he List.not_mem_nil
  loaded_zero := by
    obtain ⟨⟨-, -, hd⟩, -⟩ := r.init_state
    change StorageTask.loaded ((r.state 0).system.lock d) = none
    rw [(hd d).2.1]
    rfl
  step := fun t ht => by
    rcases r.system_cases ht with heq | ⟨a, hstep, -⟩
    · exact .other (by rw [heq]) (by rw [heq])
    · exact hstep.snap d

/-- The time whose log the row of an item shows. -/
noncomputable def version (r : PhoneRun ι) (d : ι) : ℕ → ItemId → ℕ :=
  Snapshot.version fun t => (r.state t).system.snap d

/-- The time of the last read of the log for a row. -/
noncomputable def loadTime (r : PhoneRun ι) (d : ι) : ℕ → ℕ :=
  Snapshot.loadTime fun t => (r.state t).system.snap d

private theorem version_le (r : PhoneRun ι) (d : ι) (t : ℕ) (id : ItemId) : r.version d t id ≤ t :=
  Snapshot.version_le _ t id

/-- Every row is the fold of the log at its version. -/
private theorem row_eq (r : PhoneRun ι) (d : ι) (ht : t ≤ r.length) (id : ItemId) :
    (r.state t).system.row d id
      = rowAt ((r.state (r.version d t id)).system.entries d) id :=
  (r.tableHistory d).row_eq_view ht id

/-! ### From the return of a round to the call -/

/-- The `sync` of a task returned the ids at time `b`, and the task has not called the listener
since. -/
structure Owes (r : PhoneRun ι) (d : ι) (T : RunnerTask) (b : ℕ) (touched : List ItemId)
    (t : ℕ) : Prop where
  returns : ∃ a, r.act b = .sync a ∧ (r.state b).net.returns a = some (d, touched)
  active : (r.state b).active d = some T
  ne : touched ≠ []
  lt : b < t
  since : ∀ v, b < v → v < t → r.act v ≠ .lockLog d T ∧ r.act v ≠ .notify d T

/-- The rebuild of the ids under way: each row is still to be written, from a read after time `b`,
or shows the log of a later time. -/
structure Rebuilding (r : PhoneRun ι) (d : ι) (b : ℕ) (touched : List ItemId) (t : ℕ) : Prop where
  held : ∃ task, (r.state t).system.lock d = some task ∧ ∀ item, task ≠ .store item
  todo : ∀ id ∈ touched, id ∈ StorageTask.todo ((r.state t).system.lock d) ∨
    b < r.version d t id
  loaded : ∀ id events ids, (r.state t).system.lock d = some (.write id events ids) →
    b < r.loadTime d t

/-- What a task on its way to the call has behind it. -/
structure NotifyOk (r : PhoneRun ι) (d : ι) (T : RunnerTask) (t : ℕ) : Prop where
  storage : ∀ touched, (r.state t).once d T = some (.storage touched) →
    ∃ b, r.Owes d T b touched t
  rebuilding : ∀ touched, (r.state t).once d T = some (.rebuilding touched) →
    ∃ b, r.Owes d T b touched t ∧ r.Rebuilding d b touched t
  notify : (r.state t).once d T = some .notify →
    ∃ b touched, r.Owes d T b touched t ∧ ∀ id ∈ touched, b < r.version d t id

private theorem Owes.succ (h : r.Owes d T b touched t) (hlock : r.act t ≠ .lockLog d T)
    (hnotify : r.act t ≠ .notify d T) : r.Owes d T b touched (t + 1) where
  returns := h.returns
  active := h.active
  ne := h.ne
  lt := h.lt.trans (Nat.lt_succ_self t)
  since := fun v hbv hvt => by
    rcases Nat.lt_succ_iff_lt_or_eq.mp hvt with hvt | rfl
    · exact h.since v hbv hvt
    · exact ⟨hlock, hnotify⟩

private theorem version_mono (r : PhoneRun ι) (d : ι) (id : ItemId) (t : ℕ) :
    r.version d t id ≤ r.version d (t + 1) id :=
  Snapshot.version_mono _ id (Nat.le_succ t)

/-- The write of a row that was read. -/
private theorem writes_of_lock {events : List ItemDescriptor} {ids : List ItemId}
    (hl : (r.state t).system.lock d = some (.write id events ids))
    (hstep : System.Step (r.state t).system (.write d) (r.state (t + 1)).system) :
    Snapshot.Writes (fun t => (r.state t).system.snap d) t id := by
  obtain ⟨id', events', ids', hheld, hnext, hrow⟩ := hstep.of_write
  rw [hl] at hheld
  obtain ⟨rfl, rfl, rfl⟩ := StorageTask.write.inj (Option.some.inj hheld)
  refine ⟨?_, ?_⟩
  · change StorageTask.loaded ((r.state t).system.lock d)
      = some (id, (r.state (t + 1)).system.row d id)
    rw [hl, hrow]
    rfl
  · change StorageTask.loaded ((r.state (t + 1)).system.lock d) = none
    rw [hnext]
    rfl

/-- **A step of the rebuild**: it reads the log, and it writes a row that it has read. -/
theorem Rebuilding.succ (h : r.Rebuilding d b touched t) (ht : t < r.length) (hbt : b < t)
    (hunlock : r.act t ≠ .storage (.unlock d)) : r.Rebuilding d b touched (t + 1) := by
  obtain ⟨task, hlock, hstore⟩ := h.held
  have hkeep : ∀ id ∈ touched, id ∈ StorageTask.todo ((r.state t).system.lock d) ∨
      b < r.version d (t + 1) id := fun id hid =>
    (h.todo id hid).imp_right fun hlt => hlt.trans_le (r.version_mono d id t)
  have hsame : (r.state (t + 1)).system.lock d = (r.state t).system.lock d →
      r.Rebuilding d b touched (t + 1) := by
    intro heq
    refine ⟨⟨task, heq.trans hlock, hstore⟩, by rw [heq]; exact hkeep, fun id events ids hl => ?_⟩
    rw [heq] at hl
    rw [loadTime, Snapshot.loadTime_succ_of_some]
    · exact h.loaded id events ids hl
    · change StorageTask.loaded ((r.state t).system.lock d) ≠ none
      rw [hl]
      exact Option.some_ne_none _
  rcases r.system_cases ht with heq | ⟨a, hstep, ha⟩
  · exact hsame (by rw [heq])
  · have hnot : a ≠ .unlock d := by
      rintro rfl
      exact hunlock (Phones.eq_storage_unlock ha)
    generalize hact : a = a' at hstep
    cases hstep.lockStep d with
    | keep same => exact hsame same
    | acquire free =>
      rw [hlock] at free
      cases free
    | @append item eventIds held =>
      rw [hlock] at held
      exact absurd (Option.some.inj held) (hstore item)
    | @read id ids held next =>
      refine ⟨⟨_, next, by simp⟩, fun id' hid' => ?_, fun id' events ids' hl => ?_⟩
      · rw [next]
        have hid' := hkeep id' hid'
        rw [held] at hid'
        exact hid'
      · -- the log is read at time `t`
        rw [loadTime, Snapshot.loadTime_succ_of_load]
        · exact hbt
        · change StorageTask.loaded ((r.state t).system.lock d) = none
          rw [held]
          rfl
        · change StorageTask.loaded ((r.state (t + 1)).system.lock d) ≠ none
          rw [next]
          exact Option.some_ne_none _
    | @write id events ids held next =>
      refine ⟨⟨_, next, by simp⟩, fun id' hid' => ?_, fun id' events ids' hl => ?_⟩
      · rw [next]
        rcases eq_or_ne id' id with rfl | hne
        · -- the row written now was read after time `b`
          right
          rw [version, Snapshot.version_succ_of_write (writes_of_lock held hstep)]
          exact h.loaded id' events ids held
        · have hid' := hkeep id' hid'
          rw [held] at hid'
          exact hid'.imp_left fun hmem => (List.mem_cons.mp hmem).resolve_left hne
      · rw [next] at hl
        cases hl
    | unlock => exact absurd hact hnot

/-- A round that returned ids is answered by a rebuild of them and by a call, in this order. -/
private theorem notifyOk (r : PhoneRun ι) (d : ι) (T : RunnerTask) (ht : t ≤ r.length) :
    r.NotifyOk d T t := by
  refine r.le_induction (P := r.NotifyOk d T) ?_ (fun t _ ht ih => ?_) t (Nat.zero_le t) ht
  · have honce := (r.init_state.2 d).2.2.2.2 T
    exact ⟨by simp [honce], by simp [honce], by simp [honce]⟩
  · have hstep := (r.step_cases ht).onceStep d T
    generalize hact : r.act t = a at hstep
    cases hstep with
    | keep same lockLog notify unlock =>
      rw [← hact] at lockLog notify unlock
      refine ⟨fun touched honce => ?_, fun touched honce => ?_, fun honce => ?_⟩
      · obtain ⟨b, howes⟩ := ih.storage touched (same ▸ honce)
        exact ⟨b, howes.succ lockLog notify⟩
      · rw [same] at honce
        obtain ⟨b, howes, hrebuild⟩ := ih.rebuilding touched honce
        have hrebuilder := ((r.wired d ht.le).rebuilder T).mpr ⟨touched, honce⟩
        exact ⟨b, howes.succ lockLog notify, hrebuild.succ ht howes.lt (unlock hrebuilder)⟩
      · obtain ⟨b, touched, howes, hversion⟩ := ih.notify (same ▸ honce)
        exact ⟨b, touched, howes.succ lockLog notify, fun id hid =>
          (hversion id hid).trans_le (r.version_mono d id t)⟩
    | @ends a touched ends active next =>
      by_cases hnil : touched = []
      · -- nothing touched, nothing to rebuild
        rw [SyncOncePc.after, if_pos hnil] at next
        constructor <;> simp [next]
      · rw [SyncOncePc.after, if_neg hnil] at next
        refine ⟨fun ids honce => ⟨t, ?_⟩, by simp [next], by simp [next]⟩
        obtain rfl : touched = ids := by simpa [next] using honce
        have hreturns : (r.state t).net.returns a = some (d, touched) :=
          (Net.ends_eq_some ends).resolve_left fun h => hnil h.2
        exact ⟨⟨a, hact, hreturns⟩, active, hnil, Nat.lt_succ_self t, fun v htv hvt => by omega⟩
    | @lockStorage k touched waits next lock =>
      refine ⟨by simp [next], fun ids honce => ?_, by simp [next]⟩
      obtain rfl : touched = ids := by simpa [next] using honce
      obtain ⟨b, howes⟩ := ih.storage touched waits
      refine ⟨b, howes.succ (by simp [hact]) (by simp [hact]), ⟨_, lock, by simp⟩, fun id hid => ?_,
        fun id events ids hl => ?_⟩
      · rw [lock]
        exact .inl hid
      · rw [lock] at hl
        cases hl
    | rebuilt held rebuilder next =>
      refine ⟨by simp [next], by simp [next], fun _ => ?_⟩
      obtain ⟨touched, honce⟩ := ((r.wired d ht.le).rebuilder T).mp rebuilder
      obtain ⟨b, howes, hrebuild⟩ := ih.rebuilding touched honce
      refine ⟨b, touched, howes.succ (by simp [hact]) (by simp [hact]), fun id hid => ?_⟩
      -- nothing is left to rebuild
      have htodo := hrebuild.todo id hid
      rw [held] at htodo
      exact (htodo.resolve_left List.not_mem_nil).trans_le (r.version_mono d id t)
    | other next =>
      rcases next with next | next | next | next <;>
        exact ⟨by simp [next], by simp [next], by simp [next]⟩

/-- The listener is called at time `t`. -/
def Calls (r : PhoneRun ι) (d : ι) (l t : ℕ) : Prop :=
  ∃ T, r.act t = .notify d T ∧ (r.state t).listener d = some l

end PhoneRun

/-- **The app reads what the round brought.** A call of the listener answers one round of one task:
its `sync` returned `Ok` with the touched ids at some time `b`, and the task has not called the
listener since. From the call on, the row of each touched item shows the log of some time after `b`,
and so all that was in it when the round returned. -/
theorem notified_rows (r : PhoneRun ι) (d : ι) {l t : ℕ} (ht : t < r.length) (h : r.Calls d l t) :
    ∃ T b touched, r.act t = .notify d T ∧ r.Owes d T b touched t ∧
      ∀ t', t ≤ t' → t' ≤ r.length → ∀ id ∈ touched, ∃ v, b < v ∧ v ≤ t' ∧
        (r.state t').system.row d id = rowAt ((r.state v).system.entries d) id ∧
        ((r.state (b + 1)).system.entries d).map EventDescriptor.unstamped
          <+: ((r.state v).system.entries d).map EventDescriptor.unstamped := by
  obtain ⟨T, ha, -⟩ := h
  have honce : (r.state t).once d T = some .notify := by
    have hstep := r.step_cases ht
    rw [ha] at hstep
    generalize r.state (t + 1) = s' at hstep
    cases hstep with
    | notify waits => exact waits
  obtain ⟨b, touched, howes, hversion⟩ := (r.notifyOk d T ht.le).notify honce
  refine ⟨T, b, touched, ha, howes, fun t' htt' ht' id hid => ?_⟩
  have hlt : b + 1 ≤ r.version d t' id :=
    (hversion id hid).trans_le (Snapshot.version_mono _ id htt')
  have hle := (r.version_le d t' id).trans ht'
  exact ⟨r.version d t' id, hlt, r.version_le d t' id, r.row_eq d ht' id,
    (r.netRun.sound (hlt.trans hle)).unstamped_isPrefix (r.netRun.sound hle)
      (r.netRun.extends_of_le hlt hle) d⟩

/-- A phone creates an item and syncs by hand. Its own event comes back with the pull, the row is
built again, and the listener is called. -/
def ownItem : List (PhoneAction Unit) :=
  [.setListener () 5, .storage (.create () ⟨7⟩ "milk" 2 100), .storage (.lockCreated () 0),
    .storage (.append () [1]), .storage (.read ()), .storage (.write ()), .storage (.unlock ()),
    .call () .syncNow, .task () (.round 0), .task () (.round 0), .lockLog () (.round 0),
    .sync (.send ()), .sync (.handle () fun _ => 0), .sync (.ack ()), .sync (.send ()),
    .sync (.answer ()), .sync (.take ()), .sync (.answer ()), .sync (.take ()),
    .lockStorage () (.round 0) 0, .storage (.read ()), .storage (.write ()), .storage (.unlock ()),
    .notify () (.round 0), .task () (.round 0)]

def ownItemRun : PhoneRun Unit :=
  .ofList (fun _ => ⟨"A"⟩) ownItem (.notify () (.round 0)) (by decide +kernel)

theorem notified_rows_ownItem : ∃ b v id, b < v ∧
    (ownItemRun.state 25).system.row () id = rowAt ((ownItemRun.state v).system.entries ()) id ∧
    ((ownItemRun.state (b + 1)).system.entries ()).map EventDescriptor.unstamped
      <+: ((ownItemRun.state v).system.entries ()).map EventDescriptor.unstamped := by
  obtain ⟨T, b, touched, -, howes, hrows⟩ := notified_rows ownItemRun () (l := 5) (t := 23)
    (by decide) ⟨.round 0, rfl, by decide +kernel⟩
  obtain ⟨id, hid⟩ := List.exists_mem_of_ne_nil touched howes.ne
  obtain ⟨v, hbv, -, hrow, hlog⟩ := hrows 25 (by decide) (by decide) id hid
  exact ⟨b, v, id, hbv, hrow, hlog⟩

end OfflineSync
