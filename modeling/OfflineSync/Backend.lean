import OfflineSync.NetRun
import OfflineSync.Lib.Snapshot

/-!
# The push handlers of the server

`append_events` of `backend/src/server.rs`, any number of them at once. A handler appends its
body to the log in one go, and then, under the storage lock, rebuilds the projection of every
stored descriptor before it responds. In between other handlers may append and rebuild, and a
handler may be dropped at any point after its append, so that a row may stay behind the log.

A handler that responds leaves no such row: `BackendRun.shown_of_responded` says that the rows of
its descriptors have a version at which the log held them. Once every event of the log has been in
some push that was responded to, the table is the fold of the log (`acknowledged_rows_fresh`),
whatever else was going on and whoever stored the events first.
-/

namespace OfflineSync

/-- A `POST /events` handler after its append: the request body and the events as stored. -/
structure Handler where
  body : List ItemAppend
  stored : List ItemDescriptor
deriving DecidableEq, Repr

/-- The server's stores and the handlers at work. -/
structure Backend where
  log : ServerEventLog
  items : ItemTable
  /-- The handler that holds the storage lock, with what it has left to do. -/
  lock : Option (Handler × StorageTask)
  /-- The handlers that wait for the storage lock. -/
  waiting : List Handler
  /-- The handlers that responded. -/
  responded : List Handler

/-- The steps of the handlers. -/
inductive BackendAction
  /-- A request arrives and its events are appended. -/
  | post (body : List ItemAppend) (now : ℕ → ℤ)
  /-- The `k`-th waiting handler gets the storage lock. -/
  | lock (k : ℕ)
  /-- `events_of_entity` in `build_projection`. -/
  | read
  /-- The write of the row in `build_projection`. -/
  | write
  /-- The loop is over: the handler frees the lock and responds. -/
  | respond
  /-- The `k`-th waiting handler is dropped. -/
  | abortWaiting (k : ℕ)
  /-- The handler that holds the storage lock is dropped. -/
  | abort

namespace Backend

/-- The storage of the server. -/
def storage (s : Backend) : ItemStorage where
  replicaIdProvider := ⟨"server"⟩
  items := s.items

/-- The row of an item in the table of the server. -/
def row (s : Backend) (id : ItemId) : Option Item :=
  s.storage.findById id

/-- One step of the handlers; `none` when it is not enabled. -/
def step (s : Backend) : BackendAction → Option Backend
  | .post body now =>
    -- the log is locked for the append alone
    let stored := s.log.append now body
    some { s with log := stored.1, waiting := ⟨body, stored.2⟩ :: s.waiting }
  | .lock k =>
    match s.lock, s.waiting[k]? with
    | none, some h =>
      some { s with
        lock := some (h, .project (h.stored.map EventDescriptor.entityId))
        waiting := s.waiting.eraseIdx k }
    | _, _ => none
  | .read =>
    match s.lock with
    | some (h, .project (id :: ids)) =>
      some { s with lock := some (h, .write id (s.log.eventsOfEntity id) ids) }
    | _ => none
  | .write =>
    match s.lock with
    | some (h, .write id events ids) =>
      some { s with
        items := (s.storage.project id events).items
        lock := some (h, .project ids) }
    | _ => none
  | .respond =>
    match s.lock with
    | some (h, .project []) => some { s with lock := none, responded := h :: s.responded }
    | _ => none
  | .abortWaiting k =>
    match s.waiting[k]? with
    | some _ => some { s with waiting := s.waiting.eraseIdx k }
    | none => none
  | .abort =>
    match s.lock with
    | some _ => some { s with lock := none }
    | none => none

/-- The server as `build_router` makes it. -/
def start : Backend where
  log := .new
  items := (ItemStorage.new ⟨"server"⟩).items
  lock := none
  waiting := []
  responded := []

/-- The handlers as a machine. -/
def machine : Machine Backend BackendAction where
  init s := s = start
  step := step

/-- The steps of the handlers, one case for each way an enabled action can go. -/
inductive Step (s : Backend) : BackendAction → Backend → Prop
  | post {body now} : Step s (.post body now) { s with
      log := (s.log.append now body).1
      waiting := ⟨body, (s.log.append now body).2⟩ :: s.waiting }
  | lock {k h} (free : s.lock = none) (mem : s.waiting[k]? = some h) :
      Step s (.lock k) { s with
        lock := some (h, .project (h.stored.map EventDescriptor.entityId))
        waiting := s.waiting.eraseIdx k }
  | read {h id ids} (held : s.lock = some (h, .project (id :: ids))) :
      Step s .read { s with lock := some (h, .write id (eventsOf s.log.entries id) ids) }
  | write {h id events ids} (held : s.lock = some (h, .write id events ids)) :
      Step s .write { s with
        items := (s.storage.project id events).items
        lock := some (h, .project ids) }
  | respond {h} (held : s.lock = some (h, .project [])) :
      Step s .respond { s with lock := none, responded := h :: s.responded }
  | abortWaiting {k h} (mem : s.waiting[k]? = some h) :
      Step s (.abortWaiting k) { s with waiting := s.waiting.eraseIdx k }
  | abort {h task} (held : s.lock = some (h, task)) : Step s .abort { s with lock := none }

/-- An enabled step is one of the cases of `Step`. -/
private theorem step_cases {s s' : Backend} {a : BackendAction} (h : machine.step s a = some s') :
    Step s a s' := by
  simp only [machine] at h
  cases a with
  | post body now => exact Option.some.inj h ▸ .post
  | lock k =>
    simp only [step] at h
    split at h
    next handler hlock hmem => exact Option.some.inj h ▸ .lock hlock hmem
    next => cases h
  | read =>
    simp only [step] at h
    split at h
    next handler id ids hlock => exact Option.some.inj h ▸ .read hlock
    next => cases h
  | write =>
    simp only [step] at h
    split at h
    next handler id events ids hlock => exact Option.some.inj h ▸ .write hlock
    next => cases h
  | respond =>
    simp only [step] at h
    split at h
    next handler hlock => exact Option.some.inj h ▸ .respond hlock
    next => cases h
  | abortWaiting k =>
    simp only [step] at h
    split at h
    next handler hmem => exact Option.some.inj h ▸ .abortWaiting hmem
    next => cases h
  | abort =>
    simp only [step] at h
    split at h
    next handler hlock => exact Option.some.inj h ▸ .abort hlock
    next => cases h

/-- Without an append in between, a read and the write after it are `build_projection`. -/
theorem exec_buildProjection {s : Backend} {h : Handler} {id : ItemId} {ids : List ItemId}
    (held : s.lock = some (h, .project (id :: ids))) :
    machine.exec s [.read, .write] = some { s with
      items := (s.storage.buildProjection s.log id).items
      lock := some (h, .project ids) } := by
  simp only [Machine.exec, machine, step, held, Option.bind_some]
  rfl

/-! ### The handlers -/

/-- The handlers at work and those that responded. -/
def handlers (s : Backend) : List Handler :=
  (s.lock.map Prod.fst).toList ++ s.waiting ++ s.responded

/-- What a handler has from its append: an answer aligned with its body, of entries that the log
has held since. -/
structure HandlerOk (s : Backend) (h : Handler) : Prop where
  ids : eventIds h.stored = h.body.map AppendEvent.replicaEventId
  stored : ∀ d ∈ h.stored, d ∈ s.log.entries

private theorem Step.entries_isPrefix {s s' : Backend} {a : BackendAction} (h : Step s a s') :
    s.log.entries <+: s'.log.entries := by
  cases h with
  | @post body now =>
    obtain ⟨new, hnew, -⟩ := s.log.exists_entries_append now body
    exact ⟨new, hnew.symm⟩
  | _ => exact List.prefix_rfl

/-- A handler comes in by an append. -/
private theorem Step.handlerOk {s s' : Backend} {a : BackendAction} (hstep : Step s a s')
    (hs : ∀ h ∈ s.handlers, s.HandlerOk h) : ∀ h ∈ s'.handlers, s'.HandlerOk h := by
  have hold : ∀ h ∈ s.handlers, s'.HandlerOk h := fun h hh =>
    ⟨(hs h hh).ids, fun d hd => hstep.entries_isPrefix.subset ((hs h hh).stored d hd)⟩
  intro h hh
  by_cases hmem : h ∈ s.handlers
  · exact hold h hmem
  · cases hstep with
    | @post body now =>
      have heq : h = ⟨body, (s.log.append now body).2⟩ := by
        simp only [handlers, List.mem_append, List.mem_cons, not_or] at hh hmem
        tauto
      subst heq
      exact ⟨s.log.eventIds_append_snd now body,
        s.log.mem_entries_of_mem_append_snd now body⟩
    | @lock k h' free mem =>
      -- a handler that waited now holds the lock
      refine absurd ?_ hmem
      simp only [handlers, List.mem_append, Option.map_some, Option.toList_some,
        List.mem_singleton] at hh ⊢
      rcases hh with (rfl | hh) | hh
      · exact .inl (.inr (List.mem_of_getElem? mem))
      · exact .inl (.inr (List.mem_of_mem_eraseIdx hh))
      · exact .inr hh
    | read held | write held | respond held | abort held =>
      refine absurd ?_ hmem
      simp only [handlers, held, List.mem_append, List.mem_cons, Option.map_some,
        Option.toList_some, Option.map_none, Option.toList_none] at hh ⊢
      tauto
    | abortWaiting mem =>
      refine absurd ?_ hmem
      simp only [handlers, List.mem_append] at hh ⊢
      exact hh.imp_left (Or.imp_right List.mem_of_mem_eraseIdx)

/-! ### The table -/

/-- The table of the server over its log. -/
def snap (s : Backend) : Snapshot.State (List ItemDescriptor) ItemId (Option Item) where
  log := s.log.entries
  row := s.row
  loaded := StorageTask.loaded (s.lock.map Prod.snd)

/-- The write of a row. -/
private theorem Step.of_write {s s' : Backend} (h : Step s .write s') :
    ∃ handler id events ids, s.lock = some (handler, .write id events ids) ∧
      s'.lock = some (handler, .project ids) ∧ s'.row id = rowOf events := by
  cases h with
  | write held => exact ⟨_, _, _, _, held, rfl, ItemTable.lookup_setRow_self _ _ _⟩

/-- A step of the handlers is a step of the table. -/
private theorem Step.snap {s s' : Backend} {a : BackendAction} (h : Step s a s') :
    Snapshot.Step rowAt s.snap s'.snap := by
  cases h with
  | post | abortWaiting => exact .other rfl rfl
  | lock free => exact .other rfl (by simp only [Backend.snap, free]; rfl)
  | respond held => exact .other rfl (by simp only [Backend.snap, held]; rfl)
  | abort => exact .drop rfl rfl
  | @read handler id ids held =>
    exact .load id (by simp only [Backend.snap, held]; rfl) rfl rfl
  | @write handler id events ids held =>
    exact .write id (rowOf events) (by simp only [Backend.snap, held]; rfl) rfl
      (ItemTable.lookup_setRow_self _ _ _) fun id' hne => ItemTable.lookup_setRow_of_ne _ _ hne

end Backend

/-- The runs of the handlers. -/
abbrev BackendRun : Type :=
  Backend.machine.Run

namespace BackendRun

variable {r : BackendRun} {t t' : ℕ} {id : ItemId}

private theorem step_cases (r : BackendRun) (ht : t < r.length) :
    Backend.Step (r.state t) (r.act t) (r.state (t + 1)) :=
  Backend.step_cases (r.step_state t ht)

private theorem wellFormed (r : BackendRun) (ht : t ≤ r.length) : (r.state t).log.WellFormed := by
  refine r.invariant (P := fun s => s.log.WellFormed) (fun s h => ?_) (fun s a s' h hstep => ?_) ht
  · obtain rfl : s = Backend.start := h
    exact ServerEventLog.wellFormed_new
  · cases Backend.step_cases hstep with
    | post => exact h.append _ _
    | _ => exact h

/-- The log only grows, at its end. -/
theorem entries_isPrefix (r : BackendRun) (h : t ≤ t') (ht' : t' ≤ r.length) :
    (r.state t).log.entries <+: (r.state t').log.entries := by
  exact r.mono (R := fun s s' : Backend => s.log.entries <+: s'.log.entries)
    (fun _ => List.prefix_rfl) (fun _ _ _ h h' => h.trans h')
    (fun u hu => (r.step_cases hu).entries_isPrefix) h ht'

private theorem handlerOk (r : BackendRun) (ht : t ≤ r.length) :
    ∀ h ∈ (r.state t).handlers, (r.state t).HandlerOk h := by
  refine r.invariant (P := fun s => ∀ h ∈ s.handlers, s.HandlerOk h) (fun s hs => ?_)
    (fun s a s' h hstep => (Backend.step_cases hstep).handlerOk h) ht
  obtain rfl : s = Backend.start := hs
  exact fun _ hh => absurd hh List.not_mem_nil

/-- The history of the table along a run. -/
private theorem tableHistory (r : BackendRun) :
    Snapshot.History rowAt r.length fun t => (r.state t).snap where
  row_zero := by
    intro id
    have h₀ : r.state 0 = Backend.start := r.init_state
    rw [h₀]
    exact (rowAt_eq_none_of_forall_ne fun _ he => absurd he List.not_mem_nil).symm
  loaded_zero := by
    have h₀ : r.state 0 = Backend.start := r.init_state
    rw [h₀]
    rfl
  step := fun t ht => (r.step_cases ht).snap

/-- The time whose log the row of an item shows. -/
noncomputable def version (r : BackendRun) : ℕ → ItemId → ℕ :=
  Snapshot.version fun t => (r.state t).snap

theorem version_le (r : BackendRun) (t : ℕ) (id : ItemId) : r.version t id ≤ t :=
  Snapshot.version_le _ t id

/-- Every row is the fold of the log at its version. -/
theorem row_eq (r : BackendRun) (ht : t ≤ r.length) (id : ItemId) :
    (r.state t).row id = rowAt (r.state (r.version t id)).log.entries id :=
  r.tableHistory.row_eq_view ht id

/-! ### Rebuilds -/

/-- A `build_projection` of an item by some handler: it reads the log at time `ρ` and writes the
row at time `ω`. -/
structure Rebuild (r : BackendRun) (id : ItemId) (ρ ω : ℕ) : Prop where
  key : ∃ h ids, (r.state ρ).lock = some (h, .project (id :: ids))
  read : r.act ρ = .read
  write : r.act ω = .write
  lt : ρ < ω
  le : ω < r.length
  pending : ∀ u, ρ < u → u < ω → r.act u ≠ .write ∧ r.act u ≠ .abort

/-- The write of a row that was read. -/
private theorem writes_of_held (ht : t < r.length) {h : Handler} {events : List ItemDescriptor}
    {ids : List ItemId} (hl : (r.state t).lock = some (h, .write id events ids))
    (ha : r.act t = .write) : Snapshot.Writes (fun t => (r.state t).snap) t id := by
  have hstep := r.step_cases ht
  rw [ha] at hstep
  obtain ⟨h', id', events', ids', hheld, hnext, hrow⟩ := hstep.of_write
  rw [hl] at hheld
  obtain ⟨rfl, htask⟩ := Prod.mk.inj (Option.some.inj hheld)
  obtain ⟨rfl, rfl, rfl⟩ := StorageTask.write.inj htask
  refine ⟨?_, ?_⟩
  · change StorageTask.loaded ((r.state t).lock.map Prod.snd)
      = some (id, (r.state (t + 1)).row id)
    rw [hl, hrow]
    rfl
  · change StorageTask.loaded ((r.state (t + 1)).lock.map Prod.snd) = none
    rw [hnext]
    rfl

/-- A handler that has read the log keeps the lock until it writes the row or is dropped. -/
private theorem lock_succ_of_pending (ht : t < r.length) {h : Handler}
    {events : List ItemDescriptor} {ids : List ItemId}
    (hl : (r.state t).lock = some (h, .write id events ids)) (hw : r.act t ≠ .write)
    (ha : r.act t ≠ .abort) : (r.state (t + 1)).lock = some (h, .write id events ids) := by
  have hstep := r.step_cases ht
  generalize r.act t = act at hstep hw ha
  generalize r.state (t + 1) = s' at hstep ⊢
  cases hstep with
  | post | abortWaiting => exact hl
  | lock free =>
    rw [free] at hl
    cases hl
  | read held | respond held =>
    rw [held] at hl
    cases hl
  | write => exact absurd rfl hw
  | abort => exact absurd rfl ha

/-- A rebuild is a refresh of the table. -/
theorem Rebuild.refresh {ρ ω : ℕ} (h : r.Rebuild id ρ ω) :
    Snapshot.Refresh (fun t => (r.state t).snap) ρ ω id := by
  obtain ⟨handler, ids, hkey⟩ := h.key
  have hstep := r.step_cases (h.lt.trans h.le)
  rw [h.read] at hstep
  have hread : (r.state (ρ + 1)).lock
      = some (handler, .write id (eventsOf (r.state ρ).log.entries id) ids) := by
    generalize r.state (ρ + 1) = s' at hstep ⊢
    cases hstep with
    | read held =>
      rw [hkey] at held
      cases held
      rfl
  have hlock := r.le_induction (a := ρ + 1) (P := fun t => t ≤ ω → (r.state t).lock
      = some (handler, .write id (eventsOf (r.state ρ).log.entries id) ids))
    (fun _ => hread) (fun t hρt ht ih htω => lock_succ_of_pending ht (ih (by omega))
      (h.pending t hρt htω).1 (h.pending t hρt htω).2) ω h.lt h.le.le le_rfl
  refine ⟨?_, ?_, h.lt, writes_of_held h.le hlock h.write⟩
  · change StorageTask.loaded ((r.state ρ).lock.map Prod.snd) = none
    rw [hkey]
    rfl
  · change StorageTask.loaded ((r.state (ρ + 1)).lock.map Prod.snd) ≠ none
    rw [hread]
    exact Option.some_ne_none _

/-! ### What a handler has shown -/

/-- The row of an event's item has a version at which the log held the event. -/
def Shown (r : BackendRun) (t : ℕ) (d : ItemDescriptor) : Prop :=
  d ∈ (r.state (r.version t d.entityId)).log.entries

private theorem Shown.succ {d : ItemDescriptor} (h : r.Shown t d) (ht : t < r.length) :
    r.Shown (t + 1) d := by
  refine (r.entries_isPrefix ?_ ((r.version_le _ _).trans ht)).subset h
  exact Snapshot.version_mono _ _ (Nat.le_succ t)

/-- What the rows owe the handlers: the one that holds the lock has shown its events or is to
rebuild their rows, from a read that saw them; those that responded have shown all of theirs. -/
structure RowsOk (r : BackendRun) (t : ℕ) : Prop where
  held : ∀ h task, (r.state t).lock = some (h, task) → ∀ d ∈ h.stored,
    d.entityId ∈ StorageTask.todo (some task) ∨ r.Shown t d
  read : ∀ h id events ids, (r.state t).lock = some (h, .write id events ids) →
    ∀ d ∈ h.stored,
      d ∈ (r.state (Snapshot.loadTime (fun t => (r.state t).snap) t)).log.entries
  responded : ∀ h ∈ (r.state t).responded, ∀ d ∈ h.stored, r.Shown t d

private theorem mem_handlers_of_lock {s : Backend} {h : Handler} {task : StorageTask}
    (hl : s.lock = some (h, task)) : h ∈ s.handlers := by
  simp [Backend.handlers, hl]

/-- A step that moves neither the lock nor the answers. -/
private theorem RowsOk.of_same (h : r.RowsOk t) (ht : t < r.length)
    (hlock : (r.state (t + 1)).lock = (r.state t).lock)
    (hresponded : (r.state (t + 1)).responded = (r.state t).responded) : r.RowsOk (t + 1) where
  held := by
    intro h' task hl d hd
    rw [hlock] at hl
    exact (h.held h' task hl d hd).imp_right fun hs => hs.succ ht
  read := by
    intro h' id events ids hl d hd
    rw [hlock] at hl
    rw [Snapshot.loadTime_succ_of_some]
    · exact h.read h' id events ids hl d hd
    · change StorageTask.loaded ((r.state t).lock.map Prod.snd) ≠ none
      rw [hl]
      exact Option.some_ne_none _
  responded := by
    intro h' hh d hd
    rw [hresponded] at hh
    exact (h.responded h' hh d hd).succ ht

/-- With the storage lock free only the answers matter. -/
private theorem RowsOk.of_free (hlock : (r.state t).lock = none)
    (hresponded : ∀ h ∈ (r.state t).responded, ∀ d ∈ h.stored, r.Shown t d) : r.RowsOk t where
  held := by
    intro h task hl
    rw [hlock] at hl
    cases hl
  read := by
    intro h id events ids hl
    rw [hlock] at hl
    cases hl
  responded := hresponded

/-- A handler between two rebuilds has shown its events or has their rows to rebuild. -/
private theorem RowsOk.of_project {h : Handler} {ids : List ItemId}
    (hlock : (r.state t).lock = some (h, .project ids))
    (hheld : ∀ d ∈ h.stored, d.entityId ∈ ids ∨ r.Shown t d)
    (hresponded : ∀ h ∈ (r.state t).responded, ∀ d ∈ h.stored, r.Shown t d) : r.RowsOk t where
  held := by
    intro h' task hl
    rw [hlock] at hl
    cases hl
    exact hheld
  read := by
    intro h' id events ids hl
    rw [hlock] at hl
    cases hl
  responded := hresponded

/-- What the rows owe the handlers is kept along a run. -/
theorem rowsOk (r : BackendRun) (ht : t ≤ r.length) : r.RowsOk t := by
  refine r.le_induction (P := r.RowsOk) ?_ (fun t _ ht ih => ?_) t (Nat.zero_le t) ht
  · have h₀ : r.state 0 = Backend.start := r.init_state
    refine .of_free (by rw [h₀]; rfl) fun h hh => ?_
    rw [h₀] at hh
    exact absurd hh List.not_mem_nil
  · have hstep := r.step_cases ht
    have hold : ∀ h ∈ (r.state t).responded, ∀ d ∈ h.stored, r.Shown (t + 1) d :=
      fun h hh d hd => (ih.responded h hh d hd).succ ht
    obtain ⟨s', hs'⟩ : ∃ s', s' = r.state (t + 1) := ⟨_, rfl⟩
    rw [← hs'] at hstep
    generalize hact : r.act t = a at hstep
    cases hstep with
    | post | abortWaiting => exact ih.of_same ht (by rw [← hs']) (by rw [← hs'])
    | @lock k h free mem =>
      exact .of_project (by rw [← hs']) (fun d hd => .inl (List.mem_map_of_mem hd))
        (by rw [← hs']; exact hold)
    | @read h id ids held =>
      refine ⟨fun h' task hl d hd => ?_, fun h' id' events ids' hl d hd => ?_,
        by rw [← hs']; exact hold⟩
      · rw [← hs'] at hl
        cases hl
        exact (ih.held h _ held d hd).imp_right fun hs => hs.succ ht
      · -- the read is of the log at time `t`, which holds what the handler appended
        rw [Snapshot.loadTime_succ_of_load]
        · rw [← hs'] at hl
          cases hl
          exact (r.handlerOk ht.le h (mem_handlers_of_lock held)).stored d hd
        · change StorageTask.loaded ((r.state t).lock.map Prod.snd) = none
          rw [held]
          rfl
        · change StorageTask.loaded ((r.state (t + 1)).lock.map Prod.snd) ≠ none
          rw [hl]
          exact Option.some_ne_none _
    | @write h id events ids held =>
      refine .of_project (by rw [← hs']) (fun d hd => ?_) (by rw [← hs']; exact hold)
      -- the events of the row just written are shown by the read it was made of
      rcases ih.held h _ held d hd with hmem | hshown
      · rcases List.mem_cons.mp hmem with hid | hmem
        · right
          rw [Shown, hid, version, Snapshot.version_succ_of_write (writes_of_held ht held hact)]
          exact ih.read h id events ids held d hd
        · exact .inl hmem
      · exact .inr (hshown.succ ht)
    | @respond h held =>
      refine .of_free (by rw [← hs']) fun h' hh d hd => ?_
      rw [← hs'] at hh
      rcases List.mem_cons.mp hh with rfl | hh
      · -- with no rebuild left the handler has shown everything it stored
        refine ((ih.held h' _ held d hd).resolve_left ?_).succ ht
        exact List.not_mem_nil
      · exact hold h' hh d hd
    | abort => exact .of_free (by rw [← hs']) (by rw [← hs']; exact hold)

/-- **A handler that responded has shown every event of its body**, whoever stored it first. -/
theorem shown_of_responded (ht : t ≤ r.length) {h : Handler} (hh : h ∈ (r.state t).responded)
    {e : ItemDescriptor} (he : e ∈ (r.state t).log.entries)
    (hid : e.replicaEventId ∈ h.body.map AppendEvent.replicaEventId) : r.Shown t e := by
  have hok := r.handlerOk ht h (List.mem_append_right _ hh)
  rw [← hok.ids] at hid
  obtain ⟨d, hd, heq⟩ := List.mem_map.mp hid
  obtain rfl := eq_of_replicaEventId_eq (r.wellFormed ht).nodup (hok.stored d hd) he heq
  exact (r.rowsOk ht).responded h hh d hd

end BackendRun

/-- **The table catches up with every acknowledged push.** In every reachable state in which
each event of the log has been in the body of some push whose handler responded, the row of
every item is the fold of all its events in the log, whatever other handlers do or left undone. -/
theorem acknowledged_rows_fresh (r : BackendRun) :
    ∀ t ≤ r.length,
      (∀ e ∈ (r.state t).log.entries, ∃ h ∈ (r.state t).responded,
        e.replicaEventId ∈ h.body.map AppendEvent.replicaEventId) →
      ∀ id, (r.state t).row id = rowAt (r.state t).log.entries id := by
  intro t ht hacked id
  have hle := r.version_le t id
  have hprefix := r.entries_isPrefix hle ht
  rw [r.row_eq ht]
  refine congrArg rowOf (eventsOf_eq_of_mem_iff (r.wellFormed (hle.trans ht)).nodup
    (r.wellFormed ht).nodup fun e hid => ⟨fun he => hprefix.subset he, fun he => ?_⟩)
  obtain ⟨h, hh, hbody⟩ := hacked e he
  have hshown := r.shown_of_responded ht hh he hbody
  rwa [BackendRun.Shown, hid] at hshown

/-- A push request with one event. -/
def retriedBody : List ItemAppend :=
  [⟨1, ⟨7⟩, .created "milk" 2, "A", 100, some 1, none, none⟩]

/-- The handler of the first request is dropped after its append. The retry stores nothing. -/
def retriedPush : List BackendAction :=
  [.post retriedBody fun _ => 0, .abortWaiting 0, .post retriedBody fun _ => 50, .lock 0, .read,
    .write, .respond]

def retriedPushRun : BackendRun :=
  Machine.Run.ofList Backend.machine .start rfl retriedPush .respond (by decide +kernel)

theorem acknowledged_rows_fresh_retriedPush :
    (retriedPushRun.state 2).row ⟨7⟩ ≠ rowAt (retriedPushRun.state 2).log.entries ⟨7⟩ ∧
      (retriedPushRun.state 7).row ⟨7⟩ = rowAt (retriedPushRun.state 7).log.entries ⟨7⟩ :=
  ⟨by decide +kernel,
    acknowledged_rows_fresh retriedPushRun 7 (by decide) (by decide +kernel) ⟨7⟩⟩

/-! ### The server of the protocol -/

section

variable {ι : Type} [DecidableEq ι]

/-- A step of the protocol posts a request to the server or leaves its log alone. -/
private theorem Net.Step.exists_post {s s' : Net ι} {a : NetAction ι} (h : s.Step a s') :
    s'.server = s.server ∨
      ∃ body now, s'.server = (s.server.append now body).1 := by
  cases h with
  | handle | deliver => exact .inr ⟨_, _, rfl⟩
  | _ => exact .inl rfl

/-- **The server log of the protocol is the log of push handlers at work.** -/
theorem NetRun.exists_posts (r : NetRun ι) {t : ℕ} (ht : t ≤ r.length) :
    ∃ posts s, Backend.machine.exec .start posts = some s ∧ s.log = (r.state t).server := by
  refine r.le_induction (P := fun t => ∃ posts s, Backend.machine.exec .start posts = some s ∧
    s.log = (r.state t).server) ?_ (fun t _ ht ih => ?_) t (Nat.zero_le t) ht
  · exact ⟨[], .start, rfl, r.init_state.1.symm⟩
  · obtain ⟨posts, s, hexec, hlog⟩ := ih
    have hstep := r.step_state t ht
    cases ha : r.act t with
    | none =>
      rw [ha] at hstep
      exact ⟨posts, s, hexec, by rw [hlog, Option.some.inj hstep]⟩
    | some a =>
      rw [ha] at hstep
      rcases (Net.step_cases hstep).exists_post with hsame | ⟨body, now, hpost⟩
      · exact ⟨posts, s, hexec, by rw [hlog, hsame]⟩
      · obtain ⟨s', hstep', hlog'⟩ : ∃ s', Backend.machine.step s (.post body now) = some s' ∧
            s'.log = (s.log.append now body).1 := ⟨_, rfl, rfl⟩
        refine ⟨posts ++ [.post body now], s', ?_, ?_⟩
        · rw [Machine.exec_append_singleton, hexec]
          exact hstep'
        · rw [hlog', hpost, hlog]

end

end OfflineSync
