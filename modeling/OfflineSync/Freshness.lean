import OfflineSync.Device
import Mathlib.Data.List.Perm.Basic
import Mathlib.Tactic.IntervalCases

/-!
# Freshness of the projection table

When is a row what `build_projection` would make of the log? After everything that was appended
to the log for its item has been rebuilt. A local store rebuilds its item under the same hold of
the storage lock. A sync appends pages and returns the touched ids for a rebuild, but only when
it returns `Ok`: a round whose next pull fails leaves its pages in the log and the cursor past
them, and the ids are gone with the error. No later round pulls those events again, so nothing
ever rebuilds their rows unless some other event of the item does.

`rows_fresh` is the positive half, over whole runs: as long as no round fails after one of its
pages brought the log something new, the rows of an idle device are up to date. The invariant
behind it (`System.FreshUpTo`) says of every row that it is up to date, or still to be built by
the holder of the storage lock, or among the touched ids of a waiting rebuild or of the round
under way. `stale_row` is a run in which a round fails on its second pull.
-/

namespace OfflineSync

variable {ι : Type} [DecidableEq ι]

/-! ### What sync touches -/

namespace Net

/-- The touched ids the round of a device has gathered. -/
def touched (s : Net ι) (d : ι) : List ItemId :=
  match s.round d with
  | some ⟨_, .pull touched⟩ | some ⟨_, .pulled touched _⟩ => touched
  | _ => []

/-- The page the round of a device is looking at has an event the log lacks. -/
def Brings (s : Net ι) (d : ι) : Prop :=
  ∃ batch touched page, s.round d = some ⟨batch, .pulled touched page⟩ ∧
    ∃ e ∈ page.events, e.replicaEventId ∉ (s.log d).ids

variable {s s' : Net ι} {a : SyncAction ι} {d : ι} {id : ItemId}

/-- A sync action changes what a row should be only by a page that brings something, and then
the item is among the touched ids. -/
private theorem Inv.rowAt_of_step (h : s.Inv) (hstep : Step s (.sync a) s') :
    rowAt (s'.log d).entries id = rowAt (s.log d).entries id ∨
      a = .take d ∧ s.Brings d ∧ id ∈ s'.touched d := by
  by_cases hd : NetAction.device (.sync a) = some d
  · cases hstep with
    | @ack d' batch stored phase =>
      obtain rfl := Option.some.inj hd
      -- an acknowledgement changes stamps only
      left
      rw [← rowAt_map_unstamped, h.sound.unstamped_record, rowAt_map_unstamped]
    | @take d' batch touched page phase more =>
      obtain rfl := Option.some.inj hd
      by_cases hbrings : ∃ e ∈ page.events, e.replicaEventId ∉ (s.log d').ids
      · obtain ⟨new, hlog, hnew⟩ := s.toReplicas.exists_entries_receive d' page
        by_cases hid : id ∈ page.events.map EventDescriptor.entityId
        · refine .inr ⟨rfl, ⟨batch, touched, page, phase, hbrings⟩, ?_⟩
          simp only [Net.touched, setRound, Function.update_self]
          exact List.mem_append_right _ hid
        · left
          rw [hlog, rowAt_append_of_ne]
          rintro e he rfl
          exact hid (List.mem_map_of_mem (hnew e he))
      · -- a page of events that are all there already, such as its own echoed back
        left
        push Not at hbrings
        rw [Replicas.log_receive_self, DeviceEventLog.append_of_subset]
        intro ev hev
        obtain ⟨e, he, rfl⟩ := List.mem_map.mp hev
        exact hbrings e he
    | _ => exact .inl rfl
  · rw [(hstep.frame hd).1]
    exact .inl rfl

/-- What becomes of a touched id. -/
private theorem touched_of_step (hstep : Step s (.sync a) s') (h : id ∈ s.touched d) :
    a = .fail d ∨ (∃ ids, s.returns a = some (d, ids) ∧ id ∈ ids) ∨
      id ∈ s'.touched d ∧ ∀ batch, a ≠ .beginRound d batch := by
  by_cases hd : NetAction.device (.sync a) = some d
  · cases hstep with
    | fail =>
      obtain rfl := Option.some.inj hd
      exact .inl rfl
    | @finish d' batch ids page phase empty =>
      obtain rfl := Option.some.inj hd
      -- the empty page ends the round, and `sync` hands the ids over
      refine .inr (.inl ⟨ids, ?_, by simpa [touched, phase] using h⟩)
      simp [returns, phase, empty]
    | @take d' batch ids page phase more =>
      obtain rfl := Option.some.inj hd
      refine .inr (.inr ⟨?_, by simp⟩)
      have hid : id ∈ ids := by simpa [touched, phase] using h
      simpa [touched, setRound] using .inl hid
    | @answer d' batch ids phase =>
      obtain rfl := Option.some.inj hd
      exact .inr (.inr ⟨by simpa [touched, phase, setRound] using h, by simp⟩)
    | beginRound idle | newRunner idle =>
      obtain rfl := Option.some.inj hd
      simp [touched, idle] at h
    | pushed phase | send phase | handle phase | ack phase =>
      obtain rfl := Option.some.inj hd
      simp [touched, phase] at h
    | deliver => cases hd
  · refine .inr (.inr ⟨?_, ?_⟩)
    · rwa [touched, (hstep.frame hd).2.2, ← touched]
    · rintro batch rfl
      exact hd rfl

end Net

/-! ### The invariant -/

namespace System

/-- The row of an item will be rebuilt by a waiting rebuild, or by that of the round under way,
if that round has brought something. -/
def Pending (s : System ι) (d : ι) (brought : Prop) (id : ItemId) : Prop :=
  (∃ ids ∈ s.waiting d, id ∈ ids) ∨ brought ∧ id ∈ s.net.touched d

/-- Every row is up to date, or will be rebuilt. -/
structure FreshUpTo (s : System ι) (d : ι) (brought : Prop) : Prop where
  rows : ∀ id, s.row d id = rowAt (s.entries d) id ∨ id ∈ StorageTask.todo (s.lock d) ∨
    s.Pending d brought id
  loaded : ∀ id events ids, s.lock d = some (.write id events ids) →
    rowOf events = rowAt (s.entries d) id ∨ id ∈ ids ∨ s.Pending d brought id

variable {s s' : System ι} {a : Action ι} {d : ι} {brought brought' : Prop}

/-- A rebuild that waits goes on waiting during a sync action. -/
private theorem mem_waitingAfter (s : System ι) (b : SyncAction ι) {ids : List ItemId}
    (h : ids ∈ s.waiting d) : ids ∈ s.waitingAfter b d := by
  unfold waitingAfter
  cases s.net.returns b with
  | none => exact h
  | some ret =>
    dsimp only
    split_ifs
    · exact h
    · by_cases hd : d = ret.1
      · rw [← hd, Function.update_self]
        exact List.mem_cons_of_mem _ h
      · rwa [Function.update_of_ne hd]

omit [DecidableEq ι] in
/-- The invariant where the table and the lock stay as they are. -/
private theorem FreshUpTo.of_same (h : s.FreshUpTo d brought) (hrow : s'.row d = s.row d)
    (hlock : s'.lock d = s.lock d)
    (hrowAt : ∀ id, rowAt (s'.entries d) id = rowAt (s.entries d) id ∨ s'.Pending d brought' id)
    (hpending : ∀ id, s.Pending d brought id → s'.Pending d brought' id) :
    s'.FreshUpTo d brought' where
  rows := by
    intro id
    rw [hrow, hlock]
    rcases hrowAt id with heq | hp
    · rw [heq]
      exact (h.rows id).imp_right (Or.imp_right (hpending id))
    · exact .inr (.inr hp)
  loaded := by
    intro id events ids hl
    rw [hlock] at hl
    rcases hrowAt id with heq | hp
    · rw [heq]
      exact (h.loaded id events ids hl).imp_right (Or.imp_right (hpending id))
    · exact .inr (.inr hp)

/-- A sync action keeps every row up to date or to be rebuilt. -/
private theorem FreshUpTo.sync (h : s.FreshUpTo d brought) (hinv : s.net.Inv) {b : SyncAction ι}
    {net : Net ι} (hstep : Net.Step s.net (.sync b) net)
    (hkeep : brought → (∀ batch, b ≠ .beginRound d batch) → brought')
    (hbrings : b = .take d → s.net.Brings d → brought') (hfail : b = .fail d → ¬ brought) :
    FreshUpTo { s with net, waiting := s.waitingAfter b } d brought' := by
  refine h.of_same rfl rfl (fun id => ?_) fun id hp => ?_
  · refine (hinv.rowAt_of_step hstep).imp_right fun ⟨htake, hb, hid⟩ => ?_
    exact .inr ⟨hbrings htake hb, hid⟩
  · rcases hp with ⟨ids, hids, hid⟩ | ⟨hb, hid⟩
    · exact .inl ⟨ids, s.mem_waitingAfter b hids, hid⟩
    · rcases Net.touched_of_step hstep hid with hf | ⟨ids, hret, hmem⟩ | ⟨hid, hbegin⟩
      · -- the error return drops the ids
        exact absurd hb (hfail hf)
      · left
        refine ⟨ids, ?_, hmem⟩
        have hne : ids ≠ [] := List.ne_nil_of_mem hmem
        simp only [waitingAfter, hret, if_neg hne, Function.update_self]
        exact List.mem_cons_self
      · exact .inr ⟨hkeep hb hbegin, hid⟩

omit [DecidableEq ι] in
/-- The invariant where only the lock moves. -/
private theorem FreshUpTo.of_lock (h : s.FreshUpTo d brought) (hrow : s'.row d = s.row d)
    (hentries : s'.entries d = s.entries d)
    (htodo : ∀ id, id ∈ StorageTask.todo (s.lock d) → id ∈ StorageTask.todo (s'.lock d))
    (hpending : ∀ id, s.Pending d brought id →
      id ∈ StorageTask.todo (s'.lock d) ∨ s'.Pending d brought id)
    (hloaded : ∀ id events ids, s'.lock d = some (.write id events ids) →
      rowOf events = rowAt (s.entries d) id) : s'.FreshUpTo d brought where
  rows := by
    intro id
    rw [hrow, hentries]
    rcases h.rows id with heq | hid | hp
    · exact .inl heq
    · exact .inr (.inl (htodo id hid))
    · exact .inr (hpending id hp)
  loaded := by
    intro id events ids hl
    rw [hentries]
    exact .inl (hloaded id events ids hl)

/-- A store appends: only the rows of its item change, and they are to be rebuilt. -/
private theorem FreshUpTo.append (h : s.FreshUpTo d brought) (hinv : s.net.Inv) {item : Item}
    {eventIds : List Uuid} {net : Net ι} (hlock : s.lock d = some (.store item))
    (hauthor : s.net.author d item.id (eventIds.zip item.uncommitted) = some net) :
    FreshUpTo { s.setLock d (some (.project [item.id])) with net } d brought := by
  have hstep : Net.Step s.net (.author d item.id (eventIds.zip item.uncommitted)) net :=
    Net.step_cases hauthor
  cases hstep with
  | author unlocked hnd hfresh =>
    have hf : s.net.Fresh (ItemStorage.appendEvents (s.net.provider d).get item.id
        (eventIds.zip item.uncommitted)) := Net.fresh_appendEvents hnd hfresh
    have hentries := hinv.sound.entries_author (d := d) hf
    refine ⟨fun id => ?_, fun id events ids hl => ?_⟩
    · by_cases hid : id = item.id
      · subst hid
        refine .inr (.inl ?_)
        simp [StorageTask.todo, setLock]
      · have hrowAt : rowAt ((s.net.toReplicas.author d (ItemStorage.appendEvents
            (s.net.provider d).get item.id (eventIds.zip item.uncommitted))).log d).entries id
              = rowAt (s.entries d) id := by
          rw [hentries, rowAt_append_of_ne, entries]
          intro e he heq
          obtain ⟨ev, hev, k, rfl⟩ := DeviceEventLog.mem_authoredBatch he
          obtain ⟨change, -, rfl⟩ := List.mem_map.mp hev
          exact hid heq.symm
        rcases h.rows id with heq | hmem | hp
        · exact .inl (heq.trans hrowAt.symm)
        · rw [hlock] at hmem
          exact absurd hmem List.not_mem_nil
        · exact .inr (.inr hp)
    · change (s.setLock d _).lock d = _ at hl
      rw [lock_setLock_self] at hl
      cases hl

/-- A row is written: it is what was read, and that was up to date or is to be rebuilt again. -/
private theorem FreshUpTo.write (h : s.FreshUpTo d brought) {id : ItemId}
    {events : List ItemDescriptor}
    {ids : List ItemId} (hlock : s.lock d = some (.write id events ids)) :
    FreshUpTo { s.setLock d (some (.project ids)) with
      items := Function.update s.items d ((s.storage d).project id events).items } d brought := by
  refine ⟨fun id' => ?_, fun id' events' ids' hl => ?_⟩
  · have htodo : StorageTask.todo ((s.setLock d (some (.project ids))).lock d) = ids := by
      rw [lock_setLock_self]
      rfl
    have hrow : ∀ id', System.row { s.setLock d (some (.project ids)) with
        items := Function.update s.items d ((s.storage d).project id events).items } d id'
          = ((s.items d).setRow id (rowOf events)).lookup id' := by
      intro id'
      simp only [row, storage, Function.update_self, ItemStorage.findById, ItemStorage.project]
    rw [hrow]
    by_cases hid : id' = id
    · subst hid
      rw [ItemTable.lookup_setRow_self]
      refine (h.loaded id' events ids hlock).imp_right (Or.imp_left fun hmem => ?_)
      exact htodo.symm ▸ hmem
    · rw [ItemTable.lookup_setRow_of_ne _ _ hid]
      refine (h.rows id').imp_right (Or.imp_left fun hmem => ?_)
      rw [hlock] at hmem
      exact htodo.symm ▸ (List.mem_cons.mp hmem).resolve_left hid
  · change (s.setLock d _).lock d = _ at hl
    rw [lock_setLock_self] at hl
    cases hl

/-- What a storage step of another device leaves alone. -/
private theorem Step.frame_sync (hstep : Step s a s') (ha : ∀ b, a ≠ .sync b)
    (hd : a.device ≠ some d) : s'.entries d = s.entries d ∧
      s'.net.touched d = s.net.touched d ∧ s'.waiting d = s.waiting d := by
  cases hstep with
  | sync => exact absurd rfl (ha _)
  | append _ _ author =>
    have hnet : Net.Step s.net (.author _ _ _) _ := Net.step_cases author
    obtain ⟨hlog, -, hround⟩ := hnet.frame hd
    exact ⟨congrArg DeviceEventLog.entries hlog, by simp only [Net.touched, hround], rfl⟩
  | @lockRebuild d' =>
    refine ⟨rfl, rfl, Function.update_of_ne ?_ _ _⟩
    rintro rfl
    exact hd rfl
  | _ => exact ⟨rfl, rfl, rfl⟩

/-- A storage step keeps every row up to date or to be rebuilt. -/
private theorem FreshUpTo.storage (h : s.FreshUpTo d brought) (hinv : s.net.Inv)
    (hstep : Step s a s') (ha : ∀ b, a ≠ .sync b) : s'.FreshUpTo d brought := by
  by_cases hd : a.device = some d
  · cases hstep with
    | sync => exact absurd rfl (ha _)
    | create | editMissing => exact h.of_same rfl rfl (fun _ => .inl rfl) fun _ hp => hp
    | lockCreated free | edit free | store free =>
      obtain rfl := Option.some.inj hd
      refine h.of_lock rfl rfl (fun id hid => ?_) (fun id hp => .inr hp) fun id events ids hl => ?_
      · rw [free] at hid
        exact absurd hid List.not_mem_nil
      · simp [setLock] at hl
    | append held _ author =>
      obtain rfl := Option.some.inj hd
      exact h.append hinv held author
    | @read d' id ids held =>
      obtain rfl := Option.some.inj hd
      refine h.of_lock rfl rfl (fun id' hid => ?_) (fun id hp => .inr hp)
        fun id' events ids' hl => ?_
      · rw [held] at hid
        rw [lock_setLock_self]
        exact hid
      · rw [lock_setLock_self] at hl
        cases hl
        rfl
    | write held =>
      obtain rfl := Option.some.inj hd
      exact h.write held
    | unlock held =>
      obtain rfl := Option.some.inj hd
      refine h.of_lock rfl rfl (fun id hid => ?_) (fun id hp => .inr hp) fun id events ids hl => ?_
      · rw [held] at hid
        exact absurd hid List.not_mem_nil
      · rw [lock_setLock_self] at hl
        cases hl
    | @lockRebuild d' k ids free mem =>
      obtain rfl := Option.some.inj hd
      refine h.of_lock rfl rfl (fun id hid => ?_) (fun id hp => ?_) fun id events ids hl => ?_
      · rw [free] at hid
        exact absurd hid List.not_mem_nil
      · rcases hp with ⟨ids', hids', hid⟩ | hp
        · -- the ids of the rebuild move from the waiting list to the lock
          obtain ⟨hk, rfl⟩ := List.getElem?_eq_some_iff.mp mem
          have hperm := List.getElem_cons_eraseIdx_perm hk
          rcases List.mem_cons.mp (hperm.mem_iff.mpr hids') with rfl | hrest
          · left
            simpa [StorageTask.todo, setLock] using hid
          · right
            refine .inl ⟨ids', ?_, hid⟩
            simpa using hrest
        · exact .inr (.inr hp)
      · simp [setLock] at hl
  · obtain ⟨hitems, hlock, -⟩ := hstep.frame hd
    obtain ⟨hentries, htouched, hwaiting⟩ := hstep.frame_sync ha hd
    have hrow : s'.row d = s.row d := by
      funext id
      exact congrArg (AList.lookup id) hitems
    refine h.of_same hrow hlock (fun id => .inl (by rw [hentries])) fun id hp => ?_
    rw [Pending, htouched, hwaiting]
    exact hp

end System

/-! ### Over a run -/

namespace SystemRun

variable {r : SystemRun ι} {d : ι} {t : ℕ}

/-- A page of the current round of a device, or of its last one, had an event the log lacked. -/
def Brought (r : SystemRun ι) (d : ι) (t : ℕ) : Prop :=
  ∃ u < t, r.act u = .sync (.take d) ∧ (r.state u).net.Brings d ∧
    ∀ v, u < v → v < t → ∀ batch, r.act v ≠ .sync (.beginRound d batch)

/-- No round of a device fails after one of its pages had an event the log lacked. -/
def NoLoss (r : SystemRun ι) (d : ι) : Prop :=
  ∀ t < r.length, r.act t = .sync (.fail d) → ¬ r.Brought d t

private theorem Brought.succ (h : r.Brought d t)
    (ha : ∀ batch, r.act t ≠ .sync (.beginRound d batch)) : r.Brought d (t + 1) := by
  obtain ⟨u, hut, hact, hbrings, hlast⟩ := h
  refine ⟨u, hut.trans (Nat.lt_succ_self t), hact, hbrings, fun v huv hvt => ?_⟩
  rcases Nat.lt_succ_iff_lt_or_eq.mp hvt with hvt | rfl
  · exact hlast v huv hvt
  · exact ha

/-- **Along a run that loses nothing, every row is up to date or will be rebuilt.** -/
theorem freshUpTo (h : r.NoLoss d) (ht : t ≤ r.length) :
    (r.state t).FreshUpTo d (r.Brought d t) := by
  refine r.le_induction (P := fun t => (r.state t).FreshUpTo d (r.Brought d t)) ?_
    (fun t _ ht ih => ?_) t (Nat.zero_le t) ht
  · obtain ⟨⟨-, -, -, hnet⟩, -, hd⟩ := r.init_state
    refine ⟨fun id => .inl ?_, fun id events ids hl => ?_⟩
    · have hrow : (r.state 0).row d id = (∅ : ItemTable).lookup id :=
        congrArg (AList.lookup id) (hd d).1
      rw [hrow, AList.lookup_empty, System.entries, (hnet d).1, rowAt_eq_none_of_forall_ne]
      exact fun _ he => absurd he List.not_mem_nil
    · rw [(hd d).2.1] at hl
      cases hl
  · have hinv := r.netRun.inv ht.le
    have hstep := r.step_cases ht
    cases ha : r.act t with
    | sync b =>
      rw [ha] at hstep
      generalize r.state (t + 1) = s' at hstep
      cases hstep with
      | sync hnet =>
        refine ih.sync hinv (Net.step_cases hnet) (fun hb hbegin => ?_) (fun hb hbrings => ?_)
          fun hb => ?_
        · exact hb.succ fun batch heq => hbegin batch (Action.sync.inj (ha.symm.trans heq))
        · exact ⟨t, Nat.lt_succ_self t, hb ▸ ha, hbrings, fun v hv hv' => by omega⟩
        · exact h t ht (hb ▸ ha)
    | _ =>
      have hsync : ∀ b, r.act t ≠ .sync b := by simp [ha]
      have hfresh := ih.storage hinv hstep hsync
      refine hfresh.of_same rfl rfl (fun _ => .inl rfl) fun id hp => ?_
      exact hp.imp_right (And.imp_left fun hb => hb.succ fun batch => hsync _)

/-- Nothing waits at an idle device, so what might be rebuilt later has been. -/
theorem NoLoss.row_eq (h : r.NoLoss d) (ht : t ≤ r.length) (hidle : (r.state t).Idle d)
    (id : ItemId) : (r.state t).row d id = rowAt ((r.state t).entries d) id := by
  obtain ⟨hlock, hwaiting, -, hround⟩ := hidle
  rcases (freshUpTo h ht).rows id with heq | hmem | ⟨ids, hids, -⟩ | ⟨-, hmem⟩
  · exact heq
  · rw [hlock] at hmem
    exact absurd hmem List.not_mem_nil
  · rw [hwaiting] at hids
    exact absurd hids List.not_mem_nil
  · rw [Net.touched, hround] at hmem
    exact absurd hmem List.not_mem_nil

end SystemRun

/-- **The rows of an idle device are up to date**, along every run in which no round of the
device fails after one of its pages had an event the log lacked: every row is what a rebuild
would make of the log as it is. -/
theorem rows_fresh (r : SystemRun ι) (d : ι) (h : r.NoLoss d) :
    ∀ t ≤ r.length, (r.state t).Idle d →
      ∀ id, (r.state t).row d id = rowAt ((r.state t).entries d) id := by
  intro t ht hidle id
  exact h.row_eq ht hidle id

/-- Device 1 creates an item and pushes it. Device 0 fails to pull it, then pulls it and rebuilds
its row. -/
def pulledItem : List (Action (Fin 2)) :=
  [.create 1 ⟨7⟩ "milk" 2 100, .lockCreated 1 0, .append 1 [1], .read 1, .write 1, .unlock 1,
    .sync (.beginRound 1 500), .sync (.send 1), .sync (.handle 1 fun _ => 0), .sync (.ack 1),
    .sync (.beginRound 0 500), .sync (.send 0), .sync (.fail 0),
    .sync (.beginRound 0 500), .sync (.send 0), .sync (.answer 0), .sync (.take 0),
    .sync (.answer 0), .sync (.take 0), .lockRebuild 0 0, .read 0, .write 0, .unlock 0]

def pulledItemRun : SystemRun (Fin 2) :=
  .ofList (fun d => ⟨if d = 0 then "A" else "B"⟩) pulledItem (.unlock 0) (by decide +kernel)

theorem rows_fresh_pulledItem : (pulledItemRun.state 23).row 0 ⟨7⟩
    = rowAt ((pulledItemRun.state 23).entries 0) ⟨7⟩ := by
  refine rows_fresh pulledItemRun 0 (fun t ht ha hb => ?_) 23 (by decide)
    ⟨by decide +kernel, by decide +kernel, by decide +kernel, by decide +kernel⟩ ⟨7⟩
  have ht : t < 23 := ht
  obtain ⟨u, hut, hu, -, -⟩ := hb
  -- the only failure is that of the first round, before any page
  interval_cases t <;> cases ha
  interval_cases u <;> cases hu

/-- Device 1 creates an item and pushes it. Device 0 pulls the page with it, fails on the next
pull, and syncs again. -/
def lostPage : List (Action (Fin 2)) :=
  [.create 1 ⟨7⟩ "milk" 2 100, .lockCreated 1 0, .append 1 [1], .read 1, .write 1, .unlock 1,
    .sync (.beginRound 1 500), .sync (.send 1), .sync (.handle 1 fun _ => 0), .sync (.ack 1),
    .sync (.beginRound 0 500), .sync (.send 0), .sync (.answer 0), .sync (.take 0),
    .sync (.fail 0),
    .sync (.beginRound 0 500), .sync (.send 0), .sync (.answer 0), .sync (.take 0)]

def lostPageRun : SystemRun (Fin 2) :=
  .ofList (fun d => ⟨if d = 0 then "A" else "B"⟩) lostPage (.unlock 0) (by decide +kernel)

/-- **A page whose round fails next is never shown.** The second round of device 0 returns `Ok`
and nothing else is going on, but the item of the first round's page has no row. -/
theorem stale_row : lostPageRun.netRun.ReturnsOk 0 15 18 ∧ (lostPageRun.state 19).Idle 0 ∧
    (lostPageRun.state 19).row 0 ⟨7⟩ = none ∧
    rowAt ((lostPageRun.state 19).entries 0) ⟨7⟩
      = some { id := ⟨7⟩, name := "milk", quantity := 2, lastModifiedMs := 100 } := by
  refine ⟨⟨⟨⟨500, rfl⟩, by decide, by decide, fun u hu hu' => ?_⟩, by decide,
    ⟨.take 0, [], rfl, by decide +kernel⟩⟩,
    ⟨by decide +kernel, by decide +kernel, by decide +kernel, by decide +kernel⟩,
    by decide +kernel, by decide +kernel⟩
  interval_cases u <;> decide +kernel

end OfflineSync
