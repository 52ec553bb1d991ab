import OfflineSync.Lib.Machine
import Mathlib.Tactic.IntervalCases

/-!
# The sync runner

`SyncRunner` of `client-sdk/src/sync_runner.rs`: the background loops that `start` spawns, the
flag by which `stop` ends them, the network status, and the one-off rounds of `sync_now` and of
the tasks that `set_online` spawns on reconnect. A loop reads `running` at the head of its
`while`, then `online`, then syncs, then sleeps for its interval; each of these is a step of its
own, and a sleeping loop may wake at any later time.

All loops share one flag and look at it only when they wake. When each `start` after a `stop` finds
every earlier loop gone, there is one job, and `stop` is final, and only then is this so however
the loops are scheduled (`single_job_iff`). When `start` is called while a stopped loop still
sleeps, the loop finds the flag up again and goes on beside the new one (`revived_loop`).
-/

namespace OfflineSync

/-- Where the task of a background loop is. -/
inductive LoopPc
  /-- At the head of the loop, before `running.load`. -/
  | check
  /-- In a tick, before `online.load`. -/
  | tick
  /-- In a tick, before `sync_once`. -/
  | enter
  /-- In `sync_once`. -/
  | syncing
  /-- In `tokio::time::sleep`. -/
  | sleeping
  | exited
deriving DecidableEq, Repr

/-- The next step of a background loop, with the flags it would read. -/
def LoopPc.next (running online : Bool) : LoopPc → Option LoopPc
  | .check => some (if running then .tick else .exited)
  | .tick => some (if online then .enter else .sleeping)
  | .enter => some .syncing
  | .syncing => some .sleeping
  | .sleeping => some .check
  | .exited => none

/-- The steps a loop is away from the head of its `while`. -/
def LoopPc.rest : LoopPc → ℕ
  | .check => 0
  | .sleeping => 1
  | .syncing => 2
  | .enter => 3
  | .tick => 4
  | .exited => 0

/-- The loop has a tick under way. -/
def LoopPc.InTick : LoopPc → Prop
  | .tick | .enter | .syncing => True
  | .check | .sleeping | .exited => False

/-- Where a one-off round is. -/
inductive RoundPc
  /-- In `sync_now`, before `is_online`. -/
  | check
  /-- Before `sync_once`. -/
  | enter
  /-- In `sync_once`. -/
  | syncing
  /-- Returned, with `Ok` or `Err`. -/
  | done
deriving DecidableEq, Repr

/-- The next step of a one-off round, with the flag it would read. -/
def RoundPc.next (online : Bool) : RoundPc → Option RoundPc
  | .check => some (if online then .enter else .done)
  | .enter => some .syncing
  | .syncing => some .done
  | .done => none

/-- The flags of a runner and the tasks that use them. -/
structure SyncRunner where
  running : Bool
  online : Bool
  /-- The loops spawned by `start`, oldest first. -/
  loops : List LoopPc
  /-- The calls of `sync_now` and the tasks spawned on reconnect, oldest first. -/
  rounds : List RoundPc
deriving DecidableEq, Repr

/-- The calls of the app, and the steps of the tasks. -/
inductive RunnerAction
  | start
  | stop
  | setOnline (online : Bool)
  | syncNow
  /-- The next step of the `k`-th loop. -/
  | loop (k : ℕ)
  /-- The next step of the `k`-th one-off round. -/
  | round (k : ℕ)
deriving DecidableEq, Repr

/-- The action is the step of a task, not a call of the app. -/
def RunnerAction.IsTask : RunnerAction → Prop
  | .loop _ | .round _ => True
  | .start | .stop | .setOnline _ | .syncNow => False

namespace SyncRunner

/-- `SyncRunner::new`. -/
def new : SyncRunner where
  running := false
  online := true
  loops := []
  rounds := []

/-- One step of the runner; `none` when it is not enabled. -/
def step (s : SyncRunner) : RunnerAction → Option SyncRunner
  | .start =>
    -- the loop may be polled first at any later time
    if s.running then some s
    else some { s with running := true, loops := s.loops ++ [.check] }
  | .stop => some { s with running := false }
  | .setOnline online =>
    if online ∧ s.online = false then
      some { s with online, rounds := s.rounds ++ [.enter] }
    else some { s with online }
  | .syncNow => some { s with rounds := s.rounds ++ [.check] }
  | .loop k =>
    (s.loops[k]?.bind (LoopPc.next s.running s.online)).map fun pc =>
      { s with loops := s.loops.set k pc }
  | .round k =>
    (s.rounds[k]?.bind (RoundPc.next s.online)).map fun pc =>
      { s with rounds := s.rounds.set k pc }

/-- The runner as a machine. -/
def machine : Machine SyncRunner RunnerAction where
  init s := s = new
  step := step

/-- The steps of the runner, one case for each way an enabled action can go. -/
inductive Step (s : SyncRunner) : RunnerAction → SyncRunner → Prop
  | started (up : s.running = true) : Step s .start s
  | start (down : s.running = false) :
      Step s .start { s with running := true, loops := s.loops ++ [.check] }
  | stop : Step s .stop { s with running := false }
  | reconnect (offline : s.online = false) :
      Step s (.setOnline true) { s with online := true, rounds := s.rounds ++ [.enter] }
  | setOnline {online} (same : online = true → s.online = true) :
      Step s (.setOnline online) { s with online }
  | syncNow : Step s .syncNow { s with rounds := s.rounds ++ [.check] }
  | loop {k pc pc'} (at_pc : s.loops[k]? = some pc) (next : pc.next s.running s.online = some pc') :
      Step s (.loop k) { s with loops := s.loops.set k pc' }
  | round {k pc pc'} (at_pc : s.rounds[k]? = some pc) (next : pc.next s.online = some pc') :
      Step s (.round k) { s with rounds := s.rounds.set k pc' }

/-- An enabled step is one of the cases of `Step`. -/
theorem step_cases {s s' : SyncRunner} {a : RunnerAction} (h : machine.step s a = some s') :
    Step s a s' := by
  simp only [machine] at h
  cases a with
  | start =>
    simp only [step] at h
    split_ifs at h with hup
    · exact Option.some.inj h ▸ .started hup
    · exact Option.some.inj h ▸ .start (Bool.eq_false_iff.mpr hup)
  | stop => exact Option.some.inj h ▸ .stop
  | setOnline online =>
    simp only [step] at h
    split_ifs at h with hoff
    · obtain ⟨rfl, hoff⟩ := hoff
      exact Option.some.inj h ▸ .reconnect hoff
    · refine Option.some.inj h ▸ .setOnline fun hon => ?_
      by_contra hoff'
      exact hoff ⟨hon, Bool.eq_false_iff.mpr hoff'⟩
  | syncNow => exact Option.some.inj h ▸ .syncNow
  | loop k =>
    obtain ⟨pc', hpc, rfl⟩ := Option.map_eq_some_iff.mp h
    obtain ⟨pc, hat, hnext⟩ := Option.bind_eq_some_iff.mp hpc
    exact .loop hat hnext
  | round k =>
    obtain ⟨pc', hpc, rfl⟩ := Option.map_eq_some_iff.mp h
    obtain ⟨pc, hat, hnext⟩ := Option.bind_eq_some_iff.mp hpc
    exact .round hat hnext

variable {s s' : SyncRunner} {a : RunnerAction} {k : ℕ}

/-- A loop that is there takes its own next step or stays where it is. -/
private theorem Step.loop_cases (h : Step s a s') {pc : LoopPc} (hpc : s.loops[k]? = some pc) :
    s'.loops[k]? = some pc ∨
      a = .loop k ∧ ∃ pc', pc.next s.running s.online = some pc' ∧ s'.loops[k]? = some pc' := by
  obtain ⟨hk, -⟩ := List.getElem?_eq_some_iff.mp hpc
  cases h with
  | start => exact .inl ((List.getElem?_append_left hk).trans hpc)
  | @loop j pc₀ pc' hat hnext =>
    by_cases hjk : j = k
    · subst hjk
      obtain rfl := Option.some.inj (hat.symm.trans hpc)
      exact .inr ⟨rfl, pc', hnext, List.getElem?_set_self hk⟩
    · exact .inl ((List.getElem?_set_ne hjk).trans hpc)
  | _ => exact .inl hpc

private theorem Step.length_loops_le (h : Step s a s') : s.loops.length ≤ s'.loops.length := by
  cases h with
  | start => simp
  | loop => simp
  | _ => exact le_rfl

/-- The flag goes up by a `start` that finds it down. -/
private theorem Step.running_cases (h : Step s a s') (hdown : s.running = false) :
    s'.running = false ∨ a = .start := by
  cases h with
  | start => exact .inr rfl
  | stop => exact .inl rfl
  | _ => exact .inl hdown

/-- A loop that has exited stays so. -/
private theorem Step.exited (h : Step s a s') (hpc : s.loops[k]? = some .exited) :
    s'.loops[k]? = some .exited := by
  rcases h.loop_cases hpc with hsame | ⟨-, pc', hnext, -⟩
  · exact hsame
  · cases hnext

/-- With the flag down a loop that is in no tick begins none. -/
private theorem Step.not_inTick (h : Step s a s') (hdown : s.running = false) {pc : LoopPc}
    (hpc : s.loops[k]? = some pc) (htick : ¬ pc.InTick) :
    ∃ pc', s'.loops[k]? = some pc' ∧ ¬ pc'.InTick := by
  rcases h.loop_cases hpc with hsame | ⟨-, pc', hnext, hpc'⟩
  · exact ⟨pc, hsame, htick⟩
  · refine ⟨pc', hpc', ?_⟩
    rw [hdown] at hnext
    cases pc with
    | check | sleeping =>
      obtain rfl := Option.some.inj hnext
      exact id
    | tick | enter | syncing => exact absurd trivial htick
    | exited => cases hnext

/-! ### A loop on its own -/

/-- A loop that has not exited gets back to the head of its `while` by its own steps. -/
private theorem exists_check (s : SyncRunner) {pc : LoopPc} (hpc : s.loops[k]? = some pc)
    (hne : pc ≠ .exited) : ∃ n s', machine.exec s (List.replicate n (.loop k)) = some s' ∧
      s'.loops[k]? = some .check ∧ s'.running = s.running ∧
      s'.loops.length = s.loops.length := by
  induction hrest : pc.rest using Nat.strong_induction_on generalizing s pc with
  | _ m ih =>
    by_cases hcheck : pc = .check
    · subst hcheck
      exact ⟨0, s, rfl, hpc, rfl, rfl⟩
    · obtain ⟨pc', hnext, hlt, hne'⟩ : ∃ pc', pc.next s.running s.online = some pc' ∧
          pc'.rest < pc.rest ∧ pc' ≠ .exited := by
        cases pc with
        | check => exact absurd rfl hcheck
        | exited => exact absurd rfl hne
        | tick => cases s.online <;> exact ⟨_, rfl, by decide, by decide⟩
        | enter | syncing | sleeping => exact ⟨_, rfl, by decide, by decide⟩
      obtain ⟨hk, -⟩ := List.getElem?_eq_some_iff.mp hpc
      have hstep : machine.step s (.loop k) = some { s with loops := s.loops.set k pc' } := by
        simp only [machine, step, hpc, Option.bind_some, hnext, Option.map_some]
      obtain ⟨n, s', hexec, hat, hrunning, hlength⟩ := ih pc'.rest (hrest ▸ hlt)
        { s with loops := s.loops.set k pc' } (List.getElem?_set_self hk) hne' rfl
      refine ⟨n + 1, s', ?_, hat, hrunning, hlength.trans (List.length_set)⟩
      rw [List.replicate_succ, Machine.exec, hstep]
      exact hexec

end SyncRunner

/-- The runs of the runner. -/
abbrev RunnerRun : Type :=
  SyncRunner.machine.Run

namespace RunnerRun

variable {r r' : RunnerRun} {t t' k : ℕ}

theorem step_cases (r : RunnerRun) (ht : t < r.length) :
    SyncRunner.Step (r.state t) (r.act t) (r.state (t + 1)) :=
  SyncRunner.step_cases (r.step_state t ht)

private theorem length_loops_mono (r : RunnerRun) (h : t ≤ t') (ht' : t' ≤ r.length) :
    (r.state t).loops.length ≤ (r.state t').loops.length :=
  r.mono (R := fun s s' : SyncRunner => s.loops.length ≤ s'.loops.length) (fun _ => le_rfl)
    (fun _ _ _ => le_trans) (fun _ hu => (r.step_cases hu).length_loops_le) h ht'

/-- The `k`-th loop begins a tick. -/
def Ticks (r : RunnerRun) (k t : ℕ) : Prop :=
  r.act t = .loop k ∧ (r.state t).loops[k]? = some .check ∧ (r.state t).running = true

/-- The `k`-th loop starts a sync round. -/
def Enters (r : RunnerRun) (k t : ℕ) : Prop :=
  r.act t = .loop k ∧ (r.state t).loops[k]? = some .enter

/-- `stop` is final: a round that a loop spawned before it starts later belongs to the tick that
was under way at the stop. -/
def StopFinal (r : RunnerRun) : Prop :=
  ∀ s < r.length, r.act s = .stop → ∀ k < (r.state s).loops.length,
    ∀ u, s < u → u < r.length → r.Enters k u →
      ∀ w, s ≤ w → w ≤ u → ∃ pc, (r.state w).loops[k]? = some pc ∧ pc.InTick

/-- There is one job: once a later loop has been spawned, a loop begins no tick. -/
def SingleJob (r : RunnerRun) : Prop :=
  ∀ k k', k < k' → ∀ u < r.length, k' < (r.state u).loops.length → ¬ r.Ticks k u

/-- The run goes on from a time of the given one by steps of the tasks alone. -/
def Continues (r' r : RunnerRun) : Prop :=
  ∃ t ≤ r.length, t ≤ r'.length ∧ (∀ u < t, r'.act u = r.act u) ∧
    ∀ u, t ≤ u → u < r'.length → (r'.act u).IsTask

private theorem Continues.refl (r : RunnerRun) : r.Continues r :=
  ⟨r.length, le_rfl, le_rfl, fun _ _ => rfl, fun _ hle hlt => absurd hle hlt.not_ge⟩

/-- A call of the app that a continuation has is one of the run, in the same state. -/
theorem Continues.call (h : r'.Continues r) (ht : t < r'.length) (hcall : ¬ (r'.act t).IsTask) :
    t < r.length ∧ r'.act t = r.act t ∧ r'.state t = r.state t := by
  obtain ⟨n, hn, hn', hact, htask⟩ := h
  have hlt : t < n := lt_of_not_ge fun hge => hcall (htask t hge ht)
  have hinit : r'.state 0 = r.state 0 := r'.init_state.trans (Eq.symm r.init_state)
  exact ⟨hlt.trans_le hn, hact t hlt, r'.state_eq_of_act_eq r hinit
    (fun u hu => hact u (hu.trans hlt)) (hlt.le.trans hn') (hlt.le.trans hn)⟩

/-- No `start` that finds the flag down comes while an earlier loop has not exited. -/
def NoOverlap (r : RunnerRun) : Prop :=
  ∀ t < r.length, r.act t = .start → (r.state t).running = false →
    ∀ pc ∈ (r.state t).loops, pc = .exited

/-- All loops but the last have exited. -/
private theorem NoOverlap.exited (h : r.NoOverlap) (ht : t ≤ r.length)
    (hk : k + 1 < (r.state t).loops.length) : (r.state t).loops[k]? = some .exited := by
  induction t with
  | zero =>
    have h₀ : r.state 0 = .new := r.init_state
    rw [h₀] at hk
    exact absurd hk (Nat.not_lt_zero _)
  | succ t ih =>
    have hstep := r.step_cases ht
    by_cases hold : k + 1 < (r.state t).loops.length
    · exact hstep.exited (ih (Nat.le_of_succ_le ht) hold)
    · -- the last loop is the one just spawned
      generalize hact : r.act t = a at hstep
      generalize r.state (t + 1) = s' at hstep hk ⊢
      cases hstep with
      | start down =>
        have hlt : k < (r.state t).loops.length := by simpa using hk
        refine (List.getElem?_append_left hlt).trans ?_
        rw [List.getElem?_eq_getElem hlt, h t ht hact down _ (List.getElem_mem hlt)]
      | loop => simp only [List.length_set] at hk; exact absurd hk hold
      | _ => exact absurd hk hold

/-- After a stop the flag stays down as long as a loop from before has not exited. -/
private theorem NoOverlap.down_or_exited (h : r.NoOverlap) {s : ℕ} (hs : r.act s = .stop)
    (hk : k < (r.state s).loops.length) (hst : s < t) (ht : t ≤ r.length) :
    (r.state t).running = false ∨ (r.state t).loops[k]? = some .exited := by
  refine r.le_induction (a := s + 1) (P := fun t => (r.state t).running = false ∨
    (r.state t).loops[k]? = some .exited) ?_ (fun t hst ht ih => ?_) t hst ht
  · have hstep := r.step_cases (hst.trans_le ht)
    rw [hs] at hstep
    generalize r.state (s + 1) = s' at hstep ⊢
    cases hstep with
    | stop => exact .inl rfl
  · have hstep := r.step_cases ht
    rcases ih with hdown | hexited
    · refine (hstep.running_cases hdown).imp_right fun hact => hstep.exited ?_
      have hk' := hk.trans_le (r.length_loops_mono (Nat.le_of_succ_le hst) ht.le)
      rw [List.getElem?_eq_getElem hk', h t ht hact hdown _ (List.getElem_mem hk')]
    · exact .inr (hstep.exited hexited)

/-- A loop that is in no tick after a stop begins none. -/
private theorem NoOverlap.not_inTick (h : r.NoOverlap) {s w : ℕ} (hs : r.act s = .stop)
    (hk : k < (r.state s).loops.length) (hsw : s ≤ w) (hwt : w ≤ t) (ht : t ≤ r.length)
    (hw : ∃ pc, (r.state w).loops[k]? = some pc ∧ ¬ pc.InTick) :
    ∃ pc, (r.state t).loops[k]? = some pc ∧ ¬ pc.InTick := by
  refine r.le_induction (a := w) (P := fun t => ∃ pc, (r.state t).loops[k]? = some pc ∧
    ¬ pc.InTick) hw (fun t hwt ht ⟨pc, hpc, htick⟩ => ?_) t hwt ht
  have hstep := r.step_cases ht
  rcases (hsw.trans hwt).eq_or_lt with rfl | hst
  · -- the stop itself moves no loop
    rw [hs] at hstep
    rcases hstep.loop_cases hpc with hsame | ⟨hact, -⟩
    · exact ⟨pc, hsame, htick⟩
    · cases hact
  · rcases h.down_or_exited hs hk hst ht.le with hdown | hexited
    · exact hstep.not_inTick hdown hpc htick
    · exact ⟨.exited, hstep.exited hexited, id⟩

/-- With no overlap `stop` is final. -/
private theorem NoOverlap.stopFinal (h : r.NoOverlap) : r.StopFinal := by
  intro s _ hstop k hk u hsu hu henters w hsw hwu
  obtain ⟨-, henter⟩ := henters
  have hk' := hk.trans_le (r.length_loops_mono hsw (hwu.trans hu.le))
  by_contra hnot
  obtain ⟨pc, hpc, htick⟩ := h.not_inTick hstop hk hsw hwu hu.le
    ⟨_, List.getElem?_eq_getElem hk', fun htick => hnot ⟨_, List.getElem?_eq_getElem hk', htick⟩⟩
  obtain rfl := Option.some.inj (henter.symm.trans hpc)
  exact htick trivial

/-- And there is one job. -/
private theorem NoOverlap.singleJob (h : r.NoOverlap) : r.SingleJob := by
  intro k k' hkk' u hu hk' hticks
  obtain ⟨-, hcheck, -⟩ := hticks
  rw [h.exited hu.le (by omega)] at hcheck
  cases hcheck

/-- The tasks start nothing, so they keep the condition. -/
private theorem NoOverlap.continues (h : r.NoOverlap) (hr : r'.Continues r) : r'.NoOverlap := by
  intro t ht hstart hdown
  obtain ⟨hlt, hact, hstate⟩ := hr.call ht (by rw [hstart]; exact id)
  rw [hstate] at hdown ⊢
  exact h t hlt (hact.symm.trans hstart) hdown

/-- **A `start` before a stopped loop has exited revives it.** If a loop has not exited when `start`
finds the flag down, it may come to read the flag up again, and begin a tick next to the new
loop. -/
theorem exists_revived (ht : t < r.length) (hstart : r.act t = .start)
    (hdown : (r.state t).running = false) {pc : LoopPc} (hpc : (r.state t).loops[k]? = some pc)
    (hne : pc ≠ .exited) : ∃ r' : RunnerRun, r'.Continues r ∧ ¬ r'.SingleJob := by
  obtain ⟨hk, -⟩ := List.getElem?_eq_some_iff.mp hpc
  have hnext : r.state (t + 1)
      = { r.state t with running := true, loops := (r.state t).loops ++ [.check] } := by
    have hstep := r.step_state t ht
    rw [hstart] at hstep
    simp only [SyncRunner.machine, SyncRunner.step, hdown] at hstep
    exact (Option.some.inj hstep).symm
  obtain ⟨n, s, hexec, hcheck, hup, hlength⟩ := SyncRunner.exists_check (r.state (t + 1)) (k := k)
    (by rw [hnext]; exact (List.getElem?_append_left hk).trans hpc) hne
  have htask : (RunnerAction.loop k).IsTask := trivial
  have hreach : SyncRunner.machine.Reaches RunnerAction.IsTask (r.state (t + 1)) s :=
    .of_exec (fun a ha => (List.eq_of_mem_replicate ha).symm ▸ htask) hexec
  rw [hnext] at hup hlength
  have htick : SyncRunner.machine.step s (.loop k)
      = some { s with loops := s.loops.set k .tick } := by
    simp [SyncRunner.machine, SyncRunner.step, hcheck, LoopPc.next, hup]
  obtain ⟨r', u, hu, hlast, hstate, hact, hbefore, hafter⟩ :=
    r.exists_continue ht rfl hreach htask htick
  refine ⟨r', ⟨t + 1, ht, hlast ▸ Nat.le_succ_of_le hu, hbefore, hafter⟩, fun hsingle => ?_⟩
  refine hsingle k (r.state t).loops.length hk u (hlast ▸ Nat.lt_succ_self u) ?_ ⟨hact, ?_, ?_⟩
  · rw [hstate, hlength]
    simp
  · rw [hstate, hcheck]
  · rw [hstate, hup]

end RunnerRun

/-- **One background job.** However the tasks of a run go on from any time of it, `stop` is final
for the loops spawned before it and there are never two loops that go on ticking, exactly when no
`start` that finds the flag down comes while an earlier loop has not exited. -/
theorem single_job_iff (r : RunnerRun) :
    (∀ r' : RunnerRun, r'.Continues r → r'.StopFinal ∧ r'.SingleJob) ↔ r.NoOverlap := by
  constructor
  · intro h t ht hstart hdown pc hpc
    by_contra hne
    obtain ⟨k, hk⟩ := List.mem_iff_getElem?.mp hpc
    obtain ⟨r', hr', hnot⟩ := RunnerRun.exists_revived ht hstart hdown hk hne
    exact hnot (h r' hr').2
  · intro h r' hr'
    exact ⟨(h.continues hr').stopFinal, (h.continues hr').singleJob⟩

/-- A job is started, stopped, and started again when its loop has woken and exited. -/
def restartedJob : List RunnerAction :=
  [.start, .loop 0, .loop 0, .loop 0, .stop, .loop 0, .loop 0, .loop 0, .start, .loop 1, .loop 1,
    .loop 1]

def restartedJobRun : RunnerRun :=
  Machine.Run.ofList SyncRunner.machine .new rfl restartedJob .stop (by decide +kernel)

theorem single_job_iff_restartedJob : restartedJobRun.StopFinal ∧ restartedJobRun.SingleJob := by
  refine (single_job_iff restartedJobRun).mpr (fun t ht hact hdown => ?_) _ (.refl _)
  have ht : t < 12 := ht
  interval_cases t <;> first | contradiction | decide +kernel

/-- A job is started, stopped while its loop sleeps, and started again before the loop wakes. -/
def revivedLoop : List RunnerAction :=
  [.start, .loop 0, .loop 0, .loop 0, .loop 0, .stop, .start, .loop 0, .loop 0, .loop 0, .loop 0,
    .loop 1, .loop 1, .loop 1]

def revivedLoopRun : RunnerRun :=
  Machine.Run.ofList SyncRunner.machine .new rfl revivedLoop .stop (by decide +kernel)

/-- **A loop that sleeps through a stop goes on after the next start.** The loop that was asleep
when `stop` was called starts another round, next to the loop of the second `start`. -/
theorem revived_loop : ¬ revivedLoopRun.StopFinal ∧ ¬ revivedLoopRun.SingleJob ∧
    (revivedLoopRun.state 14).loops = [.syncing, .syncing] := by
  refine ⟨fun h => ?_, fun h => ?_, by decide +kernel⟩
  · obtain ⟨pc, hpc, htick⟩ := h 5 (by decide) rfl 0 (by decide +kernel) 10 (by decide) (by decide)
      ⟨rfl, by decide +kernel⟩ 5 le_rfl (by decide)
    have hsleeping : (revivedLoopRun.state 5).loops[0]? = some .sleeping := by decide +kernel
    obtain rfl := Option.some.inj (hsleeping.symm.trans hpc)
    exact htick
  · exact h 0 1 (by decide) 8 (by decide) (by decide +kernel)
      ⟨rfl, by decide +kernel, by decide +kernel⟩

end OfflineSync
