import OfflineSync.Runner

/-!
# Rounds and the network status

`SyncRunner` keeps a flag for the network status, and a round is not to start while it is down.
Three paths start rounds. A loop and `sync_now` read the flag and then call `sync_once`; the task
that `set_online` spawns on a reconnect calls `sync_once` without reading the flag. Between the
reading, or the spawning, and `sync_once` the flag can be taken down, and no path looks again.

So a call of `set_online(false)` is safe exactly when no task stands there (`no_round_offline_iff`):
then nothing starts a round until the flag is up again, and otherwise the task may go on at once. A
task spawned on a reconnect stands there from its spawning on, so going online and offline again is
enough (`flapping_status`).
-/

namespace OfflineSync

/-- A loop goes on to `sync_once` only when it reads the flag up. -/
private theorem LoopPc.online_of_next_enter {running online : Bool} {pc : LoopPc}
    (h : pc.next running online = some .enter) : online = true := by
  cases pc with
  | tick =>
    cases online with
    | false => cases h
    | true => rfl
  | check => cases running <;> cases h
  | _ => cases h

/-- So does a call of `sync_now`. -/
private theorem RoundPc.online_of_next_enter {online : Bool} {pc : RoundPc}
    (h : pc.next online = some .enter) : online = true := by
  cases pc with
  | check =>
    cases online with
    | false => cases h
    | true => rfl
  | _ => cases h

namespace SyncRunner

variable {s s' : SyncRunner} {a : RunnerAction}

/-- Some task stands before `sync_once`: it has read the flag, or was spawned on a reconnect. -/
def Pending (s : SyncRunner) : Prop :=
  .enter ∈ s.loops ∨ .enter ∈ s.rounds

/-- The action is a task's step into `sync_once`. -/
def EntersRound (s : SyncRunner) (a : RunnerAction) : Prop :=
  ∃ k, (a = .loop k ∧ s.loops[k]? = some .enter) ∨ (a = .round k ∧ s.rounds[k]? = some .enter)

private theorem EntersRound.pending (h : s.EntersRound a) : s.Pending := by
  obtain ⟨k, ⟨-, hloop⟩ | ⟨-, hround⟩⟩ := h
  · exact .inl (List.mem_of_getElem? hloop)
  · exact .inr (List.mem_of_getElem? hround)

private theorem EntersRound.isTask (h : s.EntersRound a) : a.IsTask := by
  obtain ⟨k, ⟨rfl, -⟩ | ⟨rfl, -⟩⟩ := h
  · trivial
  · trivial

/-- A task that stands before `sync_once` may go on, whatever the flags are. -/
private theorem Pending.exists_enters (h : s.Pending) :
    ∃ a s', s.EntersRound a ∧ machine.step s a = some s' := by
  rcases h with hloop | hround
  · obtain ⟨k, hk⟩ := List.mem_iff_getElem?.mp hloop
    refine ⟨.loop k, { s with loops := s.loops.set k .syncing }, ⟨k, .inl ⟨rfl, hk⟩⟩, ?_⟩
    simp only [machine, step, hk, Option.bind_some, LoopPc.next, Option.map_some]
  · obtain ⟨k, hk⟩ := List.mem_iff_getElem?.mp hround
    refine ⟨.round k, { s with rounds := s.rounds.set k .syncing }, ⟨k, .inr ⟨rfl, hk⟩⟩, ?_⟩
    simp only [machine, step, hk, Option.bind_some, RoundPc.next, Option.map_some]

/-- While the flag is down no task comes to stand before `sync_once`. -/
theorem Step.not_pending (h : Step s a s') (hidle : a = .setOnline false → ¬ s.Pending)
    (hs : s.online = false → ¬ s.Pending) (hoff : s'.online = false) : ¬ s'.Pending := by
  cases h with
  | started | stop => exact hs hoff
  | start =>
    rintro (hloop | hround)
    · rcases List.mem_append.mp hloop with hloop | hloop
      · exact hs hoff (.inl hloop)
      · cases List.mem_singleton.mp hloop
    · exact hs hoff (.inr hround)
  | reconnect => cases hoff
  | @setOnline online =>
    obtain rfl : online = false := hoff
    exact hidle rfl
  | syncNow =>
    rintro (hloop | hround)
    · exact hs hoff (.inl hloop)
    · rcases List.mem_append.mp hround with hround | hround
      · exact hs hoff (.inr hround)
      · cases List.mem_singleton.mp hround
  | @loop k pc pc' _ hnext =>
    rintro (hloop | hround)
    · rcases List.mem_or_eq_of_mem_set hloop with hloop | rfl
      · exact hs hoff (.inl hloop)
      · have hon := LoopPc.online_of_next_enter hnext
        cases hoff.symm.trans hon
    · exact hs hoff (.inr hround)
  | @round k pc pc' _ hnext =>
    rintro (hloop | hround)
    · exact hs hoff (.inl hloop)
    · rcases List.mem_or_eq_of_mem_set hround with hround | rfl
      · exact hs hoff (.inr hround)
      · have hon := RoundPc.online_of_next_enter hnext
        cases hoff.symm.trans hon

end SyncRunner

namespace RunnerRun

variable {r r' : RunnerRun} {t : ℕ}

/-- Some task enters `sync_once` at time `t`. -/
def StartsRound (r : RunnerRun) (t : ℕ) : Prop :=
  (r.state t).EntersRound (r.act t)

/-- No round starts while the flag is down. -/
def NoRoundOffline (r : RunnerRun) : Prop :=
  ∀ t < r.length, r.StartsRound t → (r.state t).online = true

/-- `set_online(false)` is called only when no task stands before `sync_once`. -/
def OfflineWhenIdle (r : RunnerRun) : Prop :=
  ∀ t < r.length, r.act t = .setOnline false → ¬ (r.state t).Pending

private theorem OfflineWhenIdle.not_pending (h : r.OfflineWhenIdle) (ht : t ≤ r.length)
    (hoff : (r.state t).online = false) : ¬ (r.state t).Pending := by
  induction t with
  | zero =>
    have h₀ : r.state 0 = .new := r.init_state
    rw [h₀] at hoff
    cases hoff
  | succ t ih => exact (r.step_cases ht).not_pending (h t ht) (ih (Nat.le_of_succ_le ht)) hoff

/-- **Going offline when no task stands before `sync_once` keeps rounds from starting.** -/
theorem OfflineWhenIdle.noRoundOffline (h : r.OfflineWhenIdle) : r.NoRoundOffline := by
  intro t ht hstart
  by_contra hoff
  exact h.not_pending ht.le (Bool.eq_false_of_not_eq_true hoff) hstart.pending

/-- The tasks call nothing, so they keep the condition. -/
private theorem OfflineWhenIdle.continues (h : r.OfflineWhenIdle) (hr : r'.Continues r) :
    r'.OfflineWhenIdle := by
  intro t ht hoffline
  obtain ⟨hlt, hact, hstate⟩ := hr.call ht (by rw [hoffline]; exact id)
  rw [hstate]
  exact h t hlt (hact.symm.trans hoffline)

/-- A task that stands before `sync_once` when the flag goes down may enter next. -/
private theorem exists_round_offline (ht : t < r.length) (hact : r.act t = .setOnline false)
    (hpending : (r.state t).Pending) : ∃ r' : RunnerRun, r'.Continues r ∧ ¬ r'.NoRoundOffline := by
  have hnext : r.state (t + 1) = { r.state t with online := false } := by
    have hstep := r.step_state t ht
    rw [hact] at hstep
    exact (Option.some.inj hstep).symm
  have hpending' : (r.state (t + 1)).Pending := by
    rw [hnext]
    exact hpending
  obtain ⟨a, s', henter, hstep⟩ := hpending'.exists_enters
  obtain ⟨r', u, hu, hlast, hstate, hact', hbefore, hafter⟩ :=
    r.exists_continue ht rfl .refl henter.isTask hstep
  refine ⟨r', ⟨t + 1, ht, hlast ▸ Nat.le_succ_of_le hu, hbefore, hafter⟩, fun hnone => ?_⟩
  have hstart : StartsRound r' u := by
    rw [StartsRound, hact', hstate]
    exact henter
  have hon := hnone u (hlast ▸ Nat.lt_succ_self u) hstart
  rw [hstate, hnext] at hon
  cases hon

end RunnerRun

/-- **No round starts while offline, in whatever order the tasks go on, exactly when each
`set_online(false)` comes while no task stands before `sync_once`.** -/
theorem no_round_offline_iff (r : RunnerRun) :
    (∀ r' : RunnerRun, r'.Continues r → r'.NoRoundOffline) ↔ r.OfflineWhenIdle := by
  constructor
  · intro h t ht hact hpending
    obtain ⟨r', hr', hnot⟩ := RunnerRun.exists_round_offline ht hact hpending
    exact hnot (h r' hr')
  · intro h r' hr'
    exact (h.continues hr').noRoundOffline

/-- The app goes offline, back online, and offline again before the task spawned on the reconnect is
polled. -/
def flappingStatus : List RunnerAction :=
  [.setOnline false, .setOnline true, .setOnline false, .round 0]

def flappingStatusRun : RunnerRun :=
  Machine.Run.ofList SyncRunner.machine .new rfl flappingStatus .stop (by decide +kernel)

/-- **The reconnect round runs offline.** -/
theorem flapping_status : flappingStatusRun.StartsRound 3 ∧
    (flappingStatusRun.state 3).online = false ∧ ¬ flappingStatusRun.NoRoundOffline := by
  have hstart : flappingStatusRun.StartsRound 3 := ⟨0, .inr ⟨rfl, by decide +kernel⟩⟩
  have hoff : (flappingStatusRun.state 3).online = false := by decide +kernel
  refine ⟨hstart, hoff, fun h => ?_⟩
  have hon := h 3 (by decide) hstart
  cases hoff.symm.trans hon

end OfflineSync
