import OfflineSync.Lib.Machine
import Mathlib.Data.Finset.Max

/-!
# Locks taken in order

Tasks that take and release exclusive locks, seen through nothing but the locks: a program is the
list of what it does with them. A program is `Orderly` from the locks it holds at its start to those
it holds at its end when it asks only for locks that rank above all it holds, releases only what it
holds, and leaves the floor to foreign code only while it holds nothing. For answers from outside it
may wait with locks held, since these always come. Orderly programs compose (`Orderly.append`), and
so do the sections in which a lock is held (`Orderly.holding`).

Any number of tasks may be at work, and new ones may come at any time. In every state reached, what
each task holds and what it has left to do fit together (`Sound`). So they never deadlock
(`Sound.exists_enabled`): of the locks that are waited for take one of the highest rank; its holder
waits for none above it, and so for none at all. Without new tasks all come to an end
(`Sound.exists_done`).
-/

universe u v w

/-- What a task does with locks. -/
inductive LockOp (L : Type u)
  | acquire (l : L)
  | release (l : L)
  /-- Waits for answers from outside, one after the other; how many is open. -/
  | answers
  /-- Foreign code runs, which may make calls. -/
  | callback
deriving DecidableEq, Repr

namespace LockOp

variable {L : Type u} [DecidableEq L] {κ : Type w} [LinearOrder κ] {rank : L → κ}

/-- The section in which a lock is held. -/
def holding (l : L) (body : List (LockOp L)) : List (LockOp L) :=
  .acquire l :: body ++ [.release l]

/-- From `held` to `held'` the program takes locks in the order of their ranks. -/
def Orderly (rank : L → κ) : List L → List (LockOp L) → List L → Prop
  | held, [], held' => held = held'
  | held, .acquire l :: ops, held' =>
    (∀ h ∈ held, rank h < rank l) ∧ Orderly rank (l :: held) ops held'
  | held, .release l :: ops, held' => l ∈ held ∧ Orderly rank (held.erase l) ops held'
  | held, .answers :: ops, held' => Orderly rank held ops held'
  | held, .callback :: ops, held' => held = [] ∧ Orderly rank [] ops held'

variable {held held' held'' : List L} {ops ops' : List (LockOp L)}

theorem Orderly.append (h : Orderly rank held ops held') (h' : Orderly rank held' ops' held'') :
    Orderly rank held (ops ++ ops') held'' := by
  induction ops generalizing held with
  | nil =>
    obtain rfl : held = held' := h
    exact h'
  | cons op ops ih =>
    cases op with
    | acquire l => exact ⟨h.1, ih h.2⟩
    | release l => exact ⟨h.1, ih h.2⟩
    | answers => exact ih h
    | callback => exact ⟨h.1, ih h.2⟩

/-- A section whose lock ranks above those held outside leaves these as they were. -/
theorem Orderly.holding {l : L} (hrank : ∀ h ∈ held, rank h < rank l)
    (h : Orderly rank (l :: held) ops (l :: held)) :
    Orderly rank held (LockOp.holding l ops) held := by
  refine ⟨hrank, h.append ⟨List.mem_cons_self, ?_⟩⟩
  exact List.erase_cons_head l held

/-- A section that a task enters with no lock held. -/
theorem Orderly.holding_of_nil {l : L} (h : Orderly rank [l] ops [l]) :
    Orderly rank [] (LockOp.holding l ops) [] := by
  refine .holding ?_ h
  intro l' hl'
  cases hl'

theorem Orderly.flatMap {β : Type v} {program : β → List (LockOp L)} {cs : List β}
    (h : ∀ c ∈ cs, Orderly rank held (program c) held) :
    Orderly rank held (cs.flatMap program) held := by
  induction cs with
  | nil => exact rfl
  | cons c cs ih =>
    rw [List.flatMap_cons]
    refine (h c List.mem_cons_self).append (ih fun c' hc' => ?_)
    exact h c' (List.mem_cons_of_mem c hc')

end LockOp

/-- The holder of each lock, and what each task has left to do. -/
structure Locks (L : Type u) where
  holder : L → Option ℕ
  /-- The tasks, oldest first. One that is through has nothing left. -/
  tasks : List (List (LockOp L))

/-- The steps of the tasks, and their coming. Calls are made from `C`. -/
inductive LockAction (C : Type v)
  /-- A task comes, which makes the given calls one after the other. -/
  | spawn (calls : List C)
  /-- Task `k` takes the lock it asks for, or releases one. -/
  | run (k : ℕ)
  /-- An answer for task `k` comes, its last one or not. -/
  | answer (k : ℕ) (last : Bool)
  /-- Foreign code runs in task `k` and makes the given calls. -/
  | callback (k : ℕ) (calls : List C)

/-- The task an action is a step of. -/
def LockAction.task {C : Type v} : LockAction C → Option ℕ
  | .spawn _ => none
  | .run k | .answer k _ | .callback k _ => some k

namespace Locks

open LockOp

variable {L : Type u} [DecidableEq L] {C : Type v} {program : C → List (LockOp L)}

/-- No task, and every lock is free. -/
def start : Locks L where
  holder _ := none
  tasks := []

/-- One step; `none` when it is not enabled. -/
def step (program : C → List (LockOp L)) (s : Locks L) : LockAction C → Option (Locks L)
  | .spawn calls => some { s with tasks := s.tasks ++ [calls.flatMap program] }
  | .run k =>
    match s.tasks[k]? with
    | some (.acquire l :: ops) =>
      -- which of the waiting tasks gets a free lock is open
      if s.holder l = none then
        some ⟨Function.update s.holder l (some k), s.tasks.set k ops⟩
      else none
    | some (.release l :: ops) => some ⟨Function.update s.holder l none, s.tasks.set k ops⟩
    | _ => none
  | .answer k last =>
    match s.tasks[k]? with
    | some (.answers :: ops) => some (if last then { s with tasks := s.tasks.set k ops } else s)
    | _ => none
  | .callback k calls =>
    match s.tasks[k]? with
    | some (.callback :: ops) =>
      some { s with tasks := s.tasks.set k (calls.flatMap program ++ ops) }
    | _ => none

/-- The tasks as a machine. -/
def machine (program : C → List (LockOp L)) : Machine (Locks L) (LockAction C) where
  init s := s = start
  step := step program

/-- The steps of the tasks, one case for each way an enabled action can go. -/
inductive Step (program : C → List (LockOp L)) (s : Locks L) : LockAction C → Locks L → Prop
  | spawn {calls} : Step program s (.spawn calls)
      { s with tasks := s.tasks ++ [calls.flatMap program] }
  | acquire {k l ops} (next : s.tasks[k]? = some (.acquire l :: ops)) (free : s.holder l = none) :
      Step program s (.run k) ⟨Function.update s.holder l (some k), s.tasks.set k ops⟩
  | release {k l ops} (next : s.tasks[k]? = some (.release l :: ops)) :
      Step program s (.run k) ⟨Function.update s.holder l none, s.tasks.set k ops⟩
  | answer {k ops} (next : s.tasks[k]? = some (.answers :: ops)) :
      Step program s (.answer k false) s
  | lastAnswer {k ops} (next : s.tasks[k]? = some (.answers :: ops)) :
      Step program s (.answer k true) { s with tasks := s.tasks.set k ops }
  | callback {k calls ops} (next : s.tasks[k]? = some (.callback :: ops)) :
      Step program s (.callback k calls)
        { s with tasks := s.tasks.set k (calls.flatMap program ++ ops) }

/-- An enabled step is one of the cases of `Step`. -/
theorem step_cases {s s' : Locks L} {a : LockAction C}
    (h : (machine program).step s a = some s') : Step program s a s' := by
  simp only [machine] at h
  cases a with
  | spawn calls => exact Option.some.inj h ▸ .spawn
  | run k =>
    simp only [step] at h
    split at h
    next l ops hnext =>
      split_ifs at h with hfree
      exact Option.some.inj h ▸ .acquire hnext hfree
    next l ops hnext => exact Option.some.inj h ▸ .release hnext
    next => cases h
  | answer k last =>
    simp only [step] at h
    split at h
    next ops hnext =>
      cases last with
      | false => exact Option.some.inj h ▸ .answer hnext
      | true => exact Option.some.inj h ▸ .lastAnswer hnext
    next => cases h
  | callback k calls =>
    simp only [step] at h
    split at h
    next ops hnext => exact Option.some.inj h ▸ .callback hnext
    next => cases h

variable {κ : Type w} [LinearOrder κ] {rank : L → κ} {s s' : Locks L}

/-- What each task holds and what it has left to do fit together, and no lock is held by another. -/
structure Sound (rank : L → κ) (s : Locks L) : Prop where
  tasks : ∀ k ops, s.tasks[k]? = some ops → ∃ held : List L, held.Nodup ∧
    (∀ l, s.holder l = some k ↔ l ∈ held) ∧ Orderly rank held ops []
  holder_lt : ∀ l k, s.holder l = some k → k < s.tasks.length

theorem sound_start (rank : L → κ) : (start : Locks L).Sound rank where
  tasks k ops h := by cases h
  holder_lt l k h := by cases h

/-- A step of task `k`, which leaves the others what they hold. -/
theorem Sound.set (h : s.Sound rank) {k : ℕ} (hk : k < s.tasks.length) {held : List L}
    {ops : List (LockOp L)} {holder : L → Option ℕ} (hnd : held.Nodup)
    (hheld : ∀ l, holder l = some k ↔ l ∈ held) (hops : Orderly rank held ops [])
    (hother : ∀ j ≠ k, ∀ l, holder l = some j ↔ s.holder l = some j) :
    Sound rank ⟨holder, s.tasks.set k ops⟩ where
  tasks j ops' hj := by
    by_cases hjk : j = k
    · subst hjk
      obtain rfl := Option.some.inj ((List.getElem?_set_self hk).symm.trans hj)
      exact ⟨held, hnd, hheld, hops⟩
    · rw [List.getElem?_set_ne (Ne.symm hjk)] at hj
      obtain ⟨held', hnd', hheld', hops'⟩ := h.tasks j ops' hj
      exact ⟨held', hnd', fun l => (hother j hjk l).trans (hheld' l), hops'⟩
  holder_lt l j hl := by
    rw [List.length_set]
    by_cases hjk : j = k
    · exact hjk ▸ hk
    · exact h.holder_lt l j ((hother j hjk l).mp hl)

/-- A lock that changes hands between others is nothing to task `j`. -/
theorem update_holder_iff {holder : L → Option ℕ} {l : L} {task : Option ℕ} {j : ℕ}
    (hnew : task ≠ some j) (hold : holder l ≠ some j) (l' : L) :
    Function.update holder l task l' = some j ↔ holder l' = some j := by
  by_cases hll : l' = l
  · subst hll
    rw [Function.update_self]
    exact iff_of_false hnew hold
  · rw [Function.update_of_ne hll]

/-- **Every step preserves `Sound`** when every call is orderly from nothing to nothing. -/
theorem Sound.step (h : s.Sound rank) (hprogram : ∀ c, Orderly rank [] (program c) [])
    {a : LockAction C} (hstep : Step program s a s') : s'.Sound rank := by
  cases hstep with
  | @spawn calls =>
    refine ⟨fun k ops hk => ?_, fun l k hl => ?_⟩
    · rcases Nat.lt_or_ge k s.tasks.length with hlt | hge
      · exact h.tasks k ops ((List.getElem?_append_left hlt).symm.trans hk)
      · -- the new task holds nothing yet
        rw [List.getElem?_append_right hge] at hk
        have hmem := List.mem_singleton.mp (List.mem_of_getElem? hk)
        refine ⟨[], List.nodup_nil, fun l => ?_, hmem ▸ .flatMap fun c _ => hprogram c⟩
        exact iff_of_false (fun hl => hge.not_gt (h.holder_lt l k hl)) List.not_mem_nil
    · rw [List.length_append]
      exact (h.holder_lt l k hl).trans_le (Nat.le_add_right _ _)
  | @acquire k l ops hnext hfree =>
    obtain ⟨hk, -⟩ := List.getElem?_eq_some_iff.mp hnext
    obtain ⟨held, hnd, hheld, hrank, hops⟩ := h.tasks k _ hnext
    have hl : l ∉ held := fun hl => lt_irrefl _ (hrank l hl)
    refine h.set hk (List.nodup_cons.mpr ⟨hl, hnd⟩) (fun l' => ?_) hops fun j hjk l' => ?_
    · by_cases hll : l' = l
      · subst hll
        simp
      · rw [Function.update_of_ne hll, hheld, List.mem_cons]
        exact (or_iff_right hll).symm
    · refine update_holder_iff (fun heq => hjk (Option.some.inj heq).symm) ?_ l'
      rw [hfree]
      exact (Option.some_ne_none j).symm
  | @release k l ops hnext =>
    obtain ⟨hk, -⟩ := List.getElem?_eq_some_iff.mp hnext
    obtain ⟨held, hnd, hheld, hl, hops⟩ := h.tasks k _ hnext
    refine h.set hk (hnd.erase l) (fun l' => ?_) hops fun j hjk l' => ?_
    · rw [hnd.mem_erase_iff]
      by_cases hll : l' = l
      · subst hll
        simp
      · rw [Function.update_of_ne hll, hheld]
        exact (and_iff_right hll).symm
    · refine update_holder_iff (Option.some_ne_none j).symm ?_ l'
      rw [(hheld l).mpr hl]
      exact fun heq => hjk (Option.some.inj heq).symm
  | answer => exact h
  | @lastAnswer k ops hnext =>
    obtain ⟨hk, -⟩ := List.getElem?_eq_some_iff.mp hnext
    obtain ⟨held, hnd, hheld, hops⟩ := h.tasks k _ hnext
    exact h.set hk hnd hheld hops fun _ _ _ => Iff.rfl
  | @callback k calls ops hnext =>
    obtain ⟨hk, -⟩ := List.getElem?_eq_some_iff.mp hnext
    obtain ⟨held, hnd, hheld, rfl, hops⟩ := h.tasks k _ hnext
    have hcalls : Orderly rank [] (calls.flatMap program) [] := .flatMap fun c _ => hprogram c
    exact h.set hk hnd hheld (hcalls.append hops) fun _ _ _ => Iff.rfl

/-! ### Progress -/

/-- Task `k` has something left to do, and it does not wait for a lock that is held. -/
def Enabled (s : Locks L) (k : ℕ) : Prop :=
  ∃ op ops, s.tasks[k]? = some (op :: ops) ∧ ∀ l, op = .acquire l → s.holder l = none

/-- The lock that a task asks for next. -/
def awaited : List (LockOp L) → Option L
  | .acquire l :: _ => some l
  | _ => none

/-- **Locks taken in order do not deadlock**: while some task has something left to do, one of them
can do it. -/
theorem Sound.exists_enabled (h : s.Sound rank) (hwork : ∃ ops ∈ s.tasks, ops ≠ []) :
    ∃ k, s.Enabled k := by
  by_contra hnone
  -- then every task that is not through asks for a lock that is held
  have hwaits : ∀ (k : ℕ) (ops : List (LockOp L)), s.tasks[k]? = some ops → ops ≠ [] →
      ∃ l rest, ops = .acquire l :: rest ∧ s.holder l ≠ none := by
    intro k ops hk hne
    obtain ⟨op, rest, rfl⟩ := List.exists_cons_of_ne_nil hne
    by_contra hfree
    refine hnone ⟨k, op, rest, hk, fun l hl => ?_⟩
    by_contra hheld
    exact hfree ⟨l, rest, by rw [hl], hheld⟩
  have hmem : ∀ {k : ℕ} {l : L} {rest : List (LockOp L)},
      s.tasks[k]? = some (.acquire l :: rest) → l ∈ (s.tasks.filterMap awaited).toFinset := by
    intro k l rest hk
    exact List.mem_toFinset.mpr (List.mem_filterMap.mpr ⟨_, List.mem_of_getElem? hk, rfl⟩)
  obtain ⟨ops, hops, hne⟩ := hwork
  obtain ⟨k, hk⟩ := List.mem_iff_getElem?.mp hops
  obtain ⟨l, rest, rfl, -⟩ := hwaits k ops hk hne
  obtain ⟨m, hm, hmax⟩ := Finset.exists_max_image (s.tasks.filterMap awaited).toFinset rank
    ⟨l, hmem hk⟩
  obtain ⟨waiting, hwaiting, hawaited⟩ := List.mem_filterMap.mp (List.mem_toFinset.mp hm)
  obtain ⟨i, hi⟩ := List.mem_iff_getElem?.mp hwaiting
  obtain ⟨m', rest', rfl, hheld⟩ := hwaits i waiting hi (by rintro rfl; cases hawaited)
  obtain rfl : m' = m := Option.some.inj hawaited
  -- the holder of the highest lock that is waited for waits for a higher one
  obtain ⟨j, hj⟩ := Option.ne_none_iff_exists'.mp hheld
  have hlt : j < s.tasks.length := h.holder_lt m' j hj
  have hjk : s.tasks[j]? = some s.tasks[j] := List.getElem?_eq_getElem hlt
  obtain ⟨held, -, hheld, horder⟩ := h.tasks j _ hjk
  have hmheld : m' ∈ held := (hheld m').mp hj
  have hjne : s.tasks[j] ≠ [] := by
    intro hnil
    rw [hnil] at horder
    obtain rfl : held = [] := horder
    exact List.not_mem_nil hmheld
  obtain ⟨l', rest'', heq, -⟩ := hwaits j _ hjk hjne
  rw [heq] at horder hjk
  exact absurd (hmax l' (hmem hjk)) (not_le.mpr (horder.1 m' hmheld))

/-- An enabled task has a step. Foreign code may make no call. -/
theorem Enabled.exists_step (program : C → List (LockOp L)) {k : ℕ} (h : s.Enabled k) :
    ∃ a s', a.task = some k ∧ (machine program).step s a = some s' ∧
      ∃ op ops, s.tasks[k]? = some (op :: ops) ∧ s'.tasks = s.tasks.set k ops := by
  obtain ⟨op, ops, hk, hfree⟩ := h
  cases op with
  | acquire l =>
    refine ⟨.run k, ⟨Function.update s.holder l (some k), s.tasks.set k ops⟩, rfl, ?_,
      _, ops, hk, rfl⟩
    simp only [machine, Locks.step, hk]
    exact if_pos (hfree l rfl)
  | release l =>
    refine ⟨.run k, ⟨Function.update s.holder l none, s.tasks.set k ops⟩, rfl, ?_, _, ops, hk, rfl⟩
    simp only [machine, Locks.step, hk]
  | answers =>
    refine ⟨.answer k true, { s with tasks := s.tasks.set k ops }, rfl, ?_, _, ops, hk, rfl⟩
    simp only [machine, Locks.step, hk]
    exact congrArg some (if_pos trivial)
  | callback =>
    refine ⟨.callback k [], { s with tasks := s.tasks.set k ops }, rfl, ?_, _, ops, hk, rfl⟩
    simp only [machine, Locks.step, hk]
    rfl

/-- How much is left to do. -/
def work (s : Locks L) : ℕ :=
  s.tasks.flatten.length

omit [DecidableEq L] in
theorem work_set {tasks : List (List (LockOp L))} {k : ℕ} {op : LockOp L} {ops : List (LockOp L)}
    (h : tasks[k]? = some (op :: ops)) :
    (tasks.set k ops).flatten.length + 1 = tasks.flatten.length := by
  induction tasks generalizing k with
  | nil => cases h
  | cons task tasks ih =>
    cases k with
    | zero =>
      obtain rfl := Option.some.inj h
      simp only [List.set_cons_zero, List.flatten_cons, List.length_append, List.length_cons]
      omega
    | succ k =>
      have hrest := ih h
      simp only [List.set_cons_succ, List.flatten_cons, List.length_append]
      omega

/-- **The tasks come to an end** when no new ones come: they can all get through, and then every
lock is free. -/
theorem Sound.exists_done (h : s.Sound rank) (hprogram : ∀ c, Orderly rank [] (program c) []) :
    ∃ s', (machine program).Reaches (fun a => a.task ≠ none) s s' ∧
      (∀ ops ∈ s'.tasks, ops = []) ∧ ∀ l, s'.holder l = none := by
  induction hwork : s.work using Nat.strong_induction_on generalizing s with
  | _ n ih =>
    by_cases hdone : ∃ ops ∈ s.tasks, ops ≠ []
    · obtain ⟨k, hk⟩ := h.exists_enabled hdone
      obtain ⟨a, s₁, ha, hstep, op, ops, hnext, htasks⟩ := hk.exists_step program
      have hless : s₁.work + 1 = s.work := by
        rw [work, work, htasks]
        exact work_set hnext
      have hsound := h.step hprogram (step_cases hstep)
      obtain ⟨s', hreach, hend⟩ := ih s₁.work (by omega) hsound rfl
      have htask : a.task ≠ none := by
        rw [ha]
        exact Option.some_ne_none k
      exact ⟨s', .cons htask hstep hreach, hend⟩
    · push Not at hdone
      refine ⟨s, .refl, hdone, fun l => ?_⟩
      by_contra hheld
      obtain ⟨k, hk⟩ := Option.ne_none_iff_exists'.mp hheld
      have hnext := List.getElem?_eq_getElem (h.holder_lt l k hk)
      obtain ⟨held, -, hheld, horder⟩ := h.tasks k _ hnext
      rw [hdone _ (List.mem_of_getElem? hnext)] at horder
      obtain rfl : held = [] := horder
      exact List.not_mem_nil ((hheld l).mp hk)

end Locks
