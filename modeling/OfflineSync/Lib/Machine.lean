import Mathlib.Data.List.GetD
import Mathlib.Data.Nat.Find
import Mathlib.Order.Nat

/-!
# Machines and their runs

A `Machine` is a set of initial states and an executable step function: `step s a = none`
says that the action `a` is not enabled in `s`. A `Run` is a finite execution, indexed by
time, so that a statement about two moments of one execution names both of them. The rules
every later induction goes through are here:

* `Run.invariant` — a property of the initial states that each step preserves holds at every
  time of every run;
* `Run.le_induction` — the same from any moment on, for properties of the time itself;
* `Run.mono` — a reflexive and transitive relation every step respects relates the states at
  any two times in order;
* `Run.divert` — a run left at some time for another action, for what else could have happened;
* `Run.ofList` — the run that executes a list of actions, for runs that are evaluated;
* `Reaches` — one state is reached from another by actions of some kind, for the parts of a run
  that one component is responsible for.

`Machine.stuttering` adds an idle action, so that a machine with more components projects to
a machine with fewer of them along the same times (`Run.project`).
-/

universe u v u' v'

variable {σ : Type u} {α : Type v} {τ : Type u'} {β : Type v'}

/-- Initial states and an executable step function; `none` is a disabled action. -/
structure Machine (σ : Type u) (α : Type v) where
  /-- The states a run may start in. -/
  init : σ → Prop
  /-- The state after an action, when the action is enabled. -/
  step : σ → α → Option σ

/-- A property that holds at one time and not at a later one is lost at some step between. -/
theorem exists_last_of_not {P : ℕ → Prop} {a b : ℕ} (hab : a ≤ b) (ha : P a) (hb : ¬ P b) :
    ∃ u, a ≤ u ∧ u < b ∧ (∀ v, a ≤ v → v ≤ u → P v) ∧ ¬ P (u + 1) := by
  classical
  have hex : ∃ w, a ≤ w ∧ ¬ P w := ⟨b, hab, hb⟩
  obtain ⟨haw, hw⟩ := Nat.find_spec hex
  have hwb : Nat.find hex ≤ b := Nat.find_min' hex ⟨hab, hb⟩
  have hne : Nat.find hex ≠ a := fun heq => (heq ▸ hw) ha
  have hsucc : Nat.find hex - 1 + 1 = Nat.find hex := by omega
  refine ⟨Nat.find hex - 1, by omega, by omega, fun v hav hv => ?_, by rwa [hsucc]⟩
  by_contra hv'
  exact Nat.find_min hex (by omega) ⟨hav, hv'⟩

namespace Machine

/-- A finite run: the states at the times `0, …, length` and the action taken at each time
before the last. -/
structure Run (M : Machine σ α) where
  /-- The number of steps. -/
  length : ℕ
  /-- The state at a time. -/
  state : ℕ → σ
  /-- The action taken at a time. -/
  act : ℕ → α
  init_state : M.init (state 0)
  step_state : ∀ t < length, M.step (state t) (act t) = some (state (t + 1))

namespace Run

variable {M : Machine σ α}

/-- Induction along a run from a time `a` on. -/
theorem le_induction (r : M.Run) {a : ℕ} {P : ℕ → Prop} (h₀ : P a)
    (hstep : ∀ t, a ≤ t → t < r.length → P t → P (t + 1)) :
    ∀ t, a ≤ t → t ≤ r.length → P t := by
  intro t ht
  induction t, ht using Nat.le_induction with
  | base => exact fun _ => h₀
  | succ t ht ih => exact fun hlt => hstep t ht hlt (ih (Nat.le_of_succ_le hlt))

/-- **Invariant rule.** What holds initially and is preserved by each step holds at every time
of a run. -/
theorem invariant {P : σ → Prop} (h₀ : ∀ s, M.init s → P s)
    (hstep : ∀ s a s', P s → M.step s a = some s' → P s') (r : M.Run) {t : ℕ}
    (ht : t ≤ r.length) : P (r.state t) :=
  r.le_induction (P := fun t => P (r.state t)) (h₀ _ r.init_state)
    (fun t _ hlt hP => hstep _ _ _ hP (r.step_state t hlt)) t (Nat.zero_le t) ht

/-- **Monotonicity rule.** A reflexive and transitive relation that relates the two states of
every step relates the states at any two times in order. -/
theorem mono {R : σ → σ → Prop} (hrefl : ∀ s, R s s)
    (htrans : ∀ s₁ s₂ s₃, R s₁ s₂ → R s₂ s₃ → R s₁ s₃) (r : M.Run)
    (hstep : ∀ t < r.length, R (r.state t) (r.state (t + 1))) {t t' : ℕ} (h : t ≤ t')
    (ht' : t' ≤ r.length) : R (r.state t) (r.state t') :=
  r.le_induction (P := fun t' => R (r.state t) (r.state t')) (hrefl _)
    (fun t' _ hlt hR => htrans _ _ _ hR (hstep t' hlt)) t' h ht'

/-- Runs that begin alike and take the same actions are in the same states. -/
theorem state_eq_of_act_eq (r r' : M.Run) (h₀ : r.state 0 = r'.state 0) {t : ℕ}
    (hact : ∀ u < t, r.act u = r'.act u) (ht : t ≤ r.length) (ht' : t ≤ r'.length) :
    r.state t = r'.state t := by
  induction t with
  | zero => exact h₀
  | succ t ih =>
    have hstate := ih (fun u hu => hact u (hu.trans (Nat.lt_succ_self t)))
      (Nat.le_of_succ_le ht) (Nat.le_of_succ_le ht')
    have hstep := r.step_state t ht
    rw [hstate, hact t (Nat.lt_succ_self t), r'.step_state t ht'] at hstep
    exact (Option.some.inj hstep).symm

/-- A run up to time `t`, and from there one step of another action. -/
def divert (r : M.Run) {t : ℕ} (ht : t ≤ r.length) {a : α} {s : σ}
    (h : M.step (r.state t) a = some s) : M.Run where
  length := t + 1
  state u := if u ≤ t then r.state u else s
  act u := if u < t then r.act u else a
  init_state := r.init_state
  step_state u hu := by
    rcases Nat.lt_succ_iff_lt_or_eq.mp hu with hu | rfl
    · rw [if_pos hu.le, if_pos hu, if_pos (Nat.succ_le_of_lt hu)]
      exact r.step_state u (hu.trans_le ht)
    · rw [if_pos le_rfl, if_neg (lt_irrefl u), if_neg (Nat.not_succ_le_self u)]
      exact h

section Divert

variable {r : M.Run} {t : ℕ} {ht : t ≤ r.length} {a : α} {s : σ}
  {h : M.step (r.state t) a = some s}

theorem act_divert : (r.divert ht h).act t = a :=
  if_neg (lt_irrefl t)

theorem act_divert_of_lt {u : ℕ} (hu : u < t) : (r.divert ht h).act u = r.act u :=
  if_pos hu

theorem state_divert : (r.divert ht h).state t = r.state t :=
  if_pos le_rfl

theorem state_divert_succ : (r.divert ht h).state (t + 1) = s :=
  if_neg (Nat.not_succ_le_self t)

end Divert

end Run

/-! ### Executing a list of actions -/

/-- Execute a list of actions; `none` as soon as one is not enabled. -/
def exec (M : Machine σ α) (s : σ) : List α → Option σ
  | [] => some s
  | a :: as => (M.step s a).bind fun s' => M.exec s' as

/-- Executing one more action at the end. -/
theorem exec_append_singleton (M : Machine σ α) (s : σ) (as : List α) (a : α) :
    M.exec s (as ++ [a]) = (M.exec s as).bind fun s' => M.step s' a := by
  induction as generalizing s with
  | nil => simp [exec]
  | cons b as ih =>
    rw [List.cons_append, exec, exec, Option.bind_assoc]
    exact congrArg _ (funext ih)

/-- What can be executed can be executed up to any point. -/
theorem isSome_exec_take {M : Machine σ α} {s : σ} {as : List α} (h : (M.exec s as).isSome)
    (t : ℕ) : (M.exec s (as.take t)).isSome := by
  induction as generalizing s t with
  | nil => simpa using h
  | cons a as ih =>
    cases t with
    | zero => rfl
    | succ t =>
      rw [exec] at h
      rw [List.take_succ_cons, exec]
      cases hs : M.step s a with
      | none => simp [hs] at h
      | some s' => exact ih (by simpa [hs] using h) t

/-- The run that executes a list of actions from an initial state. The action `a₀` only fills
the times after the end. -/
def Run.ofList (M : Machine σ α) (s₀ : σ) (h₀ : M.init s₀) (as : List α) (a₀ : α)
    (h : (M.exec s₀ as).isSome) : M.Run where
  length := as.length
  state t := (M.exec s₀ (as.take t)).getD s₀
  act t := as.getD t a₀
  init_state := h₀
  step_state t ht := by
    obtain ⟨s, hs⟩ := Option.isSome_iff_exists.mp (isSome_exec_take h t)
    obtain ⟨s', hs'⟩ := Option.isSome_iff_exists.mp (isSome_exec_take h (t + 1))
    have htake : as.take (t + 1) = as.take t ++ [as.getD t a₀] := by
      rw [List.take_add_one, List.getElem?_eq_getElem ht, List.getD_eq_getElem _ _ ht]
      rfl
    rw [hs, hs']
    rw [htake, exec_append_singleton, hs] at hs'
    exact hs'

/-! ### Reaching a state by some of the actions -/

/-- `s'` is reached from `s` by actions that satisfy `P`. -/
inductive Reaches (M : Machine σ α) (P : α → Prop) : σ → σ → Prop
  | refl {s : σ} : Reaches M P s s
  | cons {s s' s'' : σ} {a : α} (ha : P a) (h : M.step s a = some s')
      (rest : Reaches M P s' s'') : Reaches M P s s''

namespace Reaches

variable {M : Machine σ α} {P : α → Prop} {s s' s'' : σ}

theorem single {a : α} (ha : P a) (h : M.step s a = some s') : M.Reaches P s s' :=
  .cons ha h .refl

theorem trans (h : M.Reaches P s s') (h' : M.Reaches P s' s'') : M.Reaches P s s'' := by
  induction h with
  | refl => exact h'
  | cons ha hstep _ ih => exact .cons ha hstep (ih h')

theorem imp {Q : α → Prop} (h : M.Reaches P s s') (hPQ : ∀ a, P a → Q a) : M.Reaches Q s s' := by
  induction h with
  | refl => exact .refl
  | cons ha hstep _ ih => exact .cons (hPQ _ ha) hstep ih

theorem of_exec {as : List α} (hP : ∀ a ∈ as, P a) (h : M.exec s as = some s') :
    M.Reaches P s s' := by
  induction as generalizing s with
  | nil =>
    obtain rfl := Option.some.inj h
    exact .refl
  | cons a as ih =>
    obtain ⟨ha, has⟩ := List.forall_mem_cons.mp hP
    obtain ⟨s₁, hstep, hrest⟩ := Option.bind_eq_some_iff.mp h
    exact .cons ha hstep (ih has hrest)

/-- A reflexive and transitive relation that every step by such an action respects relates the two
ends. -/
theorem mono {R : σ → σ → Prop} (hrefl : ∀ s, R s s)
    (htrans : ∀ s₁ s₂ s₃, R s₁ s₂ → R s₂ s₃ → R s₁ s₃)
    (hstep : ∀ s a s', P a → M.step s a = some s' → R s s') (h : M.Reaches P s s') : R s s' := by
  induction h with
  | refl => exact hrefl _
  | cons ha hs _ ih => exact htrans _ _ _ (hstep _ _ _ ha hs) ih

end Reaches

/-- **Going on otherwise.** From any time of a run its actions can be given up for others that
reach a state, and one more taken there. -/
theorem Run.exists_continue {M : Machine σ α} {P : α → Prop} (r : M.Run) {t : ℕ} (ht : t ≤ r.length)
    {s₀ s s' : σ} {a : α} (h₀ : r.state t = s₀) (h : M.Reaches P s₀ s) (ha : P a)
    (hstep : M.step s a = some s') : ∃ r' : M.Run, ∃ n, t ≤ n ∧ r'.length = n + 1 ∧
      r'.state n = s ∧ r'.act n = a ∧ (∀ u < t, r'.act u = r.act u) ∧
      ∀ u, t ≤ u → u < r'.length → P (r'.act u) := by
  induction h generalizing r t with
  | refl =>
    subst h₀
    refine ⟨r.divert ht hstep, t, le_rfl, rfl, Run.state_divert, Run.act_divert,
      fun u hu => Run.act_divert_of_lt hu, fun u hle hlt => ?_⟩
    obtain rfl : u = t := Nat.le_antisymm (Nat.lt_succ_iff.mp hlt) hle
    rw [Run.act_divert]
    exact ha
  | @cons s₀ s₁ s b hb hfirst rest ih =>
    subst h₀
    obtain ⟨r', n, hn, hlength, hstate, hlast, hbefore, hafter⟩ :=
      ih (r.divert ht hfirst) le_rfl Run.state_divert_succ hstep
    refine ⟨r', n, Nat.le_of_succ_le hn, hlength, hstate, hlast, fun u hu => ?_,
      fun u hle hlt => ?_⟩
    · exact (hbefore u (Nat.lt_succ_of_lt hu)).trans (Run.act_divert_of_lt hu)
    · rcases hle.eq_or_lt with rfl | hgt
      · rw [hbefore t (Nat.lt_succ_self t), Run.act_divert]
        exact hb
      · exact hafter u hgt hlt

/-! ### Stuttering and projection -/

/-- The machine with an idle action that changes nothing. -/
def stuttering (M : Machine σ α) : Machine σ (Option α) where
  init := M.init
  step s
    | none => some s
    | some a => M.step s a

/-- A machine whose steps are, seen through `f`, steps of `N` or no change at all projects its
runs to stuttering runs of `N` along the same times. -/
def Run.project {M : Machine σ α} {N : Machine τ β} (f : σ → τ) (g : σ → α → Option β)
    (hinit : ∀ s, M.init s → N.init (f s))
    (hstep : ∀ s a s', M.step s a = some s' →
      N.stuttering.step (f s) (g s a) = some (f s')) (r : M.Run) : N.stuttering.Run where
  length := r.length
  state t := f (r.state t)
  act t := g (r.state t) (r.act t)
  init_state := hinit _ r.init_state
  step_state t ht := hstep _ _ _ (r.step_state t ht)

/-! ### Leaving out the idle times -/

namespace Run

variable {M : Machine σ α}

/-- The actions taken before a time, without the idle ones. -/
def acts (r : M.stuttering.Run) (t : ℕ) : List α :=
  (List.range t).filterMap r.act

theorem acts_succ (r : M.stuttering.Run) (t : ℕ) :
    r.acts (t + 1) = r.acts t ++ (r.act t).toList := by
  rw [acts, List.range_succ, List.filterMap_append, ← acts]
  cases h : r.act t <;> simp [h]

theorem acts_isPrefix (r : M.stuttering.Run) {t t' : ℕ} (h : t ≤ t') :
    r.acts t <+: r.acts t' := by
  induction t', h using Nat.le_induction with
  | base => exact List.prefix_rfl
  | succ t' _ ih =>
    rw [acts_succ]
    exact ih.trans (List.prefix_append _ _)

/-- Without its idle actions a run goes through the same states. -/
theorem exec_acts (r : M.stuttering.Run) {t : ℕ} (ht : t ≤ r.length) :
    M.exec (r.state 0) (r.acts t) = some (r.state t) := by
  induction t with
  | zero => rfl
  | succ t ih =>
    have hstep := r.step_state t ht
    rw [acts_succ]
    cases ha : r.act t with
    | none =>
      rw [ha] at hstep
      have heq : r.state t = r.state (t + 1) := Option.some.inj hstep
      rw [Option.toList_none, List.append_nil, ih (Nat.le_of_succ_le ht), heq]
    | some a =>
      rw [ha] at hstep
      rw [Option.toList_some, exec_append_singleton, ih (Nat.le_of_succ_le ht)]
      exact hstep

/-- The run without its idle times. The action `a₀` only fills the times after the end. -/
def destutter (r : M.stuttering.Run) (a₀ : α) : M.Run :=
  ofList M (r.state 0) r.init_state (r.acts r.length) a₀ (by rw [r.exec_acts le_rfl]; rfl)

/-- Where a time is once the idle times are left out. -/
def clock (r : M.stuttering.Run) (t : ℕ) : ℕ :=
  (r.acts t).length

variable {r : M.stuttering.Run} {t t' : ℕ} (a₀ : α)

theorem clock_mono (r : M.stuttering.Run) (h : t ≤ t') : r.clock t ≤ r.clock t' :=
  (r.acts_isPrefix h).length_le

theorem clock_le_length (ht : t ≤ r.length) : r.clock t ≤ (r.destutter a₀).length :=
  r.clock_mono ht

/-- **Leaving out the idle times keeps the states.** -/
theorem state_destutter (ht : t ≤ r.length) : (r.destutter a₀).state (r.clock t) = r.state t := by
  change (M.exec (r.state 0) ((r.acts r.length).take (r.clock t))).getD (r.state 0) = r.state t
  rw [clock, ← List.prefix_iff_eq_take.mp (r.acts_isPrefix ht), r.exec_acts ht, Option.getD_some]

end Run

end Machine
