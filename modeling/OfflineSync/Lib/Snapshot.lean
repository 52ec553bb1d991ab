import Mathlib.Logic.Function.Basic
import Mathlib.Order.Nat

/-!
# Tables refreshed from snapshots

A table holds, for each key, a value computed from some state of a growing log: `view l k`.
A refresh is not atomic. It *loads* the view of one key from the log as it is at that moment,
and *writes* what it loaded later, while the log moves on; only one refresh is between its
load and its write at any time.

For such a table every value is the view of *some* earlier state of the log. `version s t k`
names that state: the time at which the value that row `k` has at time `t` was loaded. The
three facts used of it are that it names the row (`row_eq_view`), that it never moves
backwards (`version_mono`), and that a refresh that is carried through moves it past its own
load (`Refresh.le_version`). A row is then current as soon as some completed refresh began
after the last change of the log that concerns it.
-/

universe u v w

variable {L : Type u} {K : Type v} {V : Type w}

namespace Snapshot

/-- The log, the table, and the value a refresh has loaded and not yet written. -/
structure State (L : Type u) (K : Type v) (V : Type w) where
  /-- The log the values are computed from. -/
  log : L
  /-- The table. -/
  row : K → V
  /-- The key under refresh, with the value loaded for it. -/
  loaded : Option (K × V)

/-- What a moment may do to the table: nothing (while the log changes in any way), load a
value, write the loaded value, or drop it. -/
inductive Step (view : L → K → V) (s s' : State L K V) : Prop
  | other (row : s'.row = s.row) (loaded : s'.loaded = s.loaded)
  | load (k : K) (idle : s.loaded = none) (row : s'.row = s.row)
      (loaded : s'.loaded = some (k, view s.log k))
  | write (k : K) (v : V) (loaded : s.loaded = some (k, v)) (idle : s'.loaded = none)
      (row : s'.row k = v) (frame : ∀ k', k' ≠ k → s'.row k' = s.row k')
  | drop (row : s'.row = s.row) (idle : s'.loaded = none)

/-- A history of a table: it starts out as the view of the log, with no refresh under way,
and moves by `Step` up to time `n`. -/
structure History (view : L → K → V) (n : ℕ) (s : ℕ → State L K V) : Prop where
  row_zero : ∀ k, (s 0).row k = view (s 0).log k
  loaded_zero : (s 0).loaded = none
  step : ∀ t < n, Step view (s t) (s (t + 1))

open Classical in
/-- The time of the last load before `t`. -/
noncomputable def loadTime (s : ℕ → State L K V) : ℕ → ℕ
  | 0 => 0
  | t + 1 => if (s t).loaded = none ∧ (s (t + 1)).loaded ≠ none then t else loadTime s t

/-- At time `t` the value loaded for `k` is written. -/
def Writes (s : ℕ → State L K V) (t : ℕ) (k : K) : Prop :=
  (s t).loaded = some (k, (s (t + 1)).row k) ∧ (s (t + 1)).loaded = none

open Classical in
/-- The time at which the value that row `k` has at time `t` was loaded. -/
noncomputable def version (s : ℕ → State L K V) : ℕ → K → ℕ
  | 0, _ => 0
  | t + 1, k => if Writes s t k then loadTime s t else version s t k

variable {view : L → K → V} {n : ℕ} {s : ℕ → State L K V}

theorem loadTime_le (s : ℕ → State L K V) (t : ℕ) : loadTime s t ≤ t := by
  induction t with
  | zero => exact le_rfl
  | succ t ih =>
    rw [loadTime]
    split_ifs
    · exact Nat.le_succ t
    · exact Nat.le_succ_of_le ih

theorem loadTime_mono (s : ℕ → State L K V) {t t' : ℕ} (h : t ≤ t') :
    loadTime s t ≤ loadTime s t' := by
  induction t', h using Nat.le_induction with
  | base => exact le_rfl
  | succ t' _ ih =>
    rw [loadTime]
    split_ifs
    · exact ih.trans (loadTime_le s t')
    · exact ih

theorem loadTime_succ_of_load {t : ℕ} (h₀ : (s t).loaded = none)
    (h₁ : (s (t + 1)).loaded ≠ none) : loadTime s (t + 1) = t :=
  if_pos ⟨h₀, h₁⟩

theorem loadTime_succ_of_some {t : ℕ} (h₀ : (s t).loaded ≠ none) :
    loadTime s (t + 1) = loadTime s t :=
  if_neg fun h => h₀ h.1

theorem version_succ_of_write {t : ℕ} {k : K} (h : Writes s t k) :
    version s (t + 1) k = loadTime s t :=
  if_pos h

theorem version_succ_of_not_write {t : ℕ} {k : K} (h : ¬ Writes s t k) :
    version s (t + 1) k = version s t k :=
  if_neg h

theorem version_le_loadTime (s : ℕ → State L K V) (t : ℕ) (k : K) :
    version s t k ≤ loadTime s t := by
  induction t with
  | zero => exact le_rfl
  | succ t ih =>
    have hmono := loadTime_mono s (Nat.le_succ t)
    by_cases h : Writes s t k
    · rw [version_succ_of_write h]
      exact hmono
    · rw [version_succ_of_not_write h]
      exact ih.trans hmono

theorem version_le (s : ℕ → State L K V) (t : ℕ) (k : K) : version s t k ≤ t :=
  (version_le_loadTime s t k).trans (loadTime_le s t)

/-- **Versions never move backwards.** -/
theorem version_mono (s : ℕ → State L K V) (k : K) {t t' : ℕ} (h : t ≤ t') :
    version s t k ≤ version s t' k := by
  induction t', h using Nat.le_induction with
  | base => exact le_rfl
  | succ t' _ ih =>
    by_cases hw : Writes s t' k
    · rw [version_succ_of_write hw]
      exact ih.trans (version_le_loadTime s t' k)
    · rw [version_succ_of_not_write hw]
      exact ih

/-- A loaded value is the view of the log at the time of the load. -/
theorem History.loaded_eq_view (h : History view n s) {t : ℕ} (ht : t ≤ n) {k : K} {v : V}
    (hl : (s t).loaded = some (k, v)) : v = view (s (loadTime s t)).log k := by
  induction t generalizing k v with
  | zero => rw [h.loaded_zero] at hl; cases hl
  | succ t ih =>
    have hle : t ≤ n := Nat.le_of_succ_le ht
    cases h.step t ht with
    | other _ hloaded =>
      rw [hloaded] at hl
      rw [loadTime_succ_of_some (by rw [hl]; exact Option.some_ne_none _)]
      exact ih hle hl
    | load k' hidle _ hloaded =>
      rw [loadTime_succ_of_load hidle (by rw [hloaded]; exact Option.some_ne_none _)]
      rw [hloaded] at hl
      cases hl
      rfl
    | write _ _ _ hidle => rw [hidle] at hl; cases hl
    | drop _ hidle => rw [hidle] at hl; cases hl

/-- **Every row is the view of the log at its version.** -/
theorem History.row_eq_view (h : History view n s) {t : ℕ} (ht : t ≤ n) (k : K) :
    (s t).row k = view (s (version s t k)).log k := by
  induction t with
  | zero => exact h.row_zero k
  | succ t ih =>
    have hle : t ≤ n := Nat.le_of_succ_le ht
    by_cases hw : Writes s t k
    · rw [version_succ_of_write hw]
      exact h.loaded_eq_view hle hw.1
    · rw [version_succ_of_not_write hw, ← ih hle]
      cases h.step t ht with
      | other hrow => rw [hrow]
      | load _ _ hrow => rw [hrow]
      | write k' v hloaded hidle hrow hframe =>
        have hne : k ≠ k' := by
          rintro rfl
          exact hw ⟨by rw [hrow]; exact hloaded, hidle⟩
        exact hframe k hne
      | drop hrow => rw [hrow]

/-- A refresh of `k` carried through: it loads after time `ρ` and writes after time `ω`. -/
structure Refresh (s : ℕ → State L K V) (ρ ω : ℕ) (k : K) : Prop where
  idle : (s ρ).loaded = none
  load : (s (ρ + 1)).loaded ≠ none
  lt : ρ < ω
  write : Writes s ω k

/-- **A refresh carried through moves the version past its load.** -/
theorem Refresh.le_version {ρ ω : ℕ} {k : K} (h : Refresh s ρ ω k) {t : ℕ} (ht : ω < t) :
    ρ ≤ version s t k := by
  calc ρ = loadTime s (ρ + 1) := (loadTime_succ_of_load h.idle h.load).symm
    _ ≤ loadTime s ω := loadTime_mono s h.lt
    _ = version s (ω + 1) k := (version_succ_of_write h.write).symm
    _ ≤ version s t k := version_mono s k ht

end Snapshot
