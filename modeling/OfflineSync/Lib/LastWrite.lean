import Mathlib.Order.Defs.LinearOrder
import Mathlib.Data.List.Basic

/-!
# Registers with a last writer

A register is overwritten by some elements of a list and left alone by the others: `f a` is what
`a` writes, `none` when it writes nothing. Folding the list in order leaves the last of the
writes (`lastWrite`). In a list sorted by a key that write is the one with the greatest key
(`isLastWrite_lastWrite`), which says what the fold computes without mentioning an order of
evaluation.
-/

universe u v w

variable {α : Type u} {β : Type v} {κ : Type w}

/-- The register after the writes of a list, in order. -/
def lastWrite (f : α → Option β) (b : β) : List α → β
  | [] => b
  | a :: l => lastWrite f ((f a).getD b) l

@[simp] theorem lastWrite_nil (f : α → Option β) (b : β) : lastWrite f b [] = b := rfl

@[simp] theorem lastWrite_cons (f : α → Option β) (b : β) (a : α) (l : List α) :
    lastWrite f b (a :: l) = lastWrite f ((f a).getD b) l := rfl

/-- The register holds what some element wrote, or nothing wrote. -/
theorem lastWrite_cases (f : α → Option β) (b : β) (l : List α) :
    (∃ a ∈ l, f a = some (lastWrite f b l)) ∨ (∀ a ∈ l, f a = none) ∧ lastWrite f b l = b := by
  induction l generalizing b with
  | nil => exact .inr ⟨fun _ ha => absurd ha List.not_mem_nil, rfl⟩
  | cons a l ih =>
    rw [lastWrite_cons]
    rcases ih ((f a).getD b) with ⟨w, hw, hfw⟩ | ⟨hnone, hv⟩
    · exact .inl ⟨w, List.mem_cons_of_mem a hw, hfw⟩
    · rw [hv]
      cases hfa : f a with
      | none => exact .inr ⟨List.forall_mem_cons.mpr ⟨hfa, hnone⟩, rfl⟩
      | some v => exact .inl ⟨a, List.mem_cons_self, hfa⟩

/-- The value `v` is written by the element of `l` with the greatest key among those that write,
or nothing in `l` writes and `v` is the initial value `b`. -/
def IsLastWrite [LT κ] (key : α → κ) (f : α → Option β) (b : β) (l : List α) (v : β) : Prop :=
  (∃ a ∈ l, f a = some v ∧ ∀ a' ∈ l, f a' ≠ none → a' = a ∨ key a' < key a) ∨
    (∀ a ∈ l, f a = none) ∧ v = b

/-- **The fold of a sorted list leaves the write with the greatest key.** -/
theorem isLastWrite_lastWrite [Preorder κ] {key : α → κ} {l : List α}
    (hl : l.Pairwise fun a b => key a < key b) (f : α → Option β) (b : β) :
    IsLastWrite key f b l (lastWrite f b l) := by
  induction l generalizing b with
  | nil => exact .inr ⟨fun _ ha => absurd ha List.not_mem_nil, rfl⟩
  | cons a l ih =>
    obtain ⟨hal, hl⟩ := List.pairwise_cons.mp hl
    rw [lastWrite_cons]
    rcases ih hl ((f a).getD b) with ⟨w, hw, hfw, hlast⟩ | ⟨hnone, hv⟩
    · -- a write of the tail: its key is above that of the head
      refine .inl ⟨w, List.mem_cons_of_mem _ hw, hfw, fun a' ha' hf => ?_⟩
      rcases List.mem_cons.mp ha' with rfl | ha'
      · exact .inr (hal w hw)
      · exact hlast a' ha' hf
    · rw [hv]
      cases hfa : f a with
      | none =>
        refine .inr ⟨fun a' ha' => ?_, rfl⟩
        rcases List.mem_cons.mp ha' with rfl | ha'
        · exact hfa
        · exact hnone a' ha'
      | some v =>
        refine .inl ⟨a, List.mem_cons_self, hfa, fun a' ha' hf => ?_⟩
        rcases List.mem_cons.mp ha' with rfl | ha'
        · exact .inl rfl
        · exact absurd (hnone a' ha') hf
