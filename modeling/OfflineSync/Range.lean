import OfflineSync.Item
import Mathlib.Algebra.Group.Int.Defs

/-!
# Values in range

The types of Rust bound their numbers and those here do not. A value that is `InRange` is one that
its type in the source can hold.
-/

namespace OfflineSync

/-- A value of `i64`. -/
def InI64 (n : ℤ) : Prop :=
  -2 ^ 63 ≤ n ∧ n < 2 ^ 63

/-- A value of `u64`. -/
def InU64 (n : ℕ) : Prop :=
  n < 2 ^ 64

def ItemEvent.InRange : ItemEvent → Prop
  | .created _ quantity | .quantityChanged quantity => InI64 quantity
  | _ => True

structure EventDescriptor.InRange (d : ItemDescriptor) : Prop where
  writeOffset : InU64 d.replicaWriteOffset
  time : InI64 d.replicaTimeMs
  serverOffset : ∀ o ∈ d.serverOffset, InU64 o.val
  serverTime : ∀ t ∈ d.serverTimeMs, InI64 t
  payload : d.payload.InRange

instance (n : ℤ) : Decidable (InI64 n) :=
  inferInstanceAs (Decidable (_ ∧ _))

instance (n : ℕ) : Decidable (InU64 n) :=
  inferInstanceAs (Decidable (n < 2 ^ 64))

instance (event : ItemEvent) : Decidable event.InRange :=
  match event with
  | .created _ quantity | .quantityChanged quantity => inferInstanceAs (Decidable (InI64 quantity))
  | .renamed _ | .noteChanged _ | .deleted => inferInstanceAs (Decidable True)

instance (d : ItemDescriptor) : Decidable d.InRange :=
  decidable_of_iff (InU64 d.replicaWriteOffset ∧ InI64 d.replicaTimeMs ∧
      (∀ o ∈ d.serverOffset, InU64 o.val) ∧ (∀ t ∈ d.serverTimeMs, InI64 t) ∧ d.payload.InRange)
    ⟨fun ⟨h₁, h₂, h₃, h₄, h₅⟩ => ⟨h₁, h₂, h₃, h₄, h₅⟩, fun ⟨h₁, h₂, h₃, h₄, h₅⟩ =>
      ⟨h₁, h₂, h₃, h₄, h₅⟩⟩

structure AppendEvent.InRange (ev : ItemAppend) : Prop where
  payload : ev.payload.InRange
  time : InI64 ev.replicaTimeMs
  writeOffset : ∀ o ∈ ev.replicaWriteOffset, InU64 o
  serverOffset : ∀ o ∈ ev.serverOffset, InU64 o.val
  serverTime : ∀ t ∈ ev.serverTimeMs, InI64 t

instance (ev : ItemAppend) : Decidable ev.InRange :=
  decidable_of_iff (ev.payload.InRange ∧ InI64 ev.replicaTimeMs ∧
      (∀ o ∈ ev.replicaWriteOffset, InU64 o) ∧ (∀ o ∈ ev.serverOffset, InU64 o.val) ∧
      ∀ t ∈ ev.serverTimeMs, InI64 t)
    ⟨fun ⟨h₁, h₂, h₃, h₄, h₅⟩ => ⟨h₁, h₂, h₃, h₄, h₅⟩, fun ⟨h₁, h₂, h₃, h₄, h₅⟩ =>
      ⟨h₁, h₂, h₃, h₄, h₅⟩⟩

structure EventsPage.InRange (page : EventsPage ItemEvent ItemId) : Prop where
  events : ∀ d ∈ page.events, d.InRange
  nextOffset : ∀ o ∈ page.nextOffset, InU64 o.val

end OfflineSync
