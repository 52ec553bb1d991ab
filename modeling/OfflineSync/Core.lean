import OfflineSync.Lib.SortKey
import Mathlib.Algebra.Group.Nat.Defs
import Mathlib.Data.Prod.Lex

/-!
# The event-sourcing core

The domain-agnostic types of `shared/src/core.rs`, `shared/src/event_log.rs` and
`shared/src/replica.rs`: persisted events with their provenance, the canonical fold order,
and the two shapes an event travels in.

* `EventDescriptor` is a stored event. Its author fixes everything but the two server fields;
  `EventDescriptor.unstamped` forgets those two, so "the same event up to the server's
  stamps" is equality of `unstamped`.
* `orderKey` is the total order of the fold. Its last component is the event id, which makes
  it injective on lists of distinct events, and it does not look at the server fields: two
  logs with the same events, however stamped and in whatever order, are sorted alike
  (`sortEvents_eq_of_perm`, `sortEvents_map_unstamped`).

Numbers are unbounded (`ℕ` for `u64` and `usize`, `ℤ` for `i64`); nothing here wraps.
-/

namespace OfflineSync

/-- A 128-bit id. The order of the `uuid` crate compares the bytes, most significant first,
which is the order of the numbers. -/
def Uuid : Type := Fin (2 ^ 128)

instance : LinearOrder Uuid :=
  inferInstanceAs (LinearOrder (Fin (2 ^ 128)))

instance : Repr Uuid :=
  inferInstanceAs (Repr (Fin (2 ^ 128)))

instance (n : ℕ) : OfNat Uuid n :=
  ⟨⟨n % 2 ^ 128, Nat.mod_lt n (Nat.two_pow_pos 128)⟩⟩

/-- A position in the server's stream, assigned by the server when it stores an event. -/
structure ServerOffset where
  val : ℕ
deriving DecidableEq, Repr

/-- A locally produced event that is not persisted yet: it carries only when it happened. -/
structure EntityEvent (E : Type) where
  event : E
  modifiedAtMs : ℤ
deriving DecidableEq, Repr

/-- A persisted event, the unit that syncs between replicas. -/
structure EventDescriptor (E EntId : Type) where
  /-- Unique across all replicas. -/
  replicaEventId : Uuid
  /-- Tie-breaker for events sharing a timestamp, assigned by the log on local append. -/
  replicaWriteOffset : ℕ
  /-- The authoring replica's wall clock at creation. -/
  replicaTimeMs : ℤ
  /-- Which device or server produced the event. -/
  replicaId : String
  /-- Position in the server's stream; `none` on a device until synced. -/
  serverOffset : Option ServerOffset
  /-- Server wall clock when the server stored the event. -/
  serverTimeMs : Option ℤ
  entityId : EntId
  payload : E
deriving DecidableEq, Repr

/-- An event ready to be appended to a log. The optional fields are `none` for a locally
authored event and `some` for a replicated one. -/
structure AppendEvent (E EntId : Type) where
  replicaEventId : Uuid
  entityId : EntId
  payload : E
  replicaId : String
  replicaTimeMs : ℤ
  replicaWriteOffset : Option ℕ
  serverOffset : Option ServerOffset
  serverTimeMs : Option ℤ
deriving DecidableEq, Repr

/-- A page of events pulled from a log, plus the cursor to resume from. -/
structure EventsPage (E EntId : Type) where
  events : List (EventDescriptor E EntId)
  nextOffset : Option ServerOffset
deriving DecidableEq, Repr

/-- Replica identity: the storage asks it for the id at store time. -/
structure ReplicaIdProvider where
  replicaId : String
deriving DecidableEq, Repr

/-- `ReplicaIdProvider::get`. -/
def ReplicaIdProvider.get (p : ReplicaIdProvider) : String :=
  p.replicaId

variable {E EntId : Type}

/-- `AppendEvent::from`: turn a stored event back into an appendable one, used when shipping
events during sync. The write offset is `some`, so the receiving log preserves it. -/
def AppendEvent.ofDescriptor (d : EventDescriptor E EntId) : AppendEvent E EntId where
  replicaEventId := d.replicaEventId
  entityId := d.entityId
  payload := d.payload
  replicaId := d.replicaId
  replicaTimeMs := d.replicaTimeMs
  replicaWriteOffset := some d.replicaWriteOffset
  serverOffset := d.serverOffset
  serverTimeMs := d.serverTimeMs

@[simp] theorem AppendEvent.ofDescriptor_replicaEventId (d : EventDescriptor E EntId) :
    (AppendEvent.ofDescriptor d).replicaEventId = d.replicaEventId := rfl

/-! ### The canonical order -/

/-- The total order used to fold events on every replica: time, write offset, event id. -/
def orderKey (d : EventDescriptor E EntId) : ℤ ×ₗ ℕ ×ₗ Uuid :=
  toLex (d.replicaTimeMs, toLex (d.replicaWriteOffset, d.replicaEventId))

/-- Sort a batch of events into the canonical fold order. -/
def sortEvents (events : List (EventDescriptor E EntId)) : List (EventDescriptor E EntId) :=
  sortByKey orderKey events

/-- The key order, component by component. -/
theorem orderKey_lt_iff {d d' : EventDescriptor E EntId} :
    orderKey d < orderKey d' ↔ d.replicaTimeMs < d'.replicaTimeMs ∨
      d.replicaTimeMs = d'.replicaTimeMs ∧ (d.replicaWriteOffset < d'.replicaWriteOffset ∨
        d.replicaWriteOffset = d'.replicaWriteOffset ∧ d.replicaEventId < d'.replicaEventId) := by
  simp only [orderKey, Prod.Lex.toLex_lt_toLex]

/-- Events with one key have one id. -/
theorem replicaEventId_eq_of_orderKey_eq {d d' : EventDescriptor E EntId}
    (h : orderKey d = orderKey d') : d.replicaEventId = d'.replicaEventId :=
  congrArg (fun k => (ofLex (ofLex k).2).2) h

/-! ### Events up to the server's stamps -/

/-- What the author of an event fixed: the event without the server's stamps. -/
def EventDescriptor.unstamped (d : EventDescriptor E EntId) : EventDescriptor E EntId :=
  { d with serverOffset := none, serverTimeMs := none }

namespace EventDescriptor

@[simp] theorem unstamped_replicaEventId (d : EventDescriptor E EntId) :
    d.unstamped.replicaEventId = d.replicaEventId := rfl

@[simp] theorem unstamped_entityId (d : EventDescriptor E EntId) :
    d.unstamped.entityId = d.entityId := rfl

@[simp] theorem unstamped_payload (d : EventDescriptor E EntId) :
    d.unstamped.payload = d.payload := rfl

@[simp] theorem unstamped_replicaTimeMs (d : EventDescriptor E EntId) :
    d.unstamped.replicaTimeMs = d.replicaTimeMs := rfl

@[simp] theorem unstamped_replicaId (d : EventDescriptor E EntId) :
    d.unstamped.replicaId = d.replicaId := rfl

@[simp] theorem unstamped_serverOffset (d : EventDescriptor E EntId) :
    d.unstamped.serverOffset = none := rfl

@[simp] theorem unstamped_unstamped (d : EventDescriptor E EntId) :
    d.unstamped.unstamped = d.unstamped := rfl

@[simp] theorem orderKey_unstamped (d : EventDescriptor E EntId) :
    orderKey d.unstamped = orderKey d := rfl

end EventDescriptor

/-- The ids of a list of events, in its order. -/
def eventIds (events : List (EventDescriptor E EntId)) : List Uuid :=
  events.map EventDescriptor.replicaEventId

@[simp] theorem eventIds_nil : eventIds ([] : List (EventDescriptor E EntId)) = [] := rfl

@[simp] theorem eventIds_cons (d : EventDescriptor E EntId) (l : List (EventDescriptor E EntId)) :
    eventIds (d :: l) = d.replicaEventId :: eventIds l := rfl

@[simp] theorem eventIds_append (l m : List (EventDescriptor E EntId)) :
    eventIds (l ++ m) = eventIds l ++ eventIds m :=
  List.map_append

@[simp] theorem eventIds_map_unstamped (l : List (EventDescriptor E EntId)) :
    eventIds (l.map EventDescriptor.unstamped) = eventIds l := by
  simp [eventIds, Function.comp_def]

theorem mem_eventIds_of_mem {l : List (EventDescriptor E EntId)} {d : EventDescriptor E EntId}
    (h : d ∈ l) : d.replicaEventId ∈ eventIds l :=
  List.mem_map_of_mem h

/-- Where ids are distinct, an event is determined by its id. -/
theorem eq_of_replicaEventId_eq {l : List (EventDescriptor E EntId)} (hl : (eventIds l).Nodup)
    {d d' : EventDescriptor E EntId} (hd : d ∈ l) (hd' : d' ∈ l)
    (h : d.replicaEventId = d'.replicaEventId) : d = d' :=
  List.inj_on_of_nodup_map hl hd hd' h

/-- Distinct ids make the order of the input irrelevant. -/
theorem sortEvents_eq_of_perm {l l' : List (EventDescriptor E EntId)} (hp : l.Perm l')
    (hl : (eventIds l).Nodup) : sortEvents l = sortEvents l' :=
  sortByKey_eq_of_perm hp fun _ ha _ hb h =>
    eq_of_replicaEventId_eq hl ha hb (replicaEventId_eq_of_orderKey_eq h)

/-- Sorting does not look at the server's stamps. -/
theorem sortEvents_map_unstamped (l : List (EventDescriptor E EntId)) :
    sortEvents (l.map EventDescriptor.unstamped) = (sortEvents l).map EventDescriptor.unstamped :=
  sortByKey_map EventDescriptor.orderKey_unstamped l

end OfflineSync
