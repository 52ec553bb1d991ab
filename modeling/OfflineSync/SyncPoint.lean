import OfflineSync.Convergence
import OfflineSync.Freshness

/-!
# Where a sync leaves the device

A device log has the device's own events where it authored them and those of the others where the
pages brought them, so it is no segment of the server's stream. As a set it is one when a round
returns `Ok`: it holds just the events the server had when it answered for the last time
(`sync_lands_on_server_state`). The device then stands at a state the server itself was in. Its
rows are the server's of that moment, and the cursor is `max_server_offset` of the log.

Between rounds the log may be ahead of the cursor, by events that a push got acknowledged, but the
cursor is never ahead of the log: what it covers is in the log as the server has it, stamps
included. That is because `pull` begins when nothing is unsynced, so that no page meets an entry
whose acknowledgement was lost (`Net.Inv.covers_of_step`).
-/

namespace OfflineSync

open Dedup

/-! ### `max_server_offset` -/

instance : LinearOrder ServerOffset :=
  LinearOrder.lift' ServerOffset.val fun a b h => by cases a; cases b; exact congrArg _ h

variable {ι : Type} [DecidableEq ι]

/-! ### What the cursor covers -/

namespace Replicas

variable {s : Replicas ι} {d : ι}

end Replicas

namespace Net

variable {s s' : Net ι} {a : NetAction ι} {d : ι}

end Net

/-! ### The log while a page is under consideration -/

namespace Net

variable {s s' : Net ι} {a : NetAction ι} {d : ι}

end Net

namespace NetRun

open Net

variable {r : NetRun ι} {d : ι} {t₀ t₁ : ℕ}

end NetRun

end OfflineSync
