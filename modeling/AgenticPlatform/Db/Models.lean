import AgenticPlatform.Foundation.Table
import AgenticPlatform.Identity.Principal
import AgenticPlatform.Settings

/-!
# The `run` and `outbox` tables

Columns under the names of the schema. A nullable column is an `Option`; a
timestamp is a point in time in seconds. Row-level security is a filter on
`tenantId`: a tenant session neither reads nor writes another tenant's rows, and
the relay role sees every row.
-/
namespace AgenticPlatform.Db
open AgenticPlatform.Foundation AgenticPlatform.Identity

inductive RunStatus where
  | pending | leased | succeeded | failed | cancelled
deriving DecidableEq

/-- The statuses a run never leaves. -/
def RunStatus.terminal : RunStatus → Bool
  | .succeeded | .failed | .cancelled => true
  | .pending | .leased => false

structure RunRow where
  id : Uuid
  tenantId : Uuid
  workload : String
  status : RunStatus
  idempotencyKey : Option String
  requestedBy : Option Uuid
  input : Json
  result : Option Json
  error : Option String
  leasedBy : Option String
  leaseExpiresAt : Option Time
  lastHeartbeatAt : Option Time
  attempt : Nat
  maxAttempts : Nat
  availableAt : Time
  lastEnqueuedAt : Option Time
  cancelRequestedAt : Option Time
  cancelRequestedBy : Option Uuid
  priority : Int
  release : String
  correlationId : Uuid
  createdAt : Time
  startedAt : Option Time
  finishedAt : Option Time
deriving DecidableEq

abbrev RunTable := Table RunRow RunRow.id

structure OutboxRow where
  id : Nat
  tenantId : Uuid
  runId : Uuid
  workload : String
  payload : Json
  traceContext : Json
  createdAt : Time
  publishedAt : Option Time
  publishAttempts : Nat
  lastError : Option String
deriving DecidableEq

abbrev OutboxTable := Table OutboxRow OutboxRow.id

/-- The rows a session of this tenant can touch. -/
def visible (tenant : Tenant) (r : RunRow) : Prop := r.tenantId = tenant.id

instance (tenant : Tenant) (r : RunRow) : Decidable (visible tenant r) :=
  inferInstanceAs (Decidable (_ = _))

/-- The first `n` characters, as a slice takes them. -/
def clip (n : Nat) (text : String) : String := String.ofList (text.toList.take n)

end AgenticPlatform.Db
