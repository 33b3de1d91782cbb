import AgenticPlatform.Db.Models
import Mathlib.Data.List.Sort

/-!
# Leases: the statements

Each operation is one UPDATE on the `run` table, so each is a function from the
table and the statement's `now()` to the table and what the call returns. The
WHERE clauses and the SET lists are spelled as row predicates and row functions;
a CASE expression is an `if`. The random draw of the jitter and the rows other
sessions hold locked are arguments.
-/
namespace AgenticPlatform.Correctness
open AgenticPlatform.Foundation AgenticPlatform.Identity AgenticPlatform.Db

def defaultLease : Time := 60

/-- Bounded exponential backoff with jitter, never below provider guidance. Exact, where the
code rounds the duration to a microsecond. -/
def retryDelay (c : RetrySettings) (attempt : Nat) (retryAfter : Option Time) (u : Draw) : Time :=
  let exponential := min c.runRetryMaxSeconds (c.runRetryBaseSeconds * 2 ^ (attempt - 1))
  let floor := retryAfter.getD 0
  let base := max exponential floor
  let jitter := base * c.runRetryJitterRatio * u.val
  min c.runRetryMaxSeconds (base + jitter)

/-- What an acquisition hands its worker. -/
structure LeasedRun where
  runId : Uuid
  tenant : Tenant
  workload : String
  input : Json
  attempt : Nat
  maxAttempts : Nat
  leasedBy : String
  leaseExpiresAt : Time
deriving DecidableEq

/-! ## Acquisition -/

/-- The WHERE clause both acquisitions share. -/
def leasable (now : Time) (r : RunRow) : Prop :=
  r.status = .pending ∧ r.attempt < r.maxAttempts ∧ r.availableAt ≤ now ∧ r.cancelRequestedAt = none

instance (now : Time) (r : RunRow) : Decidable (leasable now r) :=
  inferInstanceAs (Decidable (_ ∧ _))

/-- The SET list both acquisitions share. -/
def leaseRow (now lease : Time) (worker : String) (r : RunRow) : RunRow :=
  { r with
    status := .leased
    leasedBy := some worker
    leaseExpiresAt := some (now + lease)
    lastHeartbeatAt := some now
    startedAt := some (r.startedAt.getD now)
    attempt := r.attempt + 1 }

/-- The `LeasedRun` built from the RETURNING list. -/
def leasedRun (tenant : Tenant) (now lease : Time) (worker : String) (r : RunRow) : LeasedRun where
  runId := r.id
  tenant := tenant
  workload := r.workload
  input := r.input
  attempt := r.attempt
  maxAttempts := r.maxAttempts
  leasedBy := worker
  leaseExpiresAt := now + lease

/-- ORDER BY priority DESC, available_at, created_at. -/
def servedBefore (a b : RunRow) : Prop :=
  b.priority < a.priority ∨
    (a.priority = b.priority ∧
      (a.availableAt < b.availableAt ∨
        (a.availableAt = b.availableAt ∧ a.createdAt ≤ b.createdAt)))

instance : DecidableRel servedBefore := fun _ _ => inferInstanceAs (Decidable (_ ∨ _))

/-- The rows the `next_run` query may pick: leasable, of the workload asked for,
and not locked by another session (SKIP LOCKED). -/
def nextRunCandidates (run : RunTable) (now : Time) (tenant : Tenant) (workload : Option String)
    (locked : List Uuid) : List RunRow :=
  run.rows.filter (fun r => visible tenant r ∧ leasable now r ∧
    (workload = none ∨ workload = some r.workload) ∧ r.id ∉ locked)

def nextRun (run : RunTable) (now : Time) (tenant : Tenant) (workload : Option String)
    (locked : List Uuid) : Option RunRow :=
  ((nextRunCandidates run now tenant workload locked).insertionSort servedBefore).head?

/-- Lease the next pending run for a tenant. `none` when there is nothing. -/
def acquire (run : RunTable) (now : Time) (tenant : Tenant) (worker : String)
    (workload : Option String) (lease : Time) (locked : List Uuid) : RunTable × Option LeasedRun :=
  let next := nextRun run now tenant workload locked
  (run.updateWhere (fun r => next.map RunRow.id = some r.id)
    (leaseRow now lease worker) (fun _ => rfl),
    next.map (fun r => leasedRun tenant now lease worker (leaseRow now lease worker r)))

/-- Lease one named run. `none` when it is not available. -/
def acquireSpecific (run : RunTable) (now : Time) (tenant : Tenant) (runId : Uuid) (worker : String)
    (lease : Time) : RunTable × Option LeasedRun :=
  let (run', row) := run.updateKey runId (fun r => visible tenant r ∧ leasable now r)
    (leaseRow now lease worker) (fun _ => rfl)
  (run', row.map (leasedRun tenant now lease worker))

/-! ## The holder's calls -/

/-- The fence: the row is still leased by the worker the lease was given to. -/
def fenced (l : LeasedRun) (r : RunRow) : Prop :=
  visible l.tenant r ∧ r.status = .leased ∧ r.leasedBy = some l.leasedBy

instance (l : LeasedRun) (r : RunRow) : Decidable (fenced l r) :=
  inferInstanceAs (Decidable (_ ∧ _))

/-- The shape of all four: one UPDATE fenced on the holder, true when a row matched. -/
def fencedUpdate (run : RunTable) (l : LeasedRun) (p : RunRow → Prop) [DecidablePred p]
    (set : RunRow → RunRow) (hset : ∀ r, (set r).id = r.id) : RunTable × Bool :=
  let (run', row) := run.updateKey l.runId (fun r => fenced l r ∧ p r) set hset
  (run', row.isSome)

def heartbeatRow (now extend : Time) (r : RunRow) : RunRow :=
  { r with leaseExpiresAt := some (now + extend), lastHeartbeatAt := some now }

/-- Extend the lease. False means it was lost. -/
def heartbeat (run : RunTable) (now : Time) (l : LeasedRun) (extend : Time) : RunTable × Bool :=
  fencedUpdate run l (fun r => r.cancelRequestedAt = none) (heartbeatRow now extend) (fun _ => rfl)

def completeRow (now : Time) (result : Option Json) (r : RunRow) : RunRow :=
  { r with
    status := .succeeded
    finishedAt := some now
    result := some (result.getD .emptyObj)
    leasedBy := none
    leaseExpiresAt := none }

/-- Mark succeeded. Fenced on the lease holder. -/
def complete (run : RunTable) (now : Time) (l : LeasedRun) (result : Option Json) :
    RunTable × Bool :=
  fencedUpdate run l (fun r => r.cancelRequestedAt = none) (completeRow now result) (fun _ => rfl)

/-- Whether `fail` ends the run, decided from the worker's own copy of the lease. -/
def failTerminal (l : LeasedRun) (retryable : Bool) : Bool :=
  !retryable || decide (l.maxAttempts ≤ l.attempt)

def failDelay (c : RetrySettings) (l : LeasedRun) (retryable : Bool) (retryAfter : Option Time)
    (u : Draw) : Time :=
  if failTerminal l retryable then 0 else retryDelay c l.attempt retryAfter u

def failRow (now : Time) (error : String) (terminal : Bool) (delay : Time) (r : RunRow) : RunRow :=
  { r with
    status := if r.cancelRequestedAt ≠ none then .cancelled
      else if terminal then .failed else .pending
    error := some (clip 4000 error)
    finishedAt := if terminal ∨ r.cancelRequestedAt ≠ none then some now else none
    availableAt := if terminal ∨ r.cancelRequestedAt ≠ none then r.availableAt else now + delay
    leasedBy := none
    leaseExpiresAt := none }

/-- Release the run as failed, or return it for another attempt. -/
def fail (c : RetrySettings) (run : RunTable) (now : Time) (l : LeasedRun) (error : String)
    (retryable : Bool) (retryAfter : Option Time) (u : Draw) : RunTable × Bool :=
  fencedUpdate run l (fun _ => True)
    (failRow now error (failTerminal l retryable) (failDelay c l retryable retryAfter u))
    (fun _ => rfl)

def cancelledRow (now : Time) (r : RunRow) : RunRow :=
  { r with status := .cancelled, finishedAt := some now, leasedBy := none, leaseExpiresAt := none }

/-- Fence the terminal cancellation write to the current lease holder. -/
def acknowledgeCancellation (run : RunTable) (now : Time) (l : LeasedRun) : RunTable × Bool :=
  fencedUpdate run l (fun r => r.cancelRequestedAt ≠ none) (cancelledRow now) (fun _ => rfl)

/-! ## The reaper -/

/-- `lease_expires_at < now() - grace` on a leased row; a NULL deadline never compares. -/
def leaseExpired (now grace : Time) (r : RunRow) : Prop :=
  r.status = .leased ∧ ∃ d ∈ r.leaseExpiresAt, d < now - grace

instance (now grace : Time) (r : RunRow) : Decidable (leaseExpired now grace r) :=
  inferInstanceAs (Decidable (_ ∧ _))

/-- The reaper's own back-off expression. -/
def reapDelay (c : RetrySettings) (attempt : Nat) (u : Draw) : Time :=
  min c.runRetryMaxSeconds
    (c.runRetryBaseSeconds * 2 ^ (attempt - 1) * (1 + c.runRetryJitterRatio * u.val))

def exhaustedError : String := "lease expired and max attempts reached"

def reapRow (c : RetrySettings) (now : Time) (draw : Uuid → Draw) (r : RunRow) : RunRow :=
  { r with
    status := if r.cancelRequestedAt ≠ none then .cancelled
      else if r.maxAttempts ≤ r.attempt then .failed else .pending
    error := if r.cancelRequestedAt ≠ none then r.error
      else if r.maxAttempts ≤ r.attempt then some exhaustedError else r.error
    finishedAt := if r.cancelRequestedAt ≠ none ∨ r.maxAttempts ≤ r.attempt then some now else none
    availableAt := if r.cancelRequestedAt ≠ none ∨ r.maxAttempts ≤ r.attempt then r.availableAt
      else now + reapDelay c r.attempt (draw r.id)
    leasedBy := none
    leaseExpiresAt := none }

/-- One line of what the reaper reports. -/
structure Reaped where
  runId : Uuid
  tenantId : Uuid
  workload : String
  attempt : Nat
  outcome : RunStatus
deriving DecidableEq

def reapedOf (r : RunRow) : Reaped := ⟨r.id, r.tenantId, r.workload, r.attempt, r.status⟩

/-- Return expired leases to pending. Cross-tenant; relay credential only. -/
def reapExpired (c : RetrySettings) (run : RunTable) (now grace : Time) (draw : Uuid → Draw) :
    RunTable × List Reaped :=
  (run.updateWhere (leaseExpired now grace) (reapRow c now draw) (fun _ => rfl),
    (run.rows.filter (leaseExpired now grace)).map (fun r => reapedOf (reapRow c now draw r)))

/-! ## The cancellation request -/

def cancelRow (now : Time) (by_ : Uuid) (r : RunRow) : RunRow :=
  { r with
    cancelRequestedAt := some (r.cancelRequestedAt.getD now)
    cancelRequestedBy := some (r.cancelRequestedBy.getD by_)
    status := if r.status = .pending then .cancelled else r.status
    finishedAt := if r.status = .pending then some now else r.finishedAt }

/-- `status IN ('pending','leased','cancelled')`. -/
def cancellable (r : RunRow) : Prop :=
  r.status = .pending ∨ r.status = .leased ∨ r.status = .cancelled

instance (r : RunRow) : Decidable (cancellable r) := inferInstanceAs (Decidable (_ ∨ _))

/-- Cancel a pending run at once, or leave a request for the holder of a live lease. -/
def cancelRun (run : RunTable) (now : Time) (ctx : RequestContext) (runId : Uuid) :
    RunTable × Option RunRow :=
  run.updateKey runId (fun r => visible ctx.tenant r ∧ cancellable r)
    (cancelRow now ctx.principal.id) (fun _ => rfl)

end AgenticPlatform.Correctness
