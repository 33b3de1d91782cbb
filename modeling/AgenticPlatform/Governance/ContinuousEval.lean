import AgenticPlatform.Correctness.Outbox
import AgenticPlatform.Foundation.Transition
import Mathlib.Data.Rat.Floor

/-!
# Continuous evaluation

`platform_schedule_due_continuous_evals` locks the due policies one by one, skipping those
that are locked, and turns each into a run with its outbox row. The query is incremental:
a policy can be locked a while before the loop gets to it, and the call can take a while
altogether, but `now()` is the start of its transaction. `update_policy` is one UPDATE,
which waits for the row and is stamped with the start of its transaction too. What a
transaction wrote to a policy becomes visible when it commits; until then it holds the row.
-/
namespace AgenticPlatform.Governance
open AgenticPlatform.Foundation AgenticPlatform.Identity AgenticPlatform.Db
  AgenticPlatform.Correctness

/-! ## The table -/

/-- The CHECK on `interval_seconds`. -/
abbrev IntervalSeconds := { n : Nat // 900 ≤ n ∧ n ≤ 604800 }

/-- The CHECK on `top_k`. -/
abbrev TopK := { n : Nat // 1 ≤ n ∧ n ≤ 50 }

/-! The defaults of the settings. -/

theorem sixHours_isInterval : 900 ≤ 21600 ∧ 21600 ≤ 604800 := by decide

theorem five_isTopK : 1 ≤ 5 ∧ 5 ≤ 50 := by decide

theorem topK_text : ∀ n < 51, isNumber (Nat.repr n).toList = true := by decide +kernel

def TopK.number (k : TopK) : Number := ⟨Nat.repr k.1, topK_text k.1 (Nat.lt_succ_of_le k.2.2)⟩

structure PolicyRow where
  id : Uuid
  tenantId : Uuid
  datasetName : String
  intervalSeconds : IntervalSeconds
  topK : TopK
  nextRunAt : Time
  lastScheduledAt : Option Time
  lastRunId : Option Uuid
  createdBy : Option Uuid
  updatedBy : Option Uuid
  createdAt : Time
  updatedAt : Time
deriving DecidableEq

abbrev PolicyTable := Table PolicyRow PolicyRow.id

/-- `make_interval(secs => interval_seconds)`. -/
def PolicyRow.interval (p : PolicyRow) : Time := p.intervalSeconds.1

theorem PolicyRow.interval_ge (p : PolicyRow) : 900 ≤ p.interval := by
  unfold PolicyRow.interval
  exact_mod_cast p.intervalSeconds.2.1

/-! ## The run of a due policy -/

structure ScheduleEnv where
  /-- `id::text`. -/
  uuidText : Uuid → String

/-- The text of an id is its own, and hexadecimal digits and dashes. -/
structure ScheduleEnv.Faithful (env : ScheduleEnv) : Prop where
  injective : Function.Injective env.uuidText
  plain : ∀ id, ':' ∉ (env.uuidText id).toList

/-- `extract(epoch from …)::bigint`: to the nearest second, a half away from zero. -/
def epochSeconds (t : Time) : Int := if 0 ≤ t then ⌊t + 1 / 2⌋ else ⌈t - 1 / 2⌉

def scheduleKey (env : ScheduleEnv) (policy : Uuid) (instant : Time) : String :=
  "continuous-eval:" ++ (env.uuidText policy ++ (":" ++ (epochSeconds instant).repr))

/-- The `jsonb_build_object` that both the run and the outbox row carry. -/
def scheduleInput (policy : PolicyRow) (contentSha256 : String) : Json :=
  .obj [("dataset", .str policy.datasetName), ("content_sha256", .str contentSha256),
    ("top_k", .num policy.topK.number), ("continuous", .bool true)]

/-- The VALUES list of the run INSERT, with the column defaults. -/
def scheduledRun (env : ScheduleEnv) (now : Time) (release : String) (policy : PolicyRow)
    (sha : String) (runId correlationId : Uuid) : RunRow where
  id := runId
  tenantId := policy.tenantId
  workload := "eval"
  status := .pending
  idempotencyKey := some (scheduleKey env policy.id policy.nextRunAt)
  requestedBy := policy.updatedBy.or policy.createdBy
  input := scheduleInput policy sha
  result := none
  error := none
  leasedBy := none
  leaseExpiresAt := none
  lastHeartbeatAt := none
  attempt := 0
  maxAttempts := 3
  availableAt := now
  lastEnqueuedAt := none
  cancelRequestedAt := none
  cancelRequestedBy := none
  priority := -1
  release := release
  correlationId := correlationId
  createdAt := now
  startedAt := none
  finishedAt := none

def scheduledOutbox (now : Time) (policy : PolicyRow) (sha : String) (runId : Uuid)
    (outboxId : Nat) : OutboxRow where
  id := outboxId
  tenantId := policy.tenantId
  runId := runId
  workload := "eval"
  payload := scheduleInput policy sha
  traceContext := .emptyObj
  createdAt := now
  publishedAt := none
  publishAttempts := 0
  lastError := none

/-! ## What a transaction writes to a policy -/

inductive Write where
  /-- There was no dataset. -/
  | backOff (now : Time)
  | scheduled (now : Time) (runId : Option Uuid)
  | edited (now : Time) (interval : IntervalSeconds) (topK : TopK) (updatedBy : Uuid)
deriving DecidableEq

def Write.apply (policy : PolicyRow) : Write → PolicyRow
  | .backOff now => { policy with nextRunAt := now + policy.interval, updatedAt := now }
  | .scheduled now runId =>
    { policy with
      lastRunId := runId
      lastScheduledAt := some now
      nextRunAt := now + policy.interval
      updatedAt := now }
  | .edited now interval topK updatedBy =>
    { policy with
      intervalSeconds := interval
      topK := topK
      updatedBy := some updatedBy
      updatedAt := now
      nextRunAt := min policy.nextRunAt (now + interval.1) }

theorem Write.apply_id (policy : PolicyRow) (w : Write) : (w.apply policy).id = policy.id := by
  cases w <;> rfl

theorem Write.apply_tenantId (policy : PolicyRow) (w : Write) :
    (w.apply policy).tenantId = policy.tenantId := by
  cases w <;> rfl

/-! ## The policy of a dataset that is saved -/

/-- The row the unique index on (tenant_id, dataset_name) finds. -/
def policyOf (policies : PolicyTable) (tenantId : Uuid) (datasetName : String) : Option PolicyRow :=
  policies.rows.find? (fun p => p.tenantId = tenantId ∧ p.datasetName = datasetName)

/-- The ON CONFLICT arm. -/
def savedAgain (now : Time) (updatedBy : Uuid) (policy : PolicyRow) : PolicyRow :=
  { policy with updatedBy := some updatedBy, updatedAt := now }

/-- The upsert of `datasets.save`. `none` only where the generated id is taken. -/
def savePolicy (policies : PolicyTable) (now : Time) (id tenantId : Uuid) (datasetName : String)
    (interval : IntervalSeconds) (topK : TopK) (by_ : Uuid) : Option PolicyTable :=
  match policyOf policies tenantId datasetName with
  | none =>
    policies.tryInsert
      ⟨id, tenantId, datasetName, interval, topK, now, none, none, some by_, some by_, now, now⟩
  | some p => some (policies.updateWhere (fun x => x.id = p.id) (savedAgain now by_) (fun _ => rfl))

/-! ## Transactions -/

inductive Call where
  /-- With what is left of the LIMIT. -/
  | schedule (left : Nat) (release : String)
  | updatePolicy (tenantId : Uuid) (datasetName : String) (interval : IntervalSeconds) (topK : TopK)
    (updatedBy : Uuid)
deriving DecidableEq

structure Txn where
  now : Time
  call : Call
deriving DecidableEq

/-- A locked policy, what was written to it, and the rows that were inserted for it. -/
structure Lock where
  holder : Nat
  write : Option Write
  created : Option (RunRow × OutboxRow)
deriving DecidableEq

/-- A due policy that a committed call has served, and how. -/
structure Served where
  policy : PolicyRow
  /-- The version of the row it was left in. -/
  after : PolicyRow
  created : Option Uuid
deriving DecidableEq

/-- The due instant. -/
def Served.instant (e : Served) : Time := e.policy.nextRunAt

structure SchedulerState where
  clock : Time
  policies : PolicyTable
  db : Store
  txns : Nat → Option Txn
  locks : Uuid → Option Lock
  /-- The earliest first. -/
  served : List Served

def SchedulerState.initial (clock : Time) (policies : PolicyTable) : SchedulerState :=
  ⟨clock, policies, .empty, fun _ => none, fun _ => none, []⟩

inductive SchedulerAct where
  | tick (now : Time)
  /-- A run admitted some other way. -/
  | enqueue (release : String) (trace : Json) (q : EnqueueRequest) (runId : Uuid) (outboxId : Nat)
  /-- The policy of a dataset that is saved, with the settings as they are. -/
  | save (id tenantId : Uuid) (datasetName : String) (interval : IntervalSeconds) (topK : TopK)
    (by_ : Uuid)
  | begin (n : Nat) (call : Call)
  /-- FOR UPDATE SKIP LOCKED. -/
  | lock (n : Nat) (policyId : Uuid)
  /-- The body of the loop, with the hash of the dataset if there is one. -/
  | serve (n : Nat) (policyId : Uuid) (sha : Option String) (runId correlationId : Uuid)
    (outboxId : Nat)
  /-- The UPDATE. -/
  | update (n : Nat) (policyId : Uuid)
  | commit (n : Nat)
  | abort (n : Nat)
deriving DecidableEq

/-- What the calls check of their arguments. -/
def Call.valid : Call → Bool
  | .schedule left release => 1 ≤ left && left ≤ 500 && 1 ≤ release.length && release.length ≤ 64
  | .updatePolicy .. => true

/-- Rows inserted and not committed yet. -/
def SchedulerState.pending (s : SchedulerState) : List (RunRow × OutboxRow) :=
  s.policies.rows.filterMap (fun p => (s.locks p.id).bind Lock.created)

/-- No transaction has an entry of the unique index on (tenant_id, idempotency_key) that is
not committed: an INSERT under the key need not wait. -/
def SchedulerState.keyFree (s : SchedulerState) (tenantId : Uuid) (key : Option String) : Prop :=
  ∀ c ∈ s.pending, c.1.tenantId = tenantId → c.1.idempotencyKey ≠ key

instance (s : SchedulerState) (tenantId : Uuid) (key : Option String) :
    Decidable (s.keyFree tenantId key) :=
  inferInstanceAs (Decidable (∀ c ∈ s.pending, _))

/-- The lock transaction `n` has on the policy. -/
def SchedulerState.heldBy (s : SchedulerState) (n : Nat) (policyId : Uuid) : Option Lock :=
  (s.locks policyId).filter (fun l => l.holder = n)

/-- The loop over one locked policy. -/
def servePolicy (env : ScheduleEnv) (db : Store) (now : Time) (release : String)
    (policy : PolicyRow) (sha : Option String) (runId correlationId : Uuid) (outboxId : Nat) :
    Write × Option (RunRow × OutboxRow) :=
  match sha with
  | none => (.backOff now, none)
  | some sha =>
    match runWithKey db.run policy.tenantId (some (scheduleKey env policy.id policy.nextRunAt)) with
    | some r => (.scheduled now (some r.id), none)
    | none =>
      (.scheduled now (some runId),
        some (scheduledRun env now release policy sha runId correlationId,
          scheduledOutbox now policy sha runId outboxId))

/-- The policy as the commit of transaction `n` leaves it. -/
def SchedulerState.written (s : SchedulerState) (n : Nat) (p : PolicyRow) : PolicyRow :=
  ((s.heldBy n p.id).bind Lock.write).elim p (fun w => w.apply p)

theorem SchedulerState.written_id (s : SchedulerState) (n : Nat) (p : PolicyRow) :
    (s.written n p).id = p.id := by
  unfold SchedulerState.written
  cases (s.heldBy n p.id).bind Lock.write with
  | none => rfl
  | some w => exact w.apply_id p

theorem SchedulerState.written_tenantId (s : SchedulerState) (n : Nat) (p : PolicyRow) :
    (s.written n p).tenantId = p.tenantId := by
  unfold SchedulerState.written
  cases (s.heldBy n p.id).bind Lock.write with
  | none => rfl
  | some w => exact w.apply_tenantId p

/-- The rows transaction `n` has inserted. -/
def SchedulerState.createdBy (s : SchedulerState) (n : Nat) : List (RunRow × OutboxRow) :=
  s.policies.rows.filterMap (fun p => (s.heldBy n p.id).bind Lock.created)

/-- What transaction `n` has done with a policy, if it has served it. -/
def SchedulerState.serving (s : SchedulerState) (n : Nat) (p : PolicyRow) : Option Served := do
  let l ← s.heldBy n p.id
  match ← l.write with
  | .edited .. => none
  | w => some ⟨p, w.apply p, l.created.map (fun c => c.1.id)⟩

/-- The locks that stay when transaction `n` ends. -/
def SchedulerState.unlocked (s : SchedulerState) (n : Nat) (policyId : Uuid) : Option Lock :=
  (s.locks policyId).filter (fun l => l.holder ≠ n)

def schedulerStep (env : ScheduleEnv) (s : SchedulerState) : SchedulerAct → Option SchedulerState
  | .tick now => if s.clock ≤ now then some { s with clock := now } else none
  | .enqueue release trace q runId outboxId =>
    if s.keyFree q.ctx.tenant.id q.key then
      (enqueueRun s.db s.clock release trace q runId outboxId).map
        (fun out => { s with db := out.1 })
    else none
  | .save id tenantId datasetName interval topK by_ =>
    if (policyOf s.policies tenantId datasetName).all (fun p => s.locks p.id = none) = true then
      (savePolicy s.policies s.clock id tenantId datasetName interval topK by_).map
        (fun policies => { s with policies := policies })
    else none
  | .begin n call =>
    if s.txns n = none ∧ call.valid = true then
      some { s with txns := Function.update s.txns n (some ⟨s.clock, call⟩) }
    else none
  | .lock n policyId =>
    match s.txns n, s.policies.get policyId with
    | some ⟨now, .schedule (left + 1) release⟩, some p =>
      if s.locks policyId = none ∧ p.nextRunAt ≤ now then
        some { s with
          txns := Function.update s.txns n (some ⟨now, .schedule left release⟩)
          locks := Function.update s.locks policyId (some ⟨n, none, none⟩) }
      else none
    | _, _ => none
  | .serve n policyId sha runId correlationId outboxId =>
    match s.txns n, s.policies.get policyId, s.heldBy n policyId with
    | some ⟨now, .schedule _ release⟩, some p, some ⟨_, none, _⟩ =>
      if s.keyFree p.tenantId (some (scheduleKey env p.id p.nextRunAt)) then
        let out := servePolicy env s.db now release p sha runId correlationId outboxId
        some { s with locks := Function.update s.locks policyId (some ⟨n, some out.1, out.2⟩) }
      else none
    | _, _, _ => none
  | .update n policyId =>
    match s.txns n, s.policies.get policyId with
    | some ⟨now, .updatePolicy tenantId datasetName interval topK by_⟩, some p =>
      if s.locks policyId = none ∧ p.tenantId = tenantId ∧ p.datasetName = datasetName then
        some { s with
          locks := Function.update s.locks policyId
            (some ⟨n, some (.edited now interval topK by_), none⟩) }
      else none
    | _, _ => none
  | .commit n => do
    let _ ← s.txns n
    let run ← s.db.run.tryInsertAll ((s.createdBy n).map Prod.fst)
    let outbox ← s.db.outbox.tryInsertAll ((s.createdBy n).map Prod.snd)
    some { s with
      policies := s.policies.update (s.written n) (s.written_id n)
      db := ⟨run, outbox⟩
      txns := Function.update s.txns n none
      locks := s.unlocked n
      served := s.served ++ s.policies.rows.filterMap (s.serving n) }
  | .abort n => do
    let _ ← s.txns n
    some { s with txns := Function.update s.txns n none, locks := s.unlocked n }

end AgenticPlatform.Governance
