import AgenticPlatform.Correctness.LeaseSystem
import AgenticPlatform.Foundation.JsonInteger

/-!
# The body of a leased run

Each worker executes one leased run at a time, in steps that interleave with the reaper, the
clients that ask for a cancellation and the other workers. Where the body stands is its
phase; the checkpoints it has appended are kept beside it. The handler may return anything
and raise anything, and every append may fail.
-/
namespace AgenticPlatform.Worker
open AgenticPlatform.Foundation AgenticPlatform.Identity AgenticPlatform.Db
  AgenticPlatform.Correctness

/-- What is registered, and how values are spelled. -/
structure WorkerEnv where
  retry : RetrySettings
  /-- The names in `WORKLOADS`. -/
  workloads : List String
  reprText : String → String
  uuidText : Uuid → String
  /-- The digest of `json.dumps(result, sort_keys=True, default=str)`. -/
  resultSha256 : Json → String

/-- The exceptions the `except` clauses tell apart. -/
inductive WorkError where
  | runCancelled
  | needsReconciliation (step message : String)
  | transient (typeName message : String) (retryAfter : Option Time)
  | other (typeName message : String)

inductive WorkOutcome where
  | noHandler
  | cancelled
  | needsReconciliation (step : String)
  | retry
  | failed
  | leaseLost
  | succeeded (result : Json)
deriving DecidableEq

structure Checkpoint where
  state : List (String × Json)
  awaiting : Option String

inductive BodyPhase where
  | leased
  /-- `run_started` is to be appended. -/
  | starting
  /-- Before the first cancellation point. -/
  | entering
  | working
  /-- Before the second one. -/
  | leaving (result : Json)
  /-- Before `raise_if_lost`. -/
  | beating (result : Json)
  /-- In an `except` clause, before its append. -/
  | caught (e : WorkError)
  /-- In its `finally`. -/
  | settling (e : WorkError) (appended : Bool)
  /-- `handler_completed` is to be appended. -/
  | completing (result : Json)
  /-- Before `leases.complete`. -/
  | fencing (result : Json)
  /-- `run_succeeded` is to be appended. -/
  | completed (result : Json)
  | returned (outcome : WorkOutcome)
  | raised

structure Execution where
  lease : LeasedRun
  phase : BodyPhase
  /-- `beat.lost`. -/
  lost : Bool
  checkpoints : List Checkpoint
  /-- The reaper has taken the run since; not stored. -/
  taken : Bool

structure WorkersState where
  db : Store
  /-- What each worker executes, or executed last. -/
  workers : String → Option Execution

def WorkersState.initial (db : Store) : WorkersState := ⟨db, fun _ => none⟩

/-! ## One body -/

inductive BodyAct where
  | findHandler (now : Time) (u : Draw)
  | append (ok : Bool)
  | cancellationPoint
  /-- The query of a cancellation point fails. -/
  | pointFails (typeName message : String)
  | returns (result : Json)
  | raises (e : WorkError)
  | raiseIfLost
  /-- The statement on the lease that the body ends with. -/
  | settle (now : Time) (u : Draw)
  | heartbeat (now extend : Time)
  /-- The process is killed, or an error is raised that no clause catches. -/
  | die

/-- `row.status == "cancelled" or row.cancel_requested_at is not None`, on the row of the run
where there is one. -/
def cancelSeen (run : RunTable) (l : LeasedRun) : Prop :=
  ∃ r ∈ run.get l.runId, visible l.tenant r ∧ (r.status = .cancelled ∨ r.cancelRequestedAt ≠ none)

instance (run : RunTable) (l : LeasedRun) : Decidable (cancelSeen run l) :=
  inferInstanceAs (Decidable (∃ r ∈ run.get l.runId, _))

def WorkError.outcome : WorkError → WorkOutcome
  | .runCancelled => .cancelled
  | .needsReconciliation step _ => .needsReconciliation step
  | .transient .. => .retry
  | .other .. => .failed

/-- What the clause appends. -/
def WorkError.checkpoint : WorkError → Checkpoint
  | .runCancelled => ⟨[("phase", .str "cancelled")], none⟩
  | .needsReconciliation step _ =>
    ⟨[("phase", .str "needs_reconciliation"), ("step", .str step)], some "reconciliation"⟩
  | .transient typeName _ _ =>
    ⟨[("phase", .str "retry_pending"), ("error_type", .str typeName)], some "retry"⟩
  | .other typeName _ => ⟨[("phase", .str "failed"), ("error_type", .str typeName)], none⟩

/-- What its `finally` calls. -/
def WorkError.call (u : Draw) : WorkError → HolderCall
  | .runCancelled => .acknowledgeCancellation
  | .needsReconciliation _ message => .fail message false none u
  | .transient _ message retryAfter => .fail message true retryAfter u
  | .other typeName message => .fail (typeName ++ ": " ++ message) false none u

section
variable (env : WorkerEnv)

def lostError (l : LeasedRun) : WorkError :=
  .transient "TransientError"
    ("lease on run " ++ env.uuidText l.runId ++
      " was lost mid-execution; another worker may now own it") none

def noHandlerCall (l : LeasedRun) (u : Draw) : HolderCall :=
  .fail ("no handler for workload " ++ env.reprText l.workload) false none u

def runStarted (l : LeasedRun) : Checkpoint :=
  ⟨[("phase", .str "run_started"), ("workload", .str l.workload),
    ("attempt", .num (Number.ofNat l.attempt))], none⟩

def handlerCompleted (result : Json) : Checkpoint :=
  ⟨[("phase", .str "handler_completed"), ("result_sha256", .str (env.resultSha256 result))], none⟩

def runSucceeded : Checkpoint := ⟨[("phase", .str "run_succeeded")], none⟩

/-- A call on the lease the body holds, and its answer. -/
def send (db : Store) (now : Time) (l : LeasedRun) (call : HolderCall) : Store × Bool :=
  let (run', held) := call.exec env.retry db.run now l
  ({ db with run := run' }, held)

def Execution.goto (x : Execution) (phase : BodyPhase) : Execution := { x with phase := phase }

/-- An append, after which the body goes on in one phase or, where it fails, in another. -/
def Execution.append (x : Execution) (ok : Bool) (checkpoint : Checkpoint)
    (next failed : BodyPhase) : Execution :=
  if ok then { x with phase := next, checkpoints := x.checkpoints ++ [checkpoint] }
  else x.goto failed

def bodyStep (db : Store) (x : Execution) : BodyAct → Option (Store × Execution)
  | .findHandler now u =>
    match x.phase with
    | .leased =>
      if x.lease.workload ∈ env.workloads then some (db, x.goto .starting)
      else some ((send env db now x.lease (noHandlerCall env x.lease u)).1,
        x.goto (.returned .noHandler))
    | _ => none
  | .append ok =>
    match x.phase with
    | .starting => some (db, x.append ok (runStarted x.lease) .entering .raised)
    | .caught e => some (db, x.append ok e.checkpoint (.settling e true) (.settling e false))
    | .completing result =>
      some (db, x.append ok (handlerCompleted env result) (.fencing result) .raised)
    | .completed result =>
      some (db, x.append ok runSucceeded (.returned (.succeeded result)) .raised)
    | _ => none
  | .cancellationPoint =>
    match x.phase with
    | .entering =>
      some (db, x.goto (if cancelSeen db.run x.lease then .caught .runCancelled else .working))
    | .leaving result =>
      some (db,
        x.goto (if cancelSeen db.run x.lease then .caught .runCancelled else .beating result))
    | _ => none
  | .pointFails typeName message =>
    match x.phase with
    | .entering | .leaving _ => some (db, x.goto (.caught (.other typeName message)))
    | _ => none
  | .returns result =>
    match x.phase with
    | .working => some (db, x.goto (.leaving result))
    | _ => none
  | .raises e =>
    match x.phase with
    | .working => some (db, x.goto (.caught e))
    | _ => none
  | .raiseIfLost =>
    match x.phase with
    | .beating result =>
      some (db, x.goto (if x.lost then .caught (lostError env x.lease) else .completing result))
    | _ => none
  | .settle now u =>
    match x.phase with
    | .settling e appended =>
      some ((send env db now x.lease (e.call u)).1,
        x.goto (if appended then .returned e.outcome else .raised))
    | .fencing result =>
      let (db', held) := send env db now x.lease (.complete (some result))
      some (db', x.goto (if held then .completed result else .returned .leaseLost))
    | _ => none
  | .heartbeat now extend =>
    match x.phase with
    | .leased | .starting | .returned _ | .raised => none
    | _ =>
      if x.lost then none
      else
        let (db', held) := send env db now x.lease (.heartbeat extend)
        some (db', { x with lost := !held })
  | .die =>
    match x.phase with
    | .returned _ | .raised => none
    | _ => some (db, x.goto .raised)

/-! ## All of them -/

inductive WorkersAct where
  /-- A statement of a client or the reaper, or of a heartbeat thread that has outlived its body. -/
  | statement (now : Time) (op : LeaseOp)
  /-- A worker acquires a run. -/
  | acquire (now : Time) (op : LeaseOp)
  | body (worker : String) (a : BodyAct)

/-- Whether a statement of this kind comes from outside the bodies. -/
def outside : LeaseOp → Prop
  | .enqueueRun .. | .reapExpired .. | .cancelRun .. | .call _ (.heartbeat _) => True
  | .call _ (.complete _) | .call _ (.fail ..) | .call _ .acknowledgeCancellation => False
  | .acquire .. | .acquireSpecific .. => False

instance : DecidablePred outside
  | .enqueueRun .. | .reapExpired .. | .cancelRun .. | .call _ (.heartbeat _) => isTrue trivial
  | .call _ (.complete _) | .call _ (.fail ..) | .call _ .acknowledgeCancellation => isFalse id
  | .acquire .. | .acquireSpecific .. => isFalse id

def BodyPhase.ended : BodyPhase → Bool
  | .returned _ | .raised => true
  | _ => false

/-- What the answer of a statement is to the body of some worker. -/
def Execution.observe (e : LeaseEvent) (x : Execution) : Execution :=
  match e with
  | .reaped rows => { x with taken := x.taken || decide (∃ y ∈ rows, y.runId = x.lease.runId) }
  | _ => x

def workersStep (s : WorkersState) : WorkersAct → Option WorkersState
  | .statement now op =>
    if outside op then
      (exec env.retry s.db now op).map
        (fun (db', e) => ⟨db', fun w => (s.workers w).map (Execution.observe e)⟩)
    else none
  | .acquire now op =>
    match exec env.retry s.db now op with
    | some (db', .acquired l) =>
      -- A worker executes one run at a time.
      if (s.workers l.leasedBy).all (fun x => x.phase.ended) then
        some ⟨db', Function.update s.workers l.leasedBy (some ⟨l, .leased, false, [], false⟩)⟩
      else none
    | _ => none
  | .body w a =>
    match s.workers w with
    | none => none
    | some x => (bodyStep env s.db x a).map
      (fun (db', x') => ⟨db', Function.update s.workers w (some x')⟩)

end

end AgenticPlatform.Worker
