import AgenticPlatform.Db.Models
import Mathlib.Data.List.Sort

/-!
# The transactional outbox: the statements

`enqueue_run` admits a run and records the intent to publish it. It is three
statements in the caller's transaction: a fast-path SELECT on the idempotency key,
the INSERT whose ON CONFLICT arm returns the row already there, and the INSERT of
the outbox row, sent only when the run was inserted. `drain` is one SELECT that
ranks and locks, then one mark per row. Identifiers the server generates, the
release and the trace carrier are arguments.
-/
namespace AgenticPlatform.Correctness
open AgenticPlatform.Foundation AgenticPlatform.Identity AgenticPlatform.Db

/-! ## Admission -/

/-- The arguments of `enqueue_run`. -/
structure EnqueueRequest where
  ctx : RequestContext
  workload : String
  payload : Json
  idempotencyKey : Option String
  maxAttempts : Nat
deriving DecidableEq

/-- `a or b` on optional text: the empty text counts as missing. -/
def orText (a b : Option String) : Option String := if a = none ∨ a = some "" then b else a

/-- `idempotency_key or ctx.idempotency_key`. -/
def EnqueueRequest.key (q : EnqueueRequest) : Option String :=
  orText q.idempotencyKey q.ctx.idempotencyKey

/-- The row the unique index on (tenant_id, idempotency_key) finds; NULL keys never meet. -/
def runWithKey (run : RunTable) (tenantId : Uuid) (key : Option String) : Option RunRow :=
  run.rows.find? (fun r => r.tenantId = tenantId ∧ key ≠ none ∧ r.idempotencyKey = key)

theorem runWithKey_some {run : RunTable} {tenantId : Uuid} {key : Option String} {r : RunRow}
    (h : runWithKey run tenantId key = some r) :
    r ∈ run.rows ∧ r.tenantId = tenantId ∧ key ≠ none ∧ r.idempotencyKey = key := by
  have hp := List.find?_some h
  simp only [decide_eq_true_eq] at hp
  exact ⟨List.mem_of_find?_eq_some h, hp⟩

/-- The fast path; an empty key skips it. -/
def existingRun (run : RunTable) (q : EnqueueRequest) : Option Uuid :=
  if q.key = some "" then none else (runWithKey run q.ctx.tenant.id q.key).map RunRow.id

/-- The VALUES list of the run INSERT, with the column defaults. -/
def newRun (now : Time) (release : String) (q : EnqueueRequest) (runId : Uuid) : RunRow where
  id := runId
  tenantId := q.ctx.tenant.id
  workload := q.workload
  status := .pending
  idempotencyKey := q.key
  requestedBy := some q.ctx.principal.id
  input := q.payload
  result := none
  error := none
  leasedBy := none
  leaseExpiresAt := none
  lastHeartbeatAt := none
  attempt := 0
  maxAttempts := q.maxAttempts
  availableAt := now
  lastEnqueuedAt := none
  cancelRequestedAt := none
  cancelRequestedBy := none
  priority := 0
  release := release
  correlationId := q.ctx.correlationId.getD q.ctx.requestId
  createdAt := now
  startedAt := none
  finishedAt := none

/-- The VALUES list of the outbox INSERT, with the column defaults. -/
def newOutbox (now : Time) (trace : Json) (q : EnqueueRequest) (runId : Uuid) (outboxId : Nat) :
    OutboxRow where
  id := outboxId
  tenantId := q.ctx.tenant.id
  runId := runId
  workload := q.workload
  payload := q.payload
  traceContext := trace
  createdAt := now
  publishedAt := none
  publishAttempts := 0
  lastError := none

/-- The INSERT of the run and its ON CONFLICT arm, which rewrites nothing and
returns the row already there with `inserted` false. -/
def insertRun (run : RunTable) (now : Time) (release : String) (q : EnqueueRequest) (runId : Uuid) :
    Option (RunTable × Uuid × Bool) :=
  match runWithKey run q.ctx.tenant.id q.key with
  | some r => some (run, r.id, false)
  | none => (run.tryInsert (newRun now release q runId)).map (fun run' => (run', runId, true))

/-- The two tables one admission writes. -/
structure Store where
  run : RunTable
  outbox : OutboxTable

def Store.empty : Store := ⟨Table.empty, Table.empty⟩

/-- Admit a run, all statements at once. `none` only where a generated id is taken. -/
def enqueueRun (db : Store) (now : Time) (release : String) (trace : Json) (q : EnqueueRequest)
    (runId : Uuid) (outboxId : Nat) : Option (Store × Uuid × Bool) :=
  match existingRun db.run q with
  | some id => some (db, id, false)
  | none => do
    let (run', id, inserted) ← insertRun db.run now release q runId
    if inserted then
      let outbox' ← db.outbox.tryInsert (newOutbox now trace q id outboxId)
      some (⟨run', outbox'⟩, id, true)
    else
      some (⟨run', db.outbox⟩, id, false)

/-- The run table after an admission: unchanged, or with the new run at its end. -/
theorem enqueueRun_rows {db db' : Store} {now : Time} {release : String} {trace : Json}
    {q : EnqueueRequest} {runId : Uuid} {outboxId : Nat} {id : Uuid} {created : Bool}
    (h : enqueueRun db now release trace q runId outboxId = some (db', id, created)) :
    (created = false ∧ db' = db) ∨
    (created = true ∧ id = runId ∧ runId ∉ db.run.keys ∧
      db'.run.rows = db.run.rows ++ [newRun now release q runId]) := by
  unfold enqueueRun at h
  split at h
  · cases h
    exact Or.inl ⟨rfl, rfl⟩
  · unfold insertRun at h
    split at h
    · simp only [Option.bind_eq_bind, Option.bind_some, Bool.false_eq_true, if_false] at h
      cases h
      exact Or.inl ⟨rfl, rfl⟩
    · cases hrun : db.run.tryInsert (newRun now release q runId) with
      | none => simp [hrun] at h
      | some run' =>
        obtain ⟨hfresh, hrows⟩ := Table.tryInsert_eq_some hrun
        simp only [hrun, Option.map_some, Option.bind_eq_bind, Option.bind_some, if_true] at h
        obtain ⟨outbox', -, hdb⟩ := Option.bind_eq_some_iff.mp h
        cases hdb
        exact Or.inr ⟨rfl, rfl, hfresh, hrows⟩

/-- An admission under a key answers with the run that carries the key, or creates one. -/
theorem enqueueRun_keyed {db db' : Store} {now : Time} {release : String} {trace : Json}
    {q : EnqueueRequest} {runId : Uuid} {outboxId : Nat} {id : Uuid} {created : Bool} {k : String}
    (hkey : q.key = some k) (hk : k ≠ "")
    (h : enqueueRun db now release trace q runId outboxId = some (db', id, created)) :
    (∃ r, runWithKey db.run q.ctx.tenant.id (some k) = some r ∧ id = r.id ∧ db' = db) ∨
    (runWithKey db.run q.ctx.tenant.id (some k) = none ∧ id = runId ∧
      db'.run.rows = db.run.rows ++ [newRun now release q runId]) := by
  have hexisting : existingRun db.run q =
      (runWithKey db.run q.ctx.tenant.id (some k)).map RunRow.id := by
    rw [existingRun, hkey, if_neg]
    exact fun hempty => hk (Option.some.inj hempty)
  cases hfound : runWithKey db.run q.ctx.tenant.id (some k) with
  | some r =>
    simp only [enqueueRun, hexisting, hfound, Option.map_some] at h
    cases h
    exact Or.inl ⟨r, rfl, rfl, rfl⟩
  | none =>
    right
    simp only [enqueueRun, hexisting, insertRun, hkey, hfound, Option.map_none] at h
    obtain ⟨⟨run', id', inserted⟩, hins, hout⟩ := Option.bind_eq_some_iff.mp h
    obtain ⟨run'', hrun, hres⟩ := Option.map_eq_some_iff.mp hins
    cases hres
    obtain ⟨outbox', -, hdb⟩ := Option.bind_eq_some_iff.mp hout
    cases hdb
    exact ⟨rfl, rfl, (Table.tryInsert_eq_some hrun).2⟩

/-- The outbox table after an admission that created its run. -/
theorem enqueueRun_outbox {db db' : Store} {now : Time} {release : String} {trace : Json}
    {q : EnqueueRequest} {runId : Uuid} {outboxId : Nat} {id : Uuid}
    (h : enqueueRun db now release trace q runId outboxId = some (db', id, true)) :
    db'.outbox.rows = db.outbox.rows ++ [newOutbox now trace q id outboxId] := by
  unfold enqueueRun at h
  split at h
  · cases h
  · obtain ⟨⟨run', id', inserted⟩, -, hout⟩ := Option.bind_eq_some_iff.mp h
    cases inserted with
    | false => cases hout
    | true =>
      obtain ⟨outbox', hins, hdb⟩ := Option.bind_eq_some_iff.mp hout
      cases hdb
      exact (Table.tryInsert_eq_some hins).2

/-! ## The relay's statements -/

/-- The rows of the `ranked` CTE. -/
def ranked (outbox : OutboxTable) : List OutboxRow :=
  outbox.rows.filter (fun o => o.publishedAt = none)

/-- `row_number() OVER (PARTITION BY tenant_id ORDER BY id)` over these rows. -/
def tenantPos (rows : List OutboxRow) (o : OutboxRow) : Nat :=
  (rows.filter (fun x => x.tenantId = o.tenantId ∧ x.id ≤ o.id)).length

/-- ORDER BY pos, id. -/
def rankedBefore (rows : List OutboxRow) (a b : OutboxRow) : Prop :=
  tenantPos rows a < tenantPos rows b ∨ (tenantPos rows a = tenantPos rows b ∧ a.id ≤ b.id)

instance (rows : List OutboxRow) : DecidableRel (rankedBefore rows) :=
  fun _ _ => inferInstanceAs (Decidable (_ ∨ _))

/-- The whole queue in the order the relay serves it. -/
def servingOrder (outbox : OutboxTable) : List OutboxRow :=
  (ranked outbox).insertionSort (rankedBefore (ranked outbox))

/-- The `candidates` CTE: the ids of the first `limit` rows. -/
def candidates (outbox : OutboxTable) (limit : Nat) : List Nat :=
  ((servingOrder outbox).take limit).map OutboxRow.id

theorem mem_servingOrder {outbox : OutboxTable} {o : OutboxRow} :
    o ∈ servingOrder outbox ↔ o ∈ outbox.rows ∧ o.publishedAt = none := by
  rw [servingOrder, List.mem_insertionSort, ranked, List.mem_filter, decide_eq_true_eq]

theorem mem_candidates {outbox : OutboxTable} {limit id : Nat} (h : id ∈ candidates outbox limit) :
    ∃ o ∈ outbox.rows, o.id = id ∧ o.publishedAt = none := by
  obtain ⟨o, ho, hid⟩ := List.mem_map.mp h
  obtain ⟨hmem, hnone⟩ := mem_servingOrder.mp (List.mem_of_mem_take ho)
  exact ⟨o, hmem, hid, hnone⟩

theorem nodup_candidates (outbox : OutboxTable) (limit : Nat) :
    (candidates outbox limit).Nodup := by
  have hperm : (servingOrder outbox).Perm (ranked outbox) := List.perm_insertionSort _ _
  have hranked : ((ranked outbox).map OutboxRow.id).Nodup :=
    outbox.nodup.sublist (List.filter_sublist.map OutboxRow.id)
  have hserve : ((servingOrder outbox).map OutboxRow.id).Nodup :=
    (hperm.map OutboxRow.id).nodup_iff.mpr hranked
  exact hserve.sublist ((List.take_sublist limit _).map OutboxRow.id)

/-- An unpublished row is a candidate of every pass whose limit reaches its place. -/
theorem unpublished_is_candidate {outbox : OutboxTable} {o : OutboxRow} (ho : o ∈ outbox.rows)
    (hnone : o.publishedAt = none) :
    ∃ place, ∀ limit, place < limit → o.id ∈ candidates outbox limit := by
  obtain ⟨place, hlt, hget⟩ := List.getElem_of_mem (mem_servingOrder.mpr ⟨ho, hnone⟩)
  refine ⟨place, ?_⟩
  intro limit hlimit
  refine List.mem_map.mpr ⟨o, ?_, rfl⟩
  rw [List.mem_take_iff_getElem]
  exact ⟨place, by omega, hget⟩

/-- What the relay records about one row: published, or the error of the attempt. -/
inductive Mark where
  | published
  | failed (error : String)
deriving DecidableEq

def markOutbox (now : Time) (o : OutboxRow) : Mark → OutboxRow
  | .published => { o with publishedAt := some now }
  | .failed error =>
    { o with publishAttempts := o.publishAttempts + 1, lastError := some (clip 2000 error) }

def markRun (now : Time) (r : RunRow) : RunRow := { r with lastEnqueuedAt := some now }

/-! A concrete request for the runs that are worked out below. -/

def sampleTenant : Tenant := ⟨1, "acme"⟩

def sampleContext : RequestContext := ⟨⟨7, sampleTenant, "alice", [.owner]⟩, 5, none, none, none⟩

def sampleRequest : EnqueueRequest := ⟨sampleContext, "echo", .emptyObj, none, 3⟩

end AgenticPlatform.Correctness
