import AgenticPlatform.Correctness.Leases
import AgenticPlatform.Correctness.Outbox
import AgenticPlatform.Foundation.Transition

/-!
# The lease protocol as a transition system

Any number of workers, reapers and clients send their statements in any order;
each statement is one step. The clock reading of a statement is an argument of the
step, so no assumption is made on how clocks and stalls relate. The log keeps what
every call answered: a worker knows about its lease only what an acquisition
returned, and a call may come from any holder of the past.

`exec_rows` is the single place where the statements are taken apart: it says what
one step does to each row and what its answer then is.
-/
namespace AgenticPlatform.Correctness
open AgenticPlatform.Foundation AgenticPlatform.Identity AgenticPlatform.Db

/-- The calls made with the `LeasedRun` of an earlier acquisition. -/
inductive HolderCall where
  | heartbeat (extend : Time)
  | complete (result : Option Json)
  | fail (error : String) (retryable : Bool) (retryAfter : Option Time) (u : Draw)
  | acknowledgeCancellation

def HolderCall.exec (c : RetrySettings) (run : RunTable) (now : Time) (l : LeasedRun) :
    HolderCall → RunTable × Bool
  | .heartbeat extend => Correctness.heartbeat run now l extend
  | .complete result => Correctness.complete run now l result
  | .fail error retryable retryAfter u =>
    Correctness.fail c run now l error retryable retryAfter u
  | .acknowledgeCancellation => Correctness.acknowledgeCancellation run now l

inductive LeaseOp where
  | enqueueRun (release : String) (trace : Json) (q : EnqueueRequest) (runId : Uuid)
    (outboxId : Nat)
  | acquire (tenant : Tenant) (worker : String) (workload : Option String) (lease : Time)
    (locked : List Uuid)
  | acquireSpecific (tenant : Tenant) (runId : Uuid) (worker : String) (lease : Time)
  | call (l : LeasedRun) (call : HolderCall)
  | reapExpired (grace : Time) (draw : Uuid → Draw)
  | cancelRun (ctx : RequestContext) (runId : Uuid)

/-- What a step answered. -/
inductive LeaseEvent where
  | admitted (id : Uuid) (created : Bool)
  | acquired (l : LeasedRun)
  | notAvailable
  | answered (l : LeasedRun) (call : HolderCall) (held : Bool)
  | reaped (rows : List Reaped)
  | cancelled (id : Option Uuid)

/-- One statement against the database: the tables after it and its answer. -/
def exec (c : RetrySettings) (db : Store) (now : Time) : LeaseOp → Option (Store × LeaseEvent)
  | .enqueueRun release trace q runId outboxId =>
    (enqueueRun db now release trace q runId outboxId).map
      (fun (db', id, created) => (db', .admitted id created))
  | .acquire tenant worker workload lease locked =>
    let (run', l) := acquire db.run now tenant worker workload lease locked
    some ({ db with run := run' }, l.elim .notAvailable .acquired)
  | .acquireSpecific tenant runId worker lease =>
    let (run', l) := acquireSpecific db.run now tenant runId worker lease
    some ({ db with run := run' }, l.elim .notAvailable .acquired)
  | .call l call =>
    let (run', held) := call.exec c db.run now l
    some ({ db with run := run' }, .answered l call held)
  | .reapExpired grace draw =>
    let (run', rows) := reapExpired c db.run now grace draw
    some ({ db with run := run' }, .reaped rows)
  | .cancelRun ctx runId =>
    let (run', row) := cancelRun db.run now ctx runId
    some ({ db with run := run' }, .cancelled (row.map RunRow.id))

abbrev LeaseLog := List LeaseEvent

def LeaseEvent.acquisition : LeaseEvent → Option LeasedRun
  | .acquired l => some l
  | _ => none

/-- Every lease ever handed out, oldest first. -/
def issued (log : LeaseLog) : List LeasedRun := log.filterMap LeaseEvent.acquisition

/-- What the arguments keep to: at least one attempt, and holder calls only with a
lease that was handed out. -/
def callable (log : LeaseLog) : LeaseOp → Prop
  | .enqueueRun _ _ q _ _ => 1 ≤ q.maxAttempts
  | .call l _ => l ∈ issued log
  | .acquire .. | .acquireSpecific .. | .reapExpired .. | .cancelRun .. => True

instance (log : LeaseLog) : (op : LeaseOp) → Decidable (callable log op)
  | .enqueueRun _ _ q _ _ => inferInstanceAs (Decidable (1 ≤ q.maxAttempts))
  | .call l _ => inferInstanceAs (Decidable (l ∈ issued log))
  | .acquire .. | .acquireSpecific .. | .reapExpired .. | .cancelRun .. => isTrue trivial

structure LeaseState where
  db : Store
  log : LeaseLog

def LeaseState.initial : LeaseState := ⟨Store.empty, []⟩

/-- One step of the system: a statement sent at a clock reading. -/
def leaseStep (c : RetrySettings) (s : LeaseState) (a : Time × LeaseOp) : Option LeaseState :=
  (exec c s.db a.1 a.2).bind fun (db', e) =>
    if callable s.log a.2 then some ⟨db', s.log ++ [e]⟩ else none

theorem leaseStep_eq_some {c : RetrySettings} {s t : LeaseState} {a : Time × LeaseOp} :
    leaseStep c s a = some t ↔
      ∃ e, exec c s.db a.1 a.2 = some (t.db, e) ∧ callable s.log a.2 ∧ t.log = s.log ++ [e] := by
  obtain ⟨db, log⟩ := t
  simp only [leaseStep, Option.bind_eq_some_iff, Prod.exists]
  constructor
  · intro ⟨db', e, he, h⟩
    split at h
    · cases h
      exact ⟨e, he, ‹_›, rfl⟩
    · cases h
  · intro ⟨e, he, hadm, hlog⟩
    refine ⟨db, e, he, ?_⟩
    rw [if_pos hadm, hlog]

/-! ## What a step does to a row -/

/-- The condition a holder call adds to the fence. -/
def HolderCall.guard : HolderCall → RunRow → Prop
  | .heartbeat _, r | .complete _, r => r.cancelRequestedAt = none
  | .fail .., _ => True
  | .acknowledgeCancellation, r => r.cancelRequestedAt ≠ none

/-- The SET list of a holder call. -/
def HolderCall.set (c : RetrySettings) (now : Time) (l : LeasedRun) : HolderCall → RunRow → RunRow
  | .heartbeat extend => heartbeatRow now extend
  | .complete result => completeRow now result
  | .fail error retryable retryAfter u =>
    failRow now error (failTerminal l retryable) (failDelay c l retryable retryAfter u)
  | .acknowledgeCancellation => cancelledRow now

/-- The answer says that the row with this id was written. -/
def LeaseEvent.concerns (id : Uuid) : LeaseEvent → Prop
  | .acquired l => l.runId = id
  | .answered l _ held => held = true ∧ l.runId = id
  | .reaped rows => ∃ x ∈ rows, x.runId = id
  | .cancelled runId => runId = some id
  | .admitted .. | .notAvailable => False

/-- What one step may do to one row, together with what it answers. -/
inductive RowStep (c : RetrySettings) (now : Time) : LeaseEvent → RunRow → RunRow → Prop where
  | same {e : LeaseEvent} {r : RunRow} (h : ¬ e.concerns r.id) : RowStep c now e r r
  | lease {r : RunRow} (tenant : Tenant) (worker : String) (lease : Time)
    (hv : visible tenant r) (h : leasable now r) :
    RowStep c now (.acquired (leasedRun tenant now lease worker (leaseRow now lease worker r))) r
      (leaseRow now lease worker r)
  | call {r : RunRow} {l : LeasedRun} (call : HolderCall) (hid : r.id = l.runId) (hf : fenced l r)
    (hg : call.guard r) : RowStep c now (.answered l call true) r (call.set c now l r)
  | reap {r : RunRow} {rows : List Reaped} (grace : Time) (draw : Uuid → Draw)
    (h : leaseExpired now grace r) (hmem : reapedOf (reapRow c now draw r) ∈ rows)
    (honly : ∀ x ∈ rows, x.runId = r.id → x = reapedOf (reapRow c now draw r)) :
    RowStep c now (.reaped rows) r (reapRow c now draw r)
  | cancel {r : RunRow} (by_ : Uuid) (h : cancellable r) :
    RowStep c now (.cancelled (some r.id)) r (cancelRow now by_ r)

theorem RowStep.id_eq {c : RetrySettings} {now : Time} {e : LeaseEvent} {r r' : RunRow}
    (h : RowStep c now e r r') : r'.id = r.id := by
  cases h with
  | call call => cases call <;> rfl
  | _ => rfl

/-- What the admission wrote stays. -/
theorem RowStep.request_eq {c : RetrySettings} {now : Time} {e : LeaseEvent} {r r' : RunRow}
    (h : RowStep c now e r r') : r'.tenantId = r.tenantId ∧ r'.workload = r.workload ∧
      r'.idempotencyKey = r.idempotencyKey ∧ r'.input = r.input := by
  cases h with
  | call call => cases call <;> exact ⟨rfl, rfl, rfl, rfl⟩
  | _ => exact ⟨rfl, rfl, rfl, rfl⟩

/-- The rows after a step: the old ones, each rewritten by one row step; an answer
speaks only of rows that are there. -/
def Rewrites (c : RetrySettings) (now : Time) (e : LeaseEvent) (run run' : RunTable) : Prop :=
  ∃ g : RunRow → RunRow, run'.rows = run.rows.map g ∧ (∀ r ∈ run.rows, RowStep c now e r (g r)) ∧
    ∀ id, e.concerns id → id ∈ run.keys

theorem Rewrites.of_rewrite {c : RetrySettings} {now : Time} {e : LeaseEvent} {run run' : RunTable}
    {p : RunRow → Prop} {_ : DecidablePred p} {f : RunRow → RunRow}
    (hrows : run'.rows = run.rows.map (Table.rewrite p f))
    (hset : ∀ r ∈ run.rows, p r → RowStep c now e r (f r))
    (htold : ∀ id, e.concerns id → ∃ r ∈ run.rows, r.id = id ∧ p r) :
    Rewrites c now e run run' := by
  refine ⟨Table.rewrite p f, hrows, ?_, ?_⟩
  · intro r hr
    unfold Table.rewrite
    split
    · exact hset r hr ‹_›
    · refine .same (fun hc => ?_)
      obtain ⟨r', hr', hid, hp⟩ := htold r.id hc
      rw [Table.eq_of_key hr' hr hid] at hp
      exact absurd hp ‹_›
  · intro id hc
    obtain ⟨r, hr, hid, -⟩ := htold id hc
    exact hid ▸ Table.key_mem_keys hr

theorem HolderCall.exec_eq (c : RetrySettings) (run : RunTable) (now : Time) (l : LeasedRun)
    (call : HolderCall) : ∃ _ : DecidablePred call.guard, ∃ hset,
      call.exec c run now l = fencedUpdate run l call.guard (call.set c now l) hset := by
  cases call with
  | heartbeat => exact ⟨fun r => inferInstanceAs (Decidable (_ = _)), fun _ => rfl, rfl⟩
  | complete => exact ⟨fun r => inferInstanceAs (Decidable (_ = _)), fun _ => rfl, rfl⟩
  | fail => exact ⟨fun r => inferInstanceAs (Decidable True), fun _ => rfl, rfl⟩
  | acknowledgeCancellation =>
    exact ⟨fun r => inferInstanceAs (Decidable (_ ≠ _)), fun _ => rfl, rfl⟩

/-- A fenced call answers true exactly when some row passes the fence, and a call
that answers false leaves the table as it is. -/
theorem fencedUpdate_spec (run : RunTable) (l : LeasedRun) (p : RunRow → Prop) [DecidablePred p]
    (set : RunRow → RunRow) (hset : ∀ r, (set r).id = r.id) :
    ((fencedUpdate run l p set hset).2 = true ↔ ∃ r ∈ run.rows, r.id = l.runId ∧ fenced l r ∧ p r) ∧
    ((fencedUpdate run l p set hset).2 = false → (fencedUpdate run l p set hset).1 = run) := by
  simp only [fencedUpdate]
  constructor
  · rw [Option.isSome_iff_exists]
    simp only [Table.updateKey_eq_some]
    constructor
    · intro ⟨_, r, hr, hid, hp, _⟩
      exact ⟨r, hr, hid, hp⟩
    · intro ⟨r, hr, hid, hp⟩
      exact ⟨_, r, hr, hid, hp, rfl⟩
  · intro h
    exact Table.updateKey_of_none (Option.not_isSome_iff_eq_none.mp (by simp [h]))

theorem nextRun_spec {run : RunTable} {now : Time} {tenant : Tenant} {workload : Option String}
    {locked : List Uuid} {r : RunRow} (h : nextRun run now tenant workload locked = some r) :
    r ∈ run.rows ∧ visible tenant r ∧ leasable now r := by
  have hmem := List.mem_of_mem_head? h
  rw [List.mem_insertionSort, nextRunCandidates, List.mem_filter, decide_eq_true_eq] at hmem
  exact ⟨hmem.1, hmem.2.1, hmem.2.2.1⟩

theorem acquire_rewrites (c : RetrySettings) (run : RunTable) (now : Time) (tenant : Tenant)
    (worker : String) (workload : Option String) (lease : Time) (locked : List Uuid) :
    Rewrites c now
      ((acquire run now tenant worker workload lease locked).2.elim .notAvailable .acquired)
      run (acquire run now tenant worker workload lease locked).1 := by
  simp only [acquire]
  cases hn : nextRun run now tenant workload locked with
  | none =>
    refine .of_rewrite rfl ?_ ?_
    · intro r _ hp
      cases hp
    · intro id hc
      cases hc
  | some n =>
    obtain ⟨hmem, hv, hl⟩ := nextRun_spec hn
    refine .of_rewrite rfl ?_ ?_
    · intro r hr hp
      have hrn : n = r := Table.eq_of_key hmem hr (Option.some.inj hp)
      subst hrn
      exact .lease tenant worker lease hv hl
    · intro id hc
      exact ⟨n, hmem, hc, rfl⟩

theorem acquireSpecific_rewrites (c : RetrySettings) (run : RunTable) (now : Time) (tenant : Tenant)
    (runId : Uuid) (worker : String) (lease : Time) :
    Rewrites c now
      ((acquireSpecific run now tenant runId worker lease).2.elim .notAvailable .acquired)
      run (acquireSpecific run now tenant runId worker lease).1 := by
  have hsome :=
    fun b => run.updateKey_eq_some (k := runId) (b := b)
      (p := fun r => visible tenant r ∧ leasable now r) (f := leaseRow now lease worker)
      (fun _ => rfl)
  simp only [acquireSpecific]
  cases hrow : (run.updateKey runId (fun r => visible tenant r ∧ leasable now r)
    (leaseRow now lease worker) (fun _ => rfl)).2 with
  | none =>
    refine .of_rewrite rfl ?_ ?_
    · intro r hr hp
      have h := (hsome _).mpr ⟨r, hr, hp.1, hp.2, rfl⟩
      rw [hrow] at h
      cases h
    · intro id hc
      cases hc
  | some b =>
    obtain ⟨a, ha, hid, hp, rfl⟩ := (hsome b).mp hrow
    refine .of_rewrite rfl ?_ ?_
    · intro r hr hq
      have har : a = r := Table.eq_of_key ha hr (hid.trans hq.1.symm)
      subst har
      exact .lease tenant worker lease hp.1 hp.2
    · intro id hc
      exact ⟨a, ha, hc, hid, hp⟩

theorem call_rewrites (c : RetrySettings) (run : RunTable) (now : Time) (l : LeasedRun)
    (call : HolderCall) :
    Rewrites c now (.answered l call (call.exec c run now l).2) run (call.exec c run now l).1 := by
  obtain ⟨hp, hset, heq⟩ := call.exec_eq c run now l
  obtain ⟨htrue, -⟩ := fencedUpdate_spec run l call.guard (call.set c now l) hset
  rw [heq]
  refine .of_rewrite rfl ?_ ?_
  · intro r hr ⟨hid, hf, hg⟩
    rw [htrue.mpr ⟨r, hr, hid, hf, hg⟩]
    exact .call call hid hf hg
  · intro id ⟨hheld, hid⟩
    obtain ⟨a, ha, hida, hfa⟩ := htrue.mp hheld
    exact ⟨a, ha, hida.trans hid, hida, hfa⟩

theorem reapExpired_rewrites (c : RetrySettings) (run : RunTable) (now grace : Time)
    (draw : Uuid → Draw) :
    Rewrites c now (.reaped (reapExpired c run now grace draw).2) run
      (reapExpired c run now grace draw).1 := by
  refine .of_rewrite rfl ?_ ?_
  · intro r hr hp
    refine .reap grace draw hp (List.mem_map_of_mem ?_) ?_
    · exact List.mem_filter.mpr ⟨hr, by simpa using hp⟩
    · intro x hx hid
      obtain ⟨a, ha, rfl⟩ := List.mem_map.mp hx
      have har : a = r := Table.eq_of_key (List.mem_filter.mp ha).1 hr hid
      rw [har]
  · intro id ⟨x, hx, hid⟩
    obtain ⟨a, ha, rfl⟩ := List.mem_map.mp hx
    obtain ⟨hmem, hexp⟩ := List.mem_filter.mp ha
    exact ⟨a, hmem, hid, by simpa using hexp⟩

theorem cancelRun_rewrites (c : RetrySettings) (run : RunTable) (now : Time) (ctx : RequestContext)
    (runId : Uuid) :
    Rewrites c now (.cancelled ((cancelRun run now ctx runId).2.map RunRow.id)) run
      (cancelRun run now ctx runId).1 := by
  have hsome := fun b => run.updateKey_eq_some (k := runId) (b := b)
    (p := fun r => visible ctx.tenant r ∧ cancellable r) (f := cancelRow now ctx.principal.id)
    (fun _ => rfl)
  refine .of_rewrite rfl ?_ ?_
  · intro r hr hq
    have hrow := (hsome _).mpr ⟨r, hr, hq.1, hq.2, rfl⟩
    rw [cancelRun, hrow]
    exact .cancel ctx.principal.id hq.2.2
  · intro id hc
    obtain ⟨b, hb, hid⟩ := Option.map_eq_some_iff.mp hc
    obtain ⟨a, ha, hka, hp, rfl⟩ := (hsome b).mp hb
    exact ⟨a, ha, hid, hka, hp⟩

/-- Everything a statement can do to the `run` table: add one fresh pending row, or
rewrite the rows one by one as its answer says. -/
theorem exec_rows {c : RetrySettings} {db db' : Store} {now : Time} {op : LeaseOp} {e : LeaseEvent}
    (h : exec c db now op = some (db', e)) :
    (∃ release trace q runId outboxId, op = .enqueueRun release trace q runId outboxId ∧
      e = .admitted runId true ∧ runId ∉ db.run.keys ∧
      db'.run.rows = db.run.rows ++ [newRun now release q runId]) ∨
    Rewrites c now e db.run db'.run := by
  cases op with
  | enqueueRun release trace q runId outboxId =>
    obtain ⟨⟨db'', id, created⟩, henq, hres⟩ := Option.map_eq_some_iff.mp h
    cases hres
    rcases enqueueRun_rows henq with ⟨rfl, rfl⟩ | ⟨rfl, rfl, hfresh, hrows⟩
    · exact Or.inr ⟨fun r => r, (List.map_id' _).symm, fun r _ => .same nofun, nofun⟩
    · exact Or.inl ⟨release, trace, q, id, outboxId, rfl, rfl, hfresh, hrows⟩
  | acquire tenant worker workload lease locked =>
    cases h
    exact Or.inr (acquire_rewrites c db.run now tenant worker workload lease locked)
  | acquireSpecific tenant runId worker lease =>
    cases h
    exact Or.inr (acquireSpecific_rewrites c db.run now tenant runId worker lease)
  | call l call =>
    cases h
    exact Or.inr (call_rewrites c db.run now l call)
  | reapExpired grace draw =>
    cases h
    exact Or.inr (reapExpired_rewrites c db.run now grace draw)
  | cancelRun ctx runId =>
    cases h
    exact Or.inr (cancelRun_rewrites c db.run now ctx runId)

theorem exec_call {c : RetrySettings} {db db' : Store} {now : Time} {l : LeasedRun}
    {call : HolderCall} {e : LeaseEvent} (h : exec c db now (.call l call) = some (db', e)) :
    e = .answered l call (call.exec c db.run now l).2 ∧
      db' = { db with run := (call.exec c db.run now l).1 } := by
  cases h
  exact ⟨rfl, rfl⟩

theorem acquisition_ne_answered (o : Option LeasedRun) {l : LeasedRun} {call : HolderCall}
    {held : Bool} : o.elim LeaseEvent.notAvailable .acquired ≠ .answered l call held := by
  cases o <;> nofun

/-- Only a holder call is answered as one. -/
theorem exec_answered {c : RetrySettings} {db db' : Store} {now : Time} {op : LeaseOp}
    {l : LeasedRun} {call : HolderCall} {held : Bool}
    (h : exec c db now op = some (db', .answered l call held)) : op = .call l call := by
  cases op with
  | enqueueRun release trace q runId outboxId =>
    obtain ⟨_, -, hres⟩ := Option.map_eq_some_iff.mp h
    cases hres
  | acquire tenant worker workload lease locked =>
    exact absurd (congrArg Prod.snd (Option.some.inj h)) (acquisition_ne_answered _)
  | acquireSpecific tenant runId worker lease =>
    exact absurd (congrArg Prod.snd (Option.some.inj h)) (acquisition_ne_answered _)
  | call l' call' =>
    cases h
    rfl
  | reapExpired grace draw => cases h
  | cancelRun ctx runId => cases h

/-- The leases handed out after a step. -/
theorem issued_snoc (log : LeaseLog) (e : LeaseEvent) :
    issued (log ++ [e]) = issued log ++ e.acquisition.toList := by
  cases e <;> simp [issued, LeaseEvent.acquisition]

end AgenticPlatform.Correctness
