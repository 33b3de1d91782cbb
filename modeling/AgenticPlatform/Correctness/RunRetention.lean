import AgenticPlatform.Correctness.LeaseSystem
import AgenticPlatform.Foundation.Pruning

/-!
# Runs under retention

The retention pass deletes runs that finished long ago, with the intents to publish them.
Clients, workers and reapers go on meanwhile. As long as no client comes back with the key of
a run that is gone, or to cancel one, every one of them is answered as if nothing had been
deleted.
-/
namespace AgenticPlatform.Correctness
open AgenticPlatform.Foundation AgenticPlatform.Identity AgenticPlatform.Db

/-! ## The pass -/

/-- WHERE of the DELETE from `run`; a NULL never compares. -/
def expiredRun (days : Nat) (now : Time) (r : RunRow) : Prop :=
  r.status.terminal = true ∧ ∃ finished ∈ r.finishedAt, finished < now - 86400 * days

instance (days : Nat) (now : Time) : DecidablePred (expiredRun days now) :=
  fun r => inferInstanceAs
    (Decidable (_ ∧ ∃ finished ∈ r.finishedAt, finished < now - 86400 * days))

def expiredRuns (days : Nat) (now : Time) (run : RunTable) : List RunRow :=
  run.rows.filter (fun r => expiredRun days now r)

/-- ON DELETE CASCADE. -/
def ofExpired (days : Nat) (now : Time) (run : RunTable) (o : OutboxRow) : Prop :=
  o.runId ∈ (expiredRuns days now run).map RunRow.id

instance (days : Nat) (now : Time) (run : RunTable) : DecidablePred (ofExpired days now run) :=
  fun _ => inferInstanceAs (Decidable (_ ∈ _))

/-- `platform_enforce_retention`, as far as it concerns the runs. -/
def deleteRuns (days : Nat) (now : Time) (db : Store) : Store :=
  ⟨db.run.deleteWhere (expiredRun days now), db.outbox.deleteWhere (ofExpired days now db.run)⟩

structure RetainedRuns where
  db : Store
  log : LeaseLog
  /-- The runs that are deleted, and the intents to publish them. -/
  gone : List RunRow
  goneOutbox : List Nat

def RetainedRuns.initial : RetainedRuns := ⟨Store.empty, [], [], []⟩

def RetainedRuns.goneIds (s : RetainedRuns) : List Uuid := s.gone.map RunRow.id

inductive RetainedAct where
  | lease (a : Time × LeaseOp)
  /-- A pass whose transaction began then. -/
  | retain (now : Time)

def RetainedAct.leaseAct : RetainedAct → Option (Time × LeaseOp)
  | .lease a => some a
  | .retain _ => none

def retainedRunStep (c : RetrySettings) (days : Nat) (s : RetainedRuns) :
    RetainedAct → Option RetainedRuns
  | .lease a => (leaseStep c ⟨s.db, s.log⟩ a).map (fun t => { s with db := t.db, log := t.log })
  | .retain now =>
    some
      { s with
        db := deleteRuns days now s.db
        gone := s.gone ++ expiredRuns days now s.db.run
        goneOutbox := s.goneOutbox ++
          (s.db.outbox.rows.filter (fun o => ofExpired days now s.db.run o)).map OutboxRow.id }

/-- The request carries the key of the run. -/
def sameKey (q : EnqueueRequest) (r : RunRow) : Prop :=
  r.tenantId = q.ctx.tenant.id ∧ q.key ≠ none ∧ r.idempotencyKey = q.key

instance (q : EnqueueRequest) (r : RunRow) : Decidable (sameKey q r) :=
  inferInstanceAs (Decidable (_ ∧ _ ∧ _))

/-- A new id is new, and nobody comes back for a run that is gone. -/
def Forgotten (s : RetainedRuns) : RetainedAct → Prop
  | .lease (_, .enqueueRun _ _ q runId outboxId) =>
    (∀ r ∈ s.gone, ¬ sameKey q r) ∧ runId ∉ s.goneIds ∧ outboxId ∉ s.goneOutbox
  | .lease (_, .cancelRun _ runId) => runId ∉ s.goneIds
  | _ => True

instance (s : RetainedRuns) : (a : RetainedAct) → Decidable (Forgotten s a)
  | .lease (_, .enqueueRun _ _ q runId outboxId) =>
    inferInstanceAs
      (Decidable ((∀ r ∈ s.gone, ¬ sameKey q r) ∧ runId ∉ s.goneIds ∧ outboxId ∉ s.goneOutbox))
  | .lease (_, .cancelRun _ runId) => inferInstanceAs (Decidable (runId ∉ s.goneIds))
  | .lease (_, .acquire ..) | .lease (_, .acquireSpecific ..) | .lease (_, .call ..) |
    .lease (_, .reapExpired ..)
  | .retain _ => isTrue trivial

/-! ## Beside the tables that keep everything -/

/-- What is missing are the finished runs that are gone. -/
structure Forgets (s : RetainedRuns) (whole : Store) : Prop where
  run : Pruned (fun r => r ∈ s.gone) s.goneIds s.db.run whole.run
  outbox : Pruned (fun o => o.runId ∈ s.goneIds) s.goneOutbox s.db.outbox whole.outbox
  finished : ∀ r ∈ s.gone, r.status.terminal = true

section
variable {s : RetainedRuns} {whole : Store} {c : RetrySettings} {now : Time} {db' : Store}
  {e : LeaseEvent}

theorem Forgets.not_pending (h : Forgets s whole) :
    ∀ r, r ∈ s.gone → r.status ≠ .pending ∧ r.status ≠ .leased := by
  intro r hr
  have hterminal := h.finished r hr
  constructor
  · intro hstatus
    rw [hstatus] at hterminal
    cases hterminal
  · intro hstatus
    rw [hstatus] at hterminal
    cases hterminal

theorem Forgets.not_leasable (h : Forgets s whole) : ∀ r, r ∈ s.gone → ∀ now, ¬ leasable now r :=
  fun r hr _ hleasable => (h.not_pending r hr).1 hleasable.1

/-- The runs change alike. -/
theorem Forgets.withRun (h : Forgets s whole) {kept run : RunTable}
    (hpruned : Pruned (fun r => r ∈ s.gone) s.goneIds kept run) :
    Forgets { s with db := { s.db with run := kept } } { whole with run := run } :=
  ⟨hpruned, h.outbox, h.finished⟩

/-! ### What a statement reads and writes -/

/-- The other store answers the same. -/
def Answers (c : RetrySettings) (s : RetainedRuns) (whole : Store) (now : Time) (op : LeaseOp)
    (db' : Store) (e : LeaseEvent) : Prop :=
  ∃ whole', exec c whole now op = some (whole', e) ∧ Forgets { s with db := db' } whole'

theorem runWithKey_eq (h : Forgets s whole) {q : EnqueueRequest}
    (hkey : ∀ r ∈ s.gone, ¬ sameKey q r) :
    runWithKey s.db.run q.ctx.tenant.id q.key = runWithKey whole.run q.ctx.tenant.id q.key :=
  h.run.find? (p := sameKey q) hkey

theorem answers_enqueueRun (h : Forgets s whole) {release : String} {trace : Json}
    {q : EnqueueRequest} {runId : Uuid} {outboxId : Nat} (hkey : ∀ r ∈ s.gone, ¬ sameKey q r)
    (hrun : runId ∉ s.goneIds) (hout : outboxId ∉ s.goneOutbox)
    (hexec : exec c s.db now (.enqueueRun release trace q runId outboxId) = some (db', e)) :
    Answers c s whole now (.enqueueRun release trace q runId outboxId) db' e := by
  have hfound := runWithKey_eq h hkey
  have hexisting : existingRun s.db.run q = existingRun whole.run q := by
    unfold existingRun
    rw [hfound]
  obtain ⟨⟨db, id, created⟩, henqueue, heq⟩ := Option.map_eq_some_iff.mp hexec
  cases heq
  have hgoal : ∀ whole',
      enqueueRun whole now release trace q runId outboxId = some (whole', id, created) →
      Forgets { s with db := db' } whole' →
      Answers c s whole now (.enqueueRun release trace q runId outboxId) db'
      (.admitted id created) := by
    intro whole' hwhole hforgets
    refine ⟨whole', ?_, hforgets⟩
    rw [exec, hwhole]
    rfl
  unfold enqueueRun at henqueue
  split at henqueue
  · rename_i found hfast
    cases henqueue
    refine hgoal whole ?_ h
    rw [enqueueRun, ← hexisting, hfast]
  · rename_i hfast
    unfold insertRun at henqueue
    split at henqueue
    · rename_i r hr
      cases henqueue
      refine hgoal whole ?_ h
      rw [enqueueRun, ← hexisting, hfast]
      simp only [insertRun, ← hfound, hr]
      rfl
    · rename_i hnone
      obtain ⟨⟨kept, id', inserted⟩, hinsert, hrest⟩ := Option.bind_eq_some_iff.mp henqueue
      obtain ⟨kept', hkept, heq⟩ := Option.map_eq_some_iff.mp hinsert
      cases heq
      obtain ⟨outbox, houtbox, heq⟩ := Option.bind_eq_some_iff.mp hrest
      cases heq
      obtain ⟨run, hrun', hpruned⟩ := h.run.tryInsert (a := newRun now release q runId) hrun hkept
      obtain ⟨out, hout', hprunedOut⟩ :=
        h.outbox.tryInsert (a := newOutbox now trace q runId outboxId) hout houtbox
      refine hgoal ⟨run, out⟩ ?_ ⟨hpruned, hprunedOut, h.finished⟩
      rw [enqueueRun, ← hexisting, hfast]
      simp only [insertRun, ← hfound, hnone, hrun', Option.map_some, Option.bind_eq_bind,
        Option.bind_some, if_true, hout']

theorem nextRun_eq (h : Forgets s whole) (tenant : Tenant) (workload : Option String)
    (locked : List Uuid) :
    nextRun s.db.run now tenant workload locked = nextRun whole.run now tenant workload locked := by
  unfold nextRun nextRunCandidates
  rw [h.run.filter (fun r hr hp => h.not_leasable r hr now hp.2.1)]

theorem nextRun_mem {run : RunTable} {tenant : Tenant} {workload : Option String}
    {locked : List Uuid} {r : RunRow} (h : nextRun run now tenant workload locked = some r) :
    r ∈ run.rows :=
  (List.mem_filter.mp ((List.mem_insertionSort _).mp (List.mem_of_head? h))).1

theorem answers_acquire (h : Forgets s whole) {tenant : Tenant} {worker : String}
    {workload : Option String} {lease : Time} {locked : List Uuid}
    (hexec : exec c s.db now (.acquire tenant worker workload lease locked) = some (db', e)) :
    Answers c s whole now (.acquire tenant worker workload lease locked) db' e := by
  cases hexec
  unfold Answers exec acquire
  rw [nextRun_eq h]
  refine ⟨_, rfl, h.withRun (h.run.updateWhere (f := leaseRow now lease worker) (fun _ => rfl) ?_)⟩
  intro r _ hnext hgone
  rw [← nextRun_eq h] at hnext
  obtain ⟨next, hsome, hid⟩ := Option.map_eq_some_iff.mp hnext
  exact absurd (hid ▸ hgone) (h.run.mem.mp (nextRun_mem hsome)).2

theorem answers_acquireSpecific (h : Forgets s whole) {tenant : Tenant} {runId : Uuid}
    {worker : String} {lease : Time}
    (hexec : exec c s.db now (.acquireSpecific tenant runId worker lease) = some (db', e)) :
    Answers c s whole now (.acquireSpecific tenant runId worker lease) db' e := by
  cases hexec
  obtain ⟨hrow, hpruned⟩ :=
    h.run.updateKey (k := runId) (p := fun r => visible tenant r ∧ leasable now r)
      (f := leaseRow now lease worker) (fun _ => rfl)
      (fun _ r hr hp => h.not_leasable r hr now hp.2)
  exact ⟨_, congrArg (fun row => some (_, (Option.map (leasedRun tenant now lease worker) row).elim
    LeaseEvent.notAvailable LeaseEvent.acquired)) hrow.symm, h.withRun hpruned⟩

theorem answers_fenced (h : Forgets s whole) (l : LeasedRun) (p : RunRow → Prop) [DecidablePred p]
    (set : RunRow → RunRow) (hset : ∀ r, (set r).id = r.id) :
    (fencedUpdate s.db.run l p set hset).2 = (fencedUpdate whole.run l p set hset).2 ∧
      Forgets { s with db := { s.db with run := (fencedUpdate s.db.run l p set hset).1 } }
      { whole with run := (fencedUpdate whole.run l p set hset).1 } := by
  obtain ⟨hrow, hpruned⟩ :=
    h.run.updateKey (k := l.runId) (p := fun r => fenced l r ∧ p r) (f := set) hset
      (fun _ r hr hp => (h.not_pending r hr).2 hp.1.2.1)
  exact ⟨congrArg Option.isSome hrow, h.withRun hpruned⟩

theorem answers_call (h : Forgets s whole) {l : LeasedRun} {call : HolderCall}
    (hexec : exec c s.db now (.call l call) = some (db', e)) :
    Answers c s whole now (.call l call) db' e := by
  cases hexec
  have hcall : (call.exec c s.db.run now l).2 = (call.exec c whole.run now l).2 ∧
      Forgets { s with db := { s.db with run := (call.exec c s.db.run now l).1 } }
        { whole with run := (call.exec c whole.run now l).1 } := by
    cases call with
    | heartbeat extend => exact answers_fenced h l _ _ _
    | complete result => exact answers_fenced h l _ _ _
    | fail error retryable retryAfter u => exact answers_fenced h l _ _ _
    | acknowledgeCancellation => exact answers_fenced h l _ _ _
  exact ⟨_, congrArg (fun held => some (_, LeaseEvent.answered l call held)) hcall.1.symm, hcall.2⟩

theorem answers_reapExpired (h : Forgets s whole) {grace : Time} {draw : Uuid → Draw}
    (hexec : exec c s.db now (.reapExpired grace draw) = some (db', e)) :
    Answers c s whole now (.reapExpired grace draw) db' e := by
  cases hexec
  have hleased : ∀ r, r ∈ s.gone → ¬ leaseExpired now grace r :=
    fun r hr hp => (h.not_pending r hr).2 hp.1
  unfold Answers exec reapExpired
  rw [h.run.filter hleased]
  exact ⟨_, rfl, h.withRun (h.run.updateWhere (f := reapRow c now draw) (fun _ => rfl)
    (fun r hr hp _ => absurd hp (hleased r hr)))⟩

theorem answers_cancelRun (h : Forgets s whole) {ctx : RequestContext} {runId : Uuid}
    (hrun : runId ∉ s.goneIds) (hexec : exec c s.db now (.cancelRun ctx runId) = some (db', e)) :
    Answers c s whole now (.cancelRun ctx runId) db' e := by
  cases hexec
  obtain ⟨hrow, hpruned⟩ :=
    h.run.updateKey (k := runId) (p := fun r => visible ctx.tenant r ∧ cancellable r)
      (f := cancelRow now ctx.principal.id) (fun _ => rfl) (fun hgone => absurd hgone hrun)
  exact ⟨_, congrArg (fun row => some (_, LeaseEvent.cancelled (Option.map RunRow.id row)))
    hrow.symm, h.withRun hpruned⟩

/-- Whatever is answered beside a pass, is answered without one. -/
theorem exec_answers (h : Forgets s whole) {op : LeaseOp}
    (hforgotten : Forgotten s (.lease (now, op))) (hexec : exec c s.db now op = some (db', e)) :
    Answers c s whole now op db' e := by
  cases op with
  | enqueueRun release trace q runId outboxId =>
    exact answers_enqueueRun h hforgotten.1 hforgotten.2.1 hforgotten.2.2 hexec
  | acquire tenant worker workload lease locked => exact answers_acquire h hexec
  | acquireSpecific tenant runId worker lease => exact answers_acquireSpecific h hexec
  | call l call => exact answers_call h hexec
  | reapExpired grace draw => exact answers_reapExpired h hexec
  | cancelRun ctx runId => exact answers_cancelRun h hforgotten hexec

theorem deleteRuns_forgets (h : Forgets s whole) (days : Nat) (now : Time) :
    Forgets
      { s with
        db := deleteRuns days now s.db
        gone := s.gone ++ expiredRuns days now s.db.run
        goneOutbox := s.goneOutbox ++
          (s.db.outbox.rows.filter (fun o => ofExpired days now s.db.run o)).map OutboxRow.id }
      whole where
  run := by
    have hclosed : Pruned (fun r => r ∈ s.gone ++ expiredRuns days now s.db.run) s.goneIds s.db.run
        whole.run :=
      h.run.imp (fun _ hr => List.mem_append_left _ hr)
    have hmore := hclosed.deleteWhere (p := expiredRun days now)
      (fun r hr hp => List.mem_append_right _ (List.mem_filter.mpr ⟨hr, decide_eq_true hp⟩))
    unfold RetainedRuns.goneIds at hmore ⊢
    rw [List.map_append]
    exact hmore
  outbox := by
    refine (h.outbox.imp ?_).deleteWhere ?_
    · intro o ho
      unfold RetainedRuns.goneIds at ho ⊢
      rw [List.map_append]
      exact List.mem_append_left _ ho
    · intro o _ ho
      unfold RetainedRuns.goneIds
      rw [List.map_append]
      exact List.mem_append_right _ ho
  finished := by
    intro r hr
    rcases List.mem_append.mp hr with hr | hr
    · exact h.finished r hr
    · exact (of_decide_eq_true (List.mem_filter.mp hr).2).1

/-! ## Every run -/

/-- The state of the leases where nothing is deleted. -/
def BesideRuns (s : RetainedRuns) (t : LeaseState) : Prop :=
  ∃ whole, t = ⟨whole, s.log⟩ ∧ Forgets s whole

theorem retainedRunStep_beside {days : Nat} {t : LeaseState} {a : RetainedAct} {s' : RetainedRuns}
    (h : BesideRuns s t) (hforgotten : Forgotten s a)
    (hstep : retainedRunStep c days s a = some s') :
    ∃ t', Reaches (leaseStep c) t a.leaseAct.toList t' ∧ BesideRuns s' t' := by
  obtain ⟨whole, rfl, hforgets⟩ := h
  cases a with
  | lease a =>
    obtain ⟨now, op⟩ := a
    obtain ⟨⟨db, log⟩, hlease, rfl⟩ := Option.map_eq_some_iff.mp hstep
    obtain ⟨e, hexec, hallowed, hlog⟩ := leaseStep_eq_some.mp hlease
    obtain ⟨whole', hwhole, hforgets'⟩ := exec_answers hforgets hforgotten hexec
    exact ⟨⟨whole', log⟩, reaches_single.mpr (leaseStep_eq_some.mpr ⟨e, hwhole, hallowed, hlog⟩),
      whole', rfl, hforgets'.run, hforgets'.outbox, hforgets'.finished⟩
  | retain now =>
    cases hstep
    exact ⟨_, .nil _ _, whole, rfl, deleteRuns_forgets hforgets days now⟩

/-- Under retention every statement is answered as where nothing is deleted, and what is missing
are runs that have finished, with the intents to publish them. -/
theorem run_retention_unseen {days : Nat} {acts : List RetainedAct} {t : RetainedRuns}
    (hrun : Reaches (restrict Forgotten (retainedRunStep c days)) .initial acts t) :
    ∃ whole, Reaches (leaseStep c) .initial (acts.filterMap RetainedAct.leaseAct) ⟨whole, t.log⟩ ∧
      Forgets t whole := by
  have hstart : BesideRuns .initial .initial :=
    ⟨Store.empty, rfl, .refl _ _, .refl _ _, fun _ h => absurd h List.not_mem_nil⟩
  obtain ⟨t', hrun', whole, rfl, hforgets⟩ :=
    hrun.simulated (fun _ _ _ _ hR hcond hstep => retainedRunStep_beside hR hcond hstep) hstart
  exact ⟨whole, hrun', hforgets⟩

end

/-! A run is deleted a hundred days later, while another one is leased. -/

def nightly (key : String) : EnqueueRequest := { sampleRequest with idempotencyKey := some key }

def nightlyLease : LeasedRun := ⟨10, sampleTenant, "echo", .emptyObj, 1, 3, "w1", 60⟩

def hundredDays : List RetainedAct :=
  [.lease (0, .enqueueRun "r1" .emptyObj (nightly "monday") 10 1),
    .lease (0, .acquireSpecific sampleTenant 10 "w1" 60),
    .lease (5, .call nightlyLease (.complete none)),
    .lease (8640000, .enqueueRun "r1" .emptyObj (nightly "tuesday") 11 2),
    .lease (8640000, .acquire sampleTenant "w2" none 60 []), .retain 8640010,
    .lease (8640020, .cancelRun sampleContext 11)]

theorem hundredDays_run :
    (hundredDays.foldlM (restrict Forgotten (retainedRunStep .default 90)) .initial).map
      (fun s => (s.goneIds, s.goneOutbox, s.db.run.keys, s.db.outbox.keys)) =
      some ([10], [1], [11], [2]) := by
  decide +kernel

theorem run_retention_unseen_hundredDays :
    ∃ (t : RetainedRuns) (whole : Store),
      (t.goneIds, t.goneOutbox, t.db.run.keys, t.db.outbox.keys) = ([10], [1], [11], [2]) ∧
      Reaches (leaseStep .default) .initial
      (hundredDays.filterMap RetainedAct.leaseAct) ⟨whole, t.log⟩ ∧
      Forgets t whole := by
  obtain ⟨t, hrun, hfacts⟩ := Option.map_eq_some_iff.mp hundredDays_run
  obtain ⟨whole, hwhole⟩ := run_retention_unseen hrun
  exact ⟨t, whole, hfacts, hwhole⟩

end AgenticPlatform.Correctness
