import AgenticPlatform.Correctness.Fencing
import AgenticPlatform.Worker.Runner

/-!
# What a body reports

The last statement of a body is fenced on its lease, and each ending has a condition of its
own beside the fence. Where the row is not as that ending takes it to be, nothing is written
and the body returns all the same. Up to that statement a body holds its lease or the reaper
has taken it.
-/
namespace AgenticPlatform.Worker
open AgenticPlatform.Foundation AgenticPlatform.Identity AgenticPlatform.Db
  AgenticPlatform.Correctness

/-! ## What is claimed of a return -/

def leasedTo (w : String) (r : RunRow) : Prop := r.status = .leased ∧ r.leasedBy = some w

/-- What an outcome says of the row, and of the lease. -/
def Reports (taken : Bool) (r : RunRow) : WorkOutcome → Prop
  | .noHandler | .needsReconciliation _ | .failed => r.status = .failed
  | .cancelled => r.status = .cancelled
  -- It will be tried again, or another worker is trying already.
  | .retry => r.status = .pending ∨ r.status = .leased
  | .leaseLost => taken = true
  | .succeeded result => r.status = .succeeded ∧ r.result = some result

/-- A body that returns in this step leaves its run to others, and its outcome agrees with
the row. -/
def ReturnsTruly (_ : WorkersState) (a : WorkersAct) (t : WorkersState) : Prop :=
  ∀ w b x o, a = .body w b → t.workers w = some x → x.phase = .returned o →
    ∃ r, t.db.run.get x.lease.runId = some r ∧ ¬ leasedTo w r ∧ Reports x.taken r o

/-! ## The condition -/

/-- The row as a terminal failure takes it to be. -/
def failsTruly (l : LeasedRun) (r : RunRow) : Prop :=
  if fenced l r then r.cancelRequestedAt = none else r.status = .failed

instance (l : LeasedRun) (r : RunRow) : Decidable (failsTruly l r) :=
  inferInstanceAs (Decidable (ite _ _ _))

/-- The row as a clause takes it to be. -/
def WorkError.settlesTruly (l : LeasedRun) (r : RunRow) : WorkError → Prop
  | .runCancelled => if fenced l r then r.cancelRequestedAt ≠ none else r.status = .cancelled
  | .transient .. =>
    if fenced l r then r.cancelRequestedAt = none ∧ l.attempt < l.maxAttempts
    else r.status = .pending ∨ r.status = .leased
  | .needsReconciliation .. | .other .. => failsTruly l r

instance (l : LeasedRun) (r : RunRow) : (e : WorkError) → Decidable (e.settlesTruly l r)
  | .runCancelled => inferInstanceAs (Decidable (ite _ _ _))
  | .transient .. => inferInstanceAs (Decidable (ite _ _ _))
  | .needsReconciliation .. | .other .. => inferInstanceAs (Decidable (failsTruly l r))

/-- No cancellation has come in between. -/
def completesTruly (l : LeasedRun) (r : RunRow) : Prop :=
  ¬ (fenced l r ∧ r.cancelRequestedAt ≠ none)

instance (l : LeasedRun) (r : RunRow) : Decidable (completesTruly l r) :=
  inferInstanceAs (Decidable (¬ _))

/-- What the last statement of a body finds. -/
def BodyPhase.settlesTruly (run : RunTable) (l : LeasedRun) : BodyPhase → Prop
  | .settling e true => ∀ r ∈ run.get l.runId, e.settlesTruly l r
  | .fencing _ => ∀ r ∈ run.get l.runId, completesTruly l r
  | _ => True

instance (run : RunTable) (l : LeasedRun) : (p : BodyPhase) → Decidable (p.settlesTruly run l)
  | .settling e true => inferInstanceAs (Decidable (∀ r ∈ run.get l.runId, e.settlesTruly l r))
  | .fencing _ => inferInstanceAs (Decidable (∀ r ∈ run.get l.runId, completesTruly l r))
  | .settling _ false | .leased | .starting | .entering | .working | .leaving _ | .beating _ |
    .caught _ => isTrue trivial
  | .completing _ | .completed _ | .returned _ | .raised => isTrue trivial

def endsTruly (env : WorkerEnv) (run : RunTable) (x : Execution) : BodyAct → Prop
  | .findHandler .. => x.lease.workload ∈ env.workloads ∨
    ∀ r ∈ run.get x.lease.runId, failsTruly x.lease r
  | .settle .. => x.phase.settlesTruly run x.lease
  | _ => True

instance (env : WorkerEnv) (run : RunTable) (x : Execution) :
    (a : BodyAct) → Decidable (endsTruly env run x a)
  | .findHandler .. => inferInstanceAs (Decidable (_ ∨ _))
  | .settle .. => inferInstanceAs (Decidable (x.phase.settlesTruly run x.lease))
  | .append _ | .cancellationPoint | .pointFails .. | .returns _ | .raises _ | .raiseIfLost =>
    isTrue trivial
  | .heartbeat .. | .die => isTrue trivial

def EndsTruly (env : WorkerEnv) (s : WorkersState) : WorkersAct → Prop
  | .body w a => ∀ x ∈ s.workers w, endsTruly env s.db.run x a
  | .statement .. | .acquire .. => True

instance (env : WorkerEnv) (s : WorkersState) : (a : WorkersAct) → Decidable (EndsTruly env s a)
  | .body w a => inferInstanceAs (Decidable (∀ x ∈ s.workers w, endsTruly env s.db.run x a))
  | .statement .. | .acquire .. => isTrue trivial

/-! ## One statement on the lease -/

section
variable {env : WorkerEnv} {db db' : Store} {now : Time} {l : LeasedRun} {r r' : RunRow} {u : Draw}

theorem fenced_iff (hv : visible l.tenant r) : fenced l r ↔ leasedTo l.leasedBy r :=
  ⟨And.right, fun h => ⟨hv, h⟩⟩

/-- It writes the row where the fence and its own condition let it, and else nothing. -/
theorem send_get (env : WorkerEnv) (now : Time) (call : HolderCall)
    (hr : db.run.get l.runId = some r) :
    (fenced l r ∧ call.guard r ∧ (send env db now l call).2 = true ∧
      (send env db now l call).1.run.get l.runId = some (call.set env.retry now l r)) ∨
      (¬ (fenced l r ∧ call.guard r) ∧ (send env db now l call).2 = false ∧
        (send env db now l call).1 = db) := by
  obtain ⟨hp, hset, heq⟩ := call.exec_eq env.retry db.run now l
  obtain ⟨hmem, hid⟩ := Table.get_eq_some.mp hr
  obtain ⟨htrue, hfalse⟩ := fencedUpdate_spec db.run l call.guard (call.set env.retry now l) hset
  simp only [send, heq]
  by_cases h : fenced l r ∧ call.guard r
  · refine Or.inl ⟨h.1, h.2, htrue.mpr ⟨r, hmem, hid, h⟩, ?_⟩
    simp only [fencedUpdate, Table.updateKey, Table.get_updateWhere, hr, Option.map_some]
    exact congrArg some (if_pos ⟨hid, h⟩)
  · have hnone : (fencedUpdate db.run l call.guard (call.set env.retry now l) hset).2 = false := by
      refine Bool.eq_false_iff.mpr ?_
      intro hheld
      obtain ⟨r', hmem', hid', hfenced⟩ := htrue.mp hheld
      cases Table.eq_of_key hmem' hmem (hid'.trans hid.symm)
      exact h hfenced
    refine Or.inr ⟨h, hnone, ?_⟩
    rw [hfalse hnone]

/-- What is true of the row after the statement. -/
theorem send_iff (call : HolderCall) (hr : db.run.get l.runId = some r) (P : RunRow → Prop) :
    (∃ r', (send env db now l call).1.run.get l.runId = some r' ∧ P r') ↔
      (fenced l r ∧ call.guard r → P (call.set env.retry now l r)) ∧
      (¬ (fenced l r ∧ call.guard r) → P r) := by
  rcases send_get env now call hr with ⟨hfenced, hguard, -, hget⟩ | ⟨hnot, -, hsame⟩
  · rw [hget]
    simp only [Option.some.injEq, exists_eq_left']
    exact ⟨fun h => ⟨fun _ => h, fun hn => absurd ⟨hfenced, hguard⟩ hn⟩,
      fun h => h.1 ⟨hfenced, hguard⟩⟩
  · rw [hsame, hr]
    simp only [Option.some.injEq, exists_eq_left']
    exact ⟨fun h => ⟨fun hy => absurd hy hnot, fun _ => h⟩, fun h => h.2 hnot⟩

/-- A failure that is not to be retried. -/
theorem fail_reports (env : WorkerEnv) (now : Time) (error : String)
    (hr : db.run.get l.runId = some r) (hv : visible l.tenant r) :
    (∃ r', (send env db now l (.fail error false none u)).1.run.get l.runId = some r' ∧
      ¬ leasedTo l.leasedBy r' ∧ r'.status = .failed) ↔
      failsTruly l r := by
  rw [send_iff _ hr, failsTruly]
  simp only [HolderCall.guard, and_true]
  by_cases hf : fenced l r
  · simp only [hf, forall_true_left, not_true_eq_false, false_implies, and_true, if_true]
    by_cases hrequested : r.cancelRequestedAt = none
    · simp [HolderCall.set, failRow, failTerminal, leasedTo, hrequested]
    · simp [HolderCall.set, failRow, failTerminal, leasedTo, hrequested]
  · have hnot : ¬ leasedTo l.leasedBy r := fun h => hf ((fenced_iff hv).mpr h)
    simp only [hf, false_implies, not_false_eq_true, forall_true_left, true_and, if_false, hnot]

theorem retry_reports (env : WorkerEnv) (now : Time) (error : String) (retryAfter : Option Time)
    (hr : db.run.get l.runId = some r) (hv : visible l.tenant r) :
    (∃ r', (send env db now l (.fail error true retryAfter u)).1.run.get l.runId = some r' ∧
      ¬ leasedTo l.leasedBy r' ∧ (r'.status = .pending ∨ r'.status = .leased)) ↔
      if fenced l r then r.cancelRequestedAt = none ∧ l.attempt < l.maxAttempts
      else r.status = .pending ∨ r.status = .leased := by
  rw [send_iff _ hr]
  simp only [HolderCall.guard, and_true]
  by_cases hf : fenced l r
  · simp only [hf, forall_true_left, not_true_eq_false, false_implies, and_true, if_true]
    by_cases hrequested : r.cancelRequestedAt = none
    · by_cases hattempt : l.attempt < l.maxAttempts
      · have hleft : ¬ l.maxAttempts ≤ l.attempt := Nat.not_le.mpr hattempt
        simp [HolderCall.set, failRow, failTerminal, leasedTo, hrequested, hattempt, hleft]
      · have hspent : l.maxAttempts ≤ l.attempt := Nat.not_lt.mp hattempt
        simp [HolderCall.set, failRow, failTerminal, leasedTo, hrequested, hattempt, hspent]
    · simp [HolderCall.set, failRow, leasedTo, hrequested]
  · have hnot : ¬ leasedTo l.leasedBy r := fun h => hf ((fenced_iff hv).mpr h)
    simp only [hf, false_implies, not_false_eq_true, forall_true_left, true_and, if_false, hnot]

theorem cancelled_reports (env : WorkerEnv) (now : Time) (hr : db.run.get l.runId = some r)
    (hv : visible l.tenant r) :
    (∃ r', (send env db now l .acknowledgeCancellation).1.run.get l.runId = some r' ∧
      ¬ leasedTo l.leasedBy r' ∧ r'.status = .cancelled) ↔
      if fenced l r then r.cancelRequestedAt ≠ none else r.status = .cancelled := by
  rw [send_iff _ hr]
  simp only [HolderCall.guard]
  by_cases hf : fenced l r
  · have hleased : leasedTo l.leasedBy r := (fenced_iff hv).mp hf
    by_cases hrequested : r.cancelRequestedAt = none
    · simp [hf, hrequested, hleased]
    · simp [hf, hrequested, HolderCall.set, cancelledRow, leasedTo]
  · have hnot : ¬ leasedTo l.leasedBy r := fun h => hf ((fenced_iff hv).mpr h)
    simp [hf, hnot]

/-- What a clause returns agrees with the row exactly where the row is as the clause takes
it to be. -/
theorem settles_reports (env : WorkerEnv) (now : Time) (e : WorkError) (taken : Bool)
    (hr : db.run.get l.runId = some r) (hv : visible l.tenant r) :
    (∃ r', (send env db now l (e.call u)).1.run.get l.runId = some r' ∧ ¬ leasedTo l.leasedBy r' ∧
      Reports taken r' e.outcome) ↔
      e.settlesTruly l r := by
  cases e with
  | runCancelled => exact cancelled_reports env now hr hv
  | needsReconciliation step message => exact fail_reports env now message hr hv
  | transient typeName message retryAfter => exact retry_reports env now message retryAfter hr hv
  | other typeName message => exact fail_reports env now (typeName ++ ": " ++ message) hr hv

end

/-! ## Up to the last statement -/

/-- The statement on the lease is still to come. -/
def BodyPhase.holding : BodyPhase → Prop
  | .completed _ | .returned _ | .raised => False
  | _ => True

/-- The row of a run and the body that executes it: the body holds the lease or the reaper
has taken the run, and where it has completed the run the row says so. -/
structure Execution.Follows (x : Execution) (r : RunRow) : Prop where
  owned : visible x.lease.tenant r
  kept : x.phase.holding → fenced x.lease r ∨ x.taken = true
  completed : ∀ result, x.phase = .completed result → r.status = .succeeded ∧ r.result = some result

/-- Every body follows the row of its run. -/
def WorkersInv (s : WorkersState) : Prop :=
  ∀ w x, s.workers w = some x → x.lease.leasedBy = w ∧ ∃ r, s.db.run.get x.lease.runId = some r ∧
    x.Follows r

section
variable {env : WorkerEnv} {c : RetrySettings} {db db' : Store} {now : Time} {e : LeaseEvent}
  {x x' : Execution} {r r' : RunRow}

@[simp] theorem Execution.observe_lease (e : LeaseEvent) (x : Execution) :
    (x.observe e).lease = x.lease := by
  cases e <;> rfl

@[simp] theorem Execution.observe_phase (e : LeaseEvent) (x : Execution) :
    (x.observe e).phase = x.phase := by
  cases e <;> rfl

theorem Execution.observe_taken (e : LeaseEvent) (h : x.taken = true) :
    (x.observe e).taken = true := by
  cases e with
  | reaped rows => simp [Execution.observe, h]
  | _ => exact h

/-- The answers that are not for this lease, or only prolong it. -/
def spares (l : LeasedRun) : LeaseEvent → Prop
  | .answered _ (.heartbeat _) _ => True
  | .answered l' _ _ => l'.leasedBy ≠ l.leasedBy
  | _ => True

/-- A row that another body or the reaper may have taken stays with its body, or is taken. -/
theorem Execution.Follows.rowStep (h : x.Follows r) (hstep : RowStep c now e r r')
    (hid : r.id = x.lease.runId) (hspares : spares x.lease e) : (x.observe e).Follows r' := by
  have howned : visible x.lease.tenant r' := hstep.request_eq.1.trans h.owned
  refine ⟨by rwa [Execution.observe_lease], ?_, ?_⟩
  · rw [Execution.observe_phase, Execution.observe_lease]
    intro hphase
    rcases h.kept hphase with hf | htaken
    · cases hstep with
      | same => exact Or.inl hf
      | lease tenant worker lease hv hl =>
        have hpending := hl.1
        rw [hf.2.1] at hpending
        cases hpending
      | @call _ l call hcall hf' hg =>
        have hsame : l.leasedBy = x.lease.leasedBy := Option.some.inj (hf'.2.2.symm.trans hf.2.2)
        cases call with
        | heartbeat extend => exact Or.inl hf
        | complete result => exact absurd hsame hspares
        | fail error retryable retryAfter u => exact absurd hsame hspares
        | acknowledgeCancellation => exact absurd hsame hspares
      | @reap _ rows grace draw hexpired hmem honly =>
        have hmine : ∃ y ∈ rows, y.runId = x.lease.runId := ⟨_, hmem, hid⟩
        exact Or.inr (Bool.or_eq_true_iff.mpr (Or.inr (decide_eq_true hmine)))
      | cancel by_ hcan =>
        have hleased : (cancelRow now by_ r).status = .leased := by simp [cancelRow, hf.2.1]
        exact Or.inl ⟨howned, hleased, hf.2.2⟩
    · exact Or.inr (Execution.observe_taken e htaken)
  · rw [Execution.observe_phase]
    intro result hphase
    obtain ⟨hdone, hresult⟩ := h.completed result hphase
    cases hstep with
    | same => exact ⟨hdone, hresult⟩
    | lease tenant worker lease hv hl => simp [leasable, hdone] at hl
    | call call hcall hf' hg => simp [fenced, hdone] at hf'
    | reap grace draw hexpired => simp [leaseExpired, hdone] at hexpired
    | cancel by_ hcan => simp [cancellable, hdone] at hcan

/-- What a statement makes of the row of a run. -/
theorem exec_get {op : LeaseOp} {id : Uuid} (h : exec c db now op = some (db', e))
    (hr : db.run.get id = some r) : ∃ r', db'.run.get id = some r' ∧ RowStep c now e r r' := by
  obtain ⟨hmem, hid⟩ := Table.get_eq_some.mp hr
  rcases exec_rows h with ⟨_, _, _, _, _, -, rfl, -, hrows⟩ | ⟨g, hrows, hstep, -⟩
  · refine ⟨r, Table.get_eq_some.mpr ⟨?_, hid⟩, .same nofun⟩
    rw [hrows]
    exact List.mem_append_left _ hmem
  · refine ⟨g r, Table.get_eq_some.mpr ⟨?_, (hstep r hmem).id_eq.trans hid⟩, hstep r hmem⟩
    rw [hrows]
    exact List.mem_map_of_mem hmem

theorem send_exec (env : WorkerEnv) (db : Store) (now : Time) (l : LeasedRun) (call : HolderCall) :
    exec env.retry db now (.call l call) =
      some ((send env db now l call).1, .answered l call (send env db now l call).2) :=
  rfl

/-- A statement that spares the lease. -/
theorem Execution.Follows.exec {op : LeaseOp} (h : x.Follows r)
    (hr : db.run.get x.lease.runId = some r) (hexec : Correctness.exec c db now op = some (db', e))
    (hspares : spares x.lease e) :
    ∃ r', db'.run.get x.lease.runId = some r' ∧ (x.observe e).Follows r' := by
  obtain ⟨r', hr', hstep⟩ := exec_get hexec hr
  exact ⟨r', hr', h.rowStep hstep (Table.get_eq_some.mp hr).2 hspares⟩

end

/-! ## What a step of a body does -/

/-- The step neither returns nor completes the run, and touches no table. -/
structure Quiet (x x' : Execution) : Prop where
  lease : x'.lease = x.lease
  taken : x'.taken = x.taken
  held : x'.phase.holding → x.phase.holding
  unreturned : ∀ o, x'.phase ≠ .returned o
  uncompleted : ∀ result, x'.phase ≠ .completed result

inductive BodyMove (env : WorkerEnv) (db : Store) (x : Execution) :
    BodyAct → Store → Execution → Prop
  | quiet {a : BodyAct} {x' : Execution} (h : Quiet x x') (hends : endsTruly env db.run x a) :
    BodyMove env db x a db x'
  | finished (result : Json) (ok : Bool) (hx : x.phase = .completed result) :
    BodyMove env db x (.append ok) db
      (x.append ok runSucceeded (.returned (.succeeded result)) .raised)
  | noHandler (now : Time) (u : Draw) (hx : x.phase = .leased)
    (hnone : x.lease.workload ∉ env.workloads) :
    BodyMove env db x (.findHandler now u) (send env db now x.lease (noHandlerCall env x.lease u)).1
      (x.goto (.returned .noHandler))
  | settled (now : Time) (u : Draw) (e : WorkError) (appended : Bool)
    (hx : x.phase = .settling e appended) :
    BodyMove env db x (.settle now u) (send env db now x.lease (e.call u)).1
      (x.goto (if appended then .returned e.outcome else .raised))
  | fenced (now : Time) (u : Draw) (result : Json) (hx : x.phase = .fencing result) :
    BodyMove env db x (.settle now u) (send env db now x.lease (.complete (some result))).1
      (x.goto (if (send env db now x.lease (.complete (some result))).2 then .completed result
        else .returned .leaseLost))
  | beaten (now extend : Time) (hx : ∀ o, x.phase ≠ .returned o) :
    BodyMove env db x (.heartbeat now extend) (send env db now x.lease (.heartbeat extend)).1
      { x with lost := !(send env db now x.lease (.heartbeat extend)).2 }

section
variable {env : WorkerEnv} {db db' : Store} {x x' : Execution} {a : BodyAct} {r : RunRow}
  {w : String}

theorem quiet_goto {p phase : BodyPhase} (hx : x.phase = p) (hp : p.holding)
    (hunreturned : ∀ o, phase ≠ .returned o) (huncompleted : ∀ result, phase ≠ .completed result) :
    Quiet x (x.goto phase) :=
  ⟨rfl, rfl, fun _ => hx ▸ hp, hunreturned, huncompleted⟩

theorem quiet_append {p next failed : BodyPhase} {ok : Bool} {checkpoint : Checkpoint}
    (hx : x.phase = p) (hp : p.holding) (hnext : ∀ o, next ≠ .returned o)
    (hnext' : ∀ result, next ≠ .completed result) (hfailed : ∀ o, failed ≠ .returned o)
    (hfailed' : ∀ result, failed ≠ .completed result) :
    Quiet x (x.append ok checkpoint next failed) := by
  unfold Execution.append
  cases ok with
  | true => exact ⟨rfl, rfl, fun _ => hx ▸ hp, hnext, hnext'⟩
  | false => exact quiet_goto hx hp hfailed hfailed'

theorem bodyStep_move (h : bodyStep env db x a = some (db', x')) : BodyMove env db x a db' x' := by
  cases a with
  | findHandler now u =>
    simp only [bodyStep] at h
    split at h
    · rename_i hx
      split at h
      · rename_i hregistered
        cases h
        exact .quiet (quiet_goto hx trivial nofun nofun) (Or.inl hregistered)
      · cases h
        exact .noHandler now u hx ‹_›
    · cases h
  | append ok =>
    simp only [bodyStep] at h
    split at h
    · rename_i hx
      cases h
      exact .quiet (quiet_append hx trivial nofun nofun nofun nofun) trivial
    · rename_i hx
      cases h
      exact .quiet (quiet_append hx trivial nofun nofun nofun nofun) trivial
    · rename_i hx
      cases h
      exact .quiet (quiet_append hx trivial nofun nofun nofun nofun) trivial
    · cases h
      exact .finished _ ok ‹_›
    · cases h
  | cancellationPoint =>
    simp only [bodyStep] at h
    split at h
    · rename_i hx
      cases h
      refine .quiet (quiet_goto hx trivial ?_ ?_) trivial
      · split <;> nofun
      · split <;> nofun
    · rename_i hx
      cases h
      refine .quiet (quiet_goto hx trivial ?_ ?_) trivial
      · split <;> nofun
      · split <;> nofun
    · cases h
  | pointFails typeName message =>
    simp only [bodyStep] at h
    split at h
    · rename_i hx
      cases h
      exact .quiet (quiet_goto hx trivial nofun nofun) trivial
    · rename_i hx
      cases h
      exact .quiet (quiet_goto hx trivial nofun nofun) trivial
    · cases h
  | returns result =>
    simp only [bodyStep] at h
    split at h
    · rename_i hx
      cases h
      exact .quiet (quiet_goto hx trivial nofun nofun) trivial
    · cases h
  | raises e =>
    simp only [bodyStep] at h
    split at h
    · rename_i hx
      cases h
      exact .quiet (quiet_goto hx trivial nofun nofun) trivial
    · cases h
  | raiseIfLost =>
    simp only [bodyStep] at h
    split at h
    · rename_i hx
      cases h
      refine .quiet (quiet_goto hx trivial ?_ ?_) trivial
      · split <;> nofun
      · split <;> nofun
    · cases h
  | settle now u =>
    simp only [bodyStep] at h
    split at h
    · cases h
      exact .settled now u _ _ ‹_›
    · cases h
      exact .fenced now u _ ‹_›
    · cases h
  | heartbeat now extend =>
    simp only [bodyStep] at h
    split at h
    · cases h
    · cases h
    · cases h
    · cases h
    · rename_i hreturned hraised
      split at h
      · cases h
      · cases h
        exact .beaten now extend hreturned
  | die =>
    simp only [bodyStep] at h
    split at h
    · cases h
    · cases h
    · cases h
      exact .quiet ⟨rfl, rfl, False.elim, nofun, nofun⟩ trivial

theorem bodyMove_store (h : BodyMove env db x a db' x') :
    db' = db ∨ ∃ now call, db' = (send env db now x.lease call).1 := by
  cases h with
  | quiet h hends => exact Or.inl rfl
  | finished result ok hx => exact Or.inl rfl
  | noHandler now u hx hnone => exact Or.inr ⟨now, _, rfl⟩
  | settled now u e appended hx => exact Or.inr ⟨now, _, rfl⟩
  | fenced now u result hx => exact Or.inr ⟨now, _, rfl⟩
  | beaten now extend hx => exact Or.inr ⟨now, _, rfl⟩

theorem bodyMove_lease (h : BodyMove env db x a db' x') : x'.lease = x.lease := by
  cases h with
  | quiet h hends => exact h.lease
  | finished result ok hx => cases ok <;> rfl
  | noHandler now u hx hnone => rfl
  | settled now u e appended hx => rfl
  | fenced now u result hx => rfl
  | beaten now extend hx => rfl

/-- A body that has ended follows any row of its tenant. -/
theorem follows_of_ended (howned : visible x.lease.tenant r) (hended : x.phase.ended = true) :
    x.Follows r := by
  refine ⟨howned, ?_, ?_⟩
  · intro hholds
    cases hphase : x.phase <;> simp [hphase, BodyPhase.holding, BodyPhase.ended] at hholds hended
  · intro result hphase
    simp [hphase, BodyPhase.ended] at hended

theorem bodyMove_follows (h : BodyMove env db x a db' x') (hx : x.Follows r)
    (hr : db.run.get x.lease.runId = some r) :
    ∃ r', db'.run.get x.lease.runId = some r' ∧ x'.Follows r' := by
  have howned := fun now call => exec_get (send_exec env db now x.lease call) hr
  cases h with
  | quiet hquiet hends =>
    refine ⟨r, hr, ?_, ?_, ?_⟩
    · exact hquiet.lease ▸ hx.owned
    · rw [hquiet.lease, hquiet.taken]
      exact fun hholds => hx.kept (hquiet.held hholds)
    · exact fun result hphase => absurd hphase (hquiet.uncompleted result)
  | finished result ok hphase =>
    refine ⟨r, hr, follows_of_ended ?_ ?_⟩
    · cases ok <;> exact hx.owned
    · cases ok <;> rfl
  | noHandler now u hphase hnone =>
    obtain ⟨r', hr', hstep⟩ := howned now (noHandlerCall env x.lease u)
    exact ⟨r', hr', follows_of_ended (hstep.request_eq.1.trans hx.owned) rfl⟩
  | settled now u e appended hphase =>
    obtain ⟨r', hr', hstep⟩ := howned now (e.call u)
    refine ⟨r', hr', follows_of_ended (hstep.request_eq.1.trans hx.owned) ?_⟩
    cases appended <;> rfl
  | fenced now u result hphase =>
    rcases send_get env now (.complete (some result)) hr with ⟨-, -, hheld, hget⟩ |
      ⟨-, hheld, hsame⟩
    · rw [hheld]
      refine ⟨_, hget, hx.owned, False.elim, ?_⟩
      intro result' hcompleted
      cases hcompleted
      exact ⟨rfl, rfl⟩
    · rw [hheld, hsame]
      exact ⟨r, hr, follows_of_ended hx.owned rfl⟩
  | beaten now extend hphase =>
    obtain ⟨r', hr', hfollows⟩ :=
      hx.exec hr (send_exec env db now x.lease (.heartbeat extend)) trivial
    exact ⟨r', hr', hfollows.owned, hfollows.kept, hfollows.completed⟩

/-- The statements of another worker spare the lease. -/
theorem Execution.Follows.sent {y : Execution} (h : x.Follows r)
    (hr : db.run.get x.lease.runId = some r) (now : Time) (call : HolderCall)
    (hother : y.lease.leasedBy ≠ x.lease.leasedBy) :
    ∃ r', (send env db now y.lease call).1.run.get x.lease.runId = some r' ∧ x.Follows r' := by
  refine h.exec hr (send_exec env db now y.lease call) ?_
  cases call with
  | heartbeat extend => trivial
  | complete result => exact hother
  | fail error retryable retryAfter u => exact hother
  | acknowledgeCancellation => exact hother

end

/-! ## Every run -/

section
variable {env : WorkerEnv} {s t : WorkersState} {w : String} {x : Execution}

theorem workersInv_initial (db : Store) : WorkersInv (.initial db) := by
  intro w x hx
  cases hx

theorem workersStep_body {a : BodyAct} (h : workersStep env s (.body w a) = some t) :
    ∃ x db' x', s.workers w = some x ∧ BodyMove env s.db x a db' x' ∧
      t = ⟨db', Function.update s.workers w (some x')⟩ := by
  simp only [workersStep] at h
  split at h
  · cases h
  · rename_i x hx
    obtain ⟨⟨db', x'⟩, hstep, rfl⟩ := Option.map_eq_some_iff.mp h
    exact ⟨x, db', x', hx, bodyStep_move hstep, rfl⟩

theorem outside_spares {c : RetrySettings} {db db' : Store} {now : Time} {op : LeaseOp}
    {e : LeaseEvent} (l : LeasedRun) (hop : outside op) (h : exec c db now op = some (db', e)) :
    spares l e := by
  cases e with
  | answered l' call held =>
    cases exec_answered h
    cases call with
    | heartbeat extend => trivial
    | complete result => exact hop.elim
    | fail error retryable retryAfter u => exact hop.elim
    | acknowledgeCancellation => exact hop.elim
  | _ => trivial

/-- The run a worker has just acquired. -/
theorem acquired_follows {c : RetrySettings} {db db' : Store} {now : Time} {op : LeaseOp}
    {l : LeasedRun} (h : exec c db now op = some (db', .acquired l)) :
    ∃ r, db'.run.get l.runId = some r ∧ Execution.Follows ⟨l, .leased, false, [], false⟩ r := by
  rcases exec_rows h with ⟨_, _, _, _, _, -, he, -⟩ | ⟨g, hrows, hstep, hconcerns⟩
  · cases he
  · obtain ⟨r, hr, hid⟩ := Table.mem_keys.mp (hconcerns l.runId rfl)
    have hmove := hstep r hr
    have hget : db'.run.get l.runId = some (g r) := by
      refine Table.get_eq_some.mpr ⟨?_, hmove.id_eq.trans hid⟩
      rw [hrows]
      exact List.mem_map_of_mem hr
    refine ⟨g r, hget, ?_⟩
    generalize g r = r' at hmove
    generalize he : LeaseEvent.acquired l = e at hmove
    cases hmove with
    | same hother => exact absurd (he ▸ hid.symm) hother
    | lease tenant worker lease hv hl =>
      cases he
      exact ⟨hv, fun _ => Or.inl ⟨hv, rfl, rfl⟩, nofun⟩
    | call call => cases he
    | reap grace draw => cases he
    | cancel by_ hcan => cases he

theorem workersInv_step (h : WorkersInv s) {a : WorkersAct} (hstep : workersStep env s a = some t) :
    WorkersInv t := by
  cases a with
  | statement now op =>
    simp only [workersStep] at hstep
    split at hstep
    · rename_i hop
      obtain ⟨⟨db', e⟩, hexec, rfl⟩ := Option.map_eq_some_iff.mp hstep
      intro w y hy
      obtain ⟨x, hx, rfl⟩ := Option.map_eq_some_iff.mp hy
      obtain ⟨hw, r, hr, hfollows⟩ := h w x hx
      rw [Execution.observe_lease]
      exact ⟨hw, hfollows.exec hr hexec (outside_spares x.lease hop hexec)⟩
    · cases hstep
  | acquire now op =>
    simp only [workersStep] at hstep
    split at hstep
    · rename_i db' l hexec
      split at hstep
      · cases hstep
        intro w x hx
        rcases update_cases hx with ⟨rfl, hsame⟩ | ⟨-, hx⟩
        · cases hsame
          exact ⟨rfl, acquired_follows hexec⟩
        · obtain ⟨hw, r, hr, hfollows⟩ := h w x hx
          exact ⟨hw, hfollows.exec hr hexec trivial⟩
      · cases hstep
    · cases hstep
  | body w a =>
    obtain ⟨x, db', x', hx, hmove, rfl⟩ := workersStep_body hstep
    obtain ⟨hw, r, hr, hfollows⟩ := h w x hx
    intro w' y hy
    rcases update_cases hy with ⟨rfl, hsame⟩ | ⟨hne, hy⟩
    · cases hsame
      rw [bodyMove_lease hmove]
      exact ⟨hw, bodyMove_follows hmove hfollows hr⟩
    · obtain ⟨hw', r', hr', hfollows'⟩ := h w' y hy
      have hother : x.lease.leasedBy ≠ y.lease.leasedBy := by
        rw [hw, hw']
        exact Ne.symm hne
      refine ⟨hw', ?_⟩
      rcases bodyMove_store hmove with rfl | ⟨now, call, rfl⟩
      · exact ⟨r', hr', hfollows'⟩
      · exact hfollows'.sent hr' now call hother

/-- A return is as claimed exactly where the last statement finds the row as its ending takes
it to be. -/
theorem bodyMove_returns {db db' : Store} {x' : Execution} {a : BodyAct} {r : RunRow}
    (h : BodyMove env db x a db' x') (hx : x.Follows r) (hr : db.run.get x.lease.runId = some r) :
    (∀ o, x'.phase = .returned o → ∃ r', db'.run.get x'.lease.runId = some r' ∧
      ¬ leasedTo x.lease.leasedBy r' ∧ Reports x'.taken r' o) ↔
      endsTruly env db.run x a := by
  cases h with
  | quiet hquiet hends =>
    exact ⟨fun _ => hends, fun _ o hphase => absurd hphase (hquiet.unreturned o)⟩
  | finished result ok hphase =>
    refine ⟨fun _ => trivial, ?_⟩
    intro _ o hreturned
    obtain ⟨hdone, hresult⟩ := hx.completed result hphase
    cases ok with
    | false => cases hreturned
    | true =>
      cases hreturned
      refine ⟨r, hr, ?_, hdone, hresult⟩
      rintro ⟨hleased, -⟩
      rw [hdone] at hleased
      cases hleased
  | noHandler now u hphase hnone =>
    have hends : endsTruly env db.run x (.findHandler now u) ↔ failsTruly x.lease r := by
      simp [endsTruly, hnone, hr]
    rw [hends, ← fail_reports env now (u := u)
      ("no handler for workload " ++ env.reprText x.lease.workload) hr hx.owned]
    constructor
    · exact fun hreturns => hreturns .noHandler rfl
    · intro hreports o ho
      cases ho
      exact hreports
  | settled now u e appended hphase =>
    cases appended with
    | false =>
      refine ⟨fun _ => ?_, fun _ o ho => by cases ho⟩
      simp only [endsTruly, hphase, BodyPhase.settlesTruly]
    | true =>
      have hends : endsTruly env db.run x (.settle now u) ↔ e.settlesTruly x.lease r := by
        simp [endsTruly, hphase, BodyPhase.settlesTruly, hr]
      rw [hends, ← settles_reports env now (u := u) e x.taken hr hx.owned]
      constructor
      · exact fun hreturns => hreturns e.outcome rfl
      · intro hreports o ho
        cases ho
        exact hreports
  | fenced now u result hphase =>
    have hends : endsTruly env db.run x (.settle now u) ↔ completesTruly x.lease r := by
      simp [endsTruly, hphase, BodyPhase.settlesTruly, hr]
    rw [hends, completesTruly]
    rcases send_get env now (.complete (some result)) hr with ⟨-, hguard, hheld, hget⟩ |
      ⟨hrefused, hheld, hsame⟩
    · rw [hheld]
      exact ⟨fun _ hcancelled => hcancelled.2 hguard, fun _ o ho => by cases ho⟩
    · rw [hheld, hsame]
      have hholds : x.phase.holding := by rw [hphase]; trivial
      constructor
      · rintro hreturns ⟨hfenced, -⟩
        obtain ⟨r', hr', hnot, -⟩ := hreturns .leaseLost rfl
        cases hr.symm.trans hr'
        exact hnot ((fenced_iff hx.owned).mp hfenced)
      · intro hcompletes o ho
        cases ho
        have hlost : ¬ fenced x.lease r := by
          intro hfenced
          exact hcompletes ⟨hfenced, fun hnone => hrefused ⟨hfenced, hnone⟩⟩
        exact ⟨r, hr, fun hleased => hlost ((fenced_iff hx.owned).mpr hleased),
          (hx.kept hholds).resolve_left hlost⟩
  | beaten now extend hphase => exact ⟨fun _ => trivial, fun _ o ho => absurd ho (hphase o)⟩

theorem returnsTruly_iff (h : WorkersInv s) {a : WorkersAct}
    (hstep : workersStep env s a = some t) : ReturnsTruly s a t ↔ EndsTruly env s a := by
  cases a with
  | statement now op => exact ⟨fun _ => trivial, fun _ w b x o hbody => by cases hbody⟩
  | acquire now op => exact ⟨fun _ => trivial, fun _ w b x o hbody => by cases hbody⟩
  | body w a =>
    obtain ⟨x, db', x', hx, hmove, rfl⟩ := workersStep_body hstep
    obtain ⟨hw, r, hr, hfollows⟩ := h w x hx
    have hends : EndsTruly env s (.body w a) ↔ endsTruly env s.db.run x a := by
      simp [EndsTruly, hx]
    rw [hends, ← bodyMove_returns hmove hfollows hr, hw]
    constructor
    · intro hreturns o ho
      exact hreturns w a x' o rfl (Function.update_self _ _ _) ho
    · rintro hreturns w' b y o hbody hy ho
      cases hbody
      cases (Function.update_self _ _ _).symm.trans hy
      exact hreturns o ho

/-- Whenever a body returns, its run is no longer leased by its worker and its outcome agrees
with the row, if and only if the last statement of every body finds the row as its ending
takes it to be. -/
theorem returns_truly_iff (env : WorkerEnv) (db : Store) (acts : List WorkersAct) (t : WorkersState)
    (hrun : Reaches (workersStep env) (.initial db) acts t) :
    EveryStep (workersStep env) ReturnsTruly (.initial db) acts ↔
      Reaches (restrict (EndsTruly env) (workersStep env)) (.initial db) acts t := by
  refine everyStep_iff_restrict ?_ ?_ (workersInv_initial db) hrun
  · intro s a t hs hstep
    exact workersInv_step hs hstep
  · intro s a t hs hstep
    exact returnsTruly_iff hs hstep

end

/-! A run up to its last statement, and the same with a cancellation in between. -/

def echoEnv : WorkerEnv where
  retry := .default
  workloads := ["echo"]
  reprText text := "'" ++ text ++ "'"
  uuidText := Nat.repr
  resultSha256 _ := ""

def echoRun : List WorkersAct :=
  [.statement 0 (.enqueueRun "r1" .emptyObj sampleRequest 10 1),
    .acquire 0 (.acquireSpecific sampleTenant 10 "w1" 60), .body "w1" (.findHandler 1 noJitter),
    .body "w1" (.append true), .body "w1" .cancellationPoint, .body "w1" (.returns .emptyObj),
    .body "w1" .cancellationPoint, .body "w1" .raiseIfLost, .body "w1" (.append true)]

def endedRun : List WorkersAct :=
  echoRun ++ [.body "w1" (.settle 2 noJitter), .body "w1" (.append true)]

def lateCancel : List WorkersAct := echoRun ++ [.statement 2 (.cancelRun sampleContext 10)]

theorem returns_truly_endedRun :
    EveryStep (workersStep echoEnv) ReturnsTruly (.initial Store.empty) endedRun := by
  have hsome : (endedRun.foldlM (restrict (EndsTruly echoEnv) (workersStep echoEnv))
      (.initial Store.empty)).isSome =
      true := by
    decide +kernel
  have hrun := reaches_get hsome
  exact (returns_truly_iff echoEnv Store.empty endedRun _ hrun.of_restrict).mpr hrun

def BodyPhase.outcome : BodyPhase → Option WorkOutcome
  | .returned o => some o
  | _ => none

theorem BodyPhase.outcome_eq_some {p : BodyPhase} {o : WorkOutcome} (h : p.outcome = some o) :
    p = .returned o := by
  cases p <;> simp_all [BodyPhase.outcome]

def lateRun : List WorkersAct := lateCancel ++ [.body "w1" (.settle 3 noJitter)]

/-- What is to be seen where the late run ends. -/
def lateEnd (t : WorkersState) : Prop :=
  (t.workers "w1").map (fun x => (x.lease.runId, x.phase.outcome)) = some (10, some .leaseLost) ∧
    ∃ r ∈ t.db.run.get 10, r.status = .leased ∧ r.leasedBy = some "w1"

instance (t : WorkersState) : Decidable (lateEnd t) := inferInstanceAs (Decidable (_ ∧ _))

/-- A cancellation comes in before the last statement: the body says that its lease is lost,
and holds it. -/
theorem late_cancellation_misreported :
    ∃ t x r, Reaches (workersStep echoEnv) (.initial Store.empty) lateRun t ∧
      t.workers "w1" = some x ∧ x.phase = .returned .leaseLost ∧
      t.db.run.get x.lease.runId = some r ∧ leasedTo "w1" r ∧
      ¬ EveryStep (workersStep echoEnv) ReturnsTruly (.initial Store.empty) lateRun := by
  have hend : (lateRun.foldlM (workersStep echoEnv) (.initial Store.empty)).any
      (fun t => decide (lateEnd t)) =
      true := by
    decide +kernel
  obtain ⟨t, hrun, hlate⟩ := (Option.any_eq_true _ _).mp hend
  obtain ⟨hworker, r, hr, hleased⟩ := of_decide_eq_true hlate
  obtain ⟨x, hx, hfields⟩ := Option.map_eq_some_iff.mp hworker
  have hid : x.lease.runId = 10 := congrArg Prod.fst hfields
  have hphase : x.phase = .returned .leaseLost :=
    BodyPhase.outcome_eq_some (congrArg Prod.snd hfields)
  have hget : t.db.run.get x.lease.runId = some r := by rw [hid]; exact hr
  refine ⟨t, x, r, hrun, hx, hphase, hget, hleased, ?_⟩
  intro hevery
  obtain ⟨m, hm, hlast⟩ := reaches_snoc.mp hrun
  obtain ⟨r', hr', hnot, -⟩ :=
    hevery lateCancel _ [] m t rfl hm hlast "w1" _ x .leaseLost rfl hx hphase
  cases hget.symm.trans hr'
  exact hnot hleased

end AgenticPlatform.Worker
