import AgenticPlatform.Correctness.RunLifecycle
import AgenticPlatform.Onboarding.DraftedRuns

/-!
# Attempts of a drafting run

An exception in the drafting itself marks the session failed before the worker decides
whether the run is retried. A retry drafts sessions that are being drafted, and nothing
else.
-/
namespace AgenticPlatform.Onboarding
open AgenticPlatform.Foundation AgenticPlatform.Identity AgenticPlatform.Db
  AgenticPlatform.Correctness

/-! ## What a lease statement does to a run -/

section
variable {c : RetrySettings} {now : Time} {e : LeaseEvent} {r r' : RunRow} {l : LeasedRun}

theorem terminal_rowStep (h : RowStep c now e r r') (hterminal : r.status.terminal = true) :
    r'.status.terminal = true := by
  rw [((outlives_rowStep h).2 hterminal).1]
  exact hterminal

/-- A lease that is lost stays lost, unless its worker leases the run again. -/
theorem fenced_rowStep (h : RowStep c now e r r')
    (hworker : ∀ l', e = .acquired l' → l'.leasedBy ≠ l.leasedBy) (hfenced : fenced l r') :
    fenced l r ∧ r'.attempt = r.attempt ∧ r'.maxAttempts = r.maxAttempts := by
  cases h with
  | same => exact ⟨hfenced, rfl, rfl⟩
  | lease tenant worker lease hv hl => exact absurd (Option.some.inj hfenced.2.2) (hworker _ rfl)
  | call call hid hf hg =>
    cases call with
    | heartbeat extend => exact ⟨hfenced, rfl, rfl⟩
    | complete result => cases hfenced.2.2
    | fail error retryable retryAfter u => cases hfenced.2.2
    | acknowledgeCancellation => cases hfenced.2.2
  | reap => cases hfenced.2.2
  | cancel by_ hc =>
    refine ⟨⟨hfenced.1, ?_, hfenced.2.2⟩, rfl, rfl⟩
    have hstatus := hfenced.2.1
    by_cases hpending : r.status = .pending
    · rw [cancelRow, if_pos hpending] at hstatus
      cases hstatus
    · rwa [cancelRow, if_neg hpending] at hstatus

/-- Only its holder completes a run. -/
theorem succeeded_rowStep (h : RowStep c now e r r') (hsucceeded : r'.status = .succeeded) :
    r.status = .succeeded ∨ ∃ l result, e = .answered l (.complete result) true ∧ r.id = l.runId ∧
      fenced l r := by
  cases h with
  | same => exact Or.inl hsucceeded
  | lease tenant worker lease hv hl => cases hsucceeded
  | call call hid hf hg =>
    cases call with
    | heartbeat extend => exact Or.inl hsucceeded
    | complete result => exact Or.inr ⟨_, result, rfl, hid, hf⟩
    | fail error retryable retryAfter u =>
      simp only [HolderCall.set, failRow] at hsucceeded
      split at hsucceeded
      · cases hsucceeded
      · split at hsucceeded
        · cases hsucceeded
        · cases hsucceeded
    | acknowledgeCancellation => cases hsucceeded
  | reap =>
    simp only [reapRow] at hsucceeded
    split at hsucceeded
    · cases hsucceeded
    · split at hsucceeded
      · cases hsucceeded
      · cases hsucceeded
  | cancel by_ hc =>
    simp only [cancelRow] at hsucceeded
    split at hsucceeded
    · cases hsucceeded
    · exact Or.inl hsucceeded

/-- A run under lease stays so, unless its holder or the reaper ends the lease. -/
theorem held_rowStep (h : RowStep c now e r r') (hfenced : fenced l r) :
    (fenced l r' ∧ (r.cancelRequestedAt ≠ none → r'.cancelRequestedAt ≠ none)) ∨
      (∃ l' call, e = .answered l' call true ∧ r.id = l'.runId ∧
        fenced l' r ∧ ∀ extend, call ≠ .heartbeat extend) ∨
      ∃ rows, e = .reaped rows := by
  cases h with
  | same => exact Or.inl ⟨hfenced, id⟩
  | lease tenant worker lease hv hl =>
    have hpending := hl.1
    rw [hfenced.2.1] at hpending
    cases hpending
  | call call hid hf hg =>
    cases call with
    | heartbeat extend => exact Or.inl ⟨hfenced, id⟩
    | complete result => exact Or.inr (Or.inl ⟨_, _, rfl, hid, hf, nofun⟩)
    | fail error retryable retryAfter u => exact Or.inr (Or.inl ⟨_, _, rfl, hid, hf, nofun⟩)
    | acknowledgeCancellation => exact Or.inr (Or.inl ⟨_, _, rfl, hid, hf, nofun⟩)
  | reap => exact Or.inr (Or.inr ⟨_, rfl⟩)
  | cancel by_ hc =>
    refine Or.inl ⟨⟨hfenced.1, ?_, hfenced.2.2⟩, fun _ => nofun⟩
    have hstatus : r.status ≠ .pending := by
      rw [hfenced.2.1]
      decide
    exact (if_neg hstatus).trans hfenced.2.1

theorem answered_rowStep {call : HolderCall} (h : RowStep c now (.answered l call true) r r')
    (hid : r.id = l.runId) : r' = call.set c now l r := by
  cases h with
  | same hconcerns => exact absurd ⟨rfl, hid.symm⟩ hconcerns
  | call => rfl

theorem acquired_rowStep (h : RowStep c now (.acquired l) r r') (hid : r.id = l.runId) :
    l.input = r.input ∧ l.workload = r.workload ∧ r'.attempt = l.attempt ∧
      r'.maxAttempts = l.maxAttempts := by
  cases h with
  | same hconcerns => exact absurd hid.symm hconcerns
  | lease tenant worker lease hv hl => exact ⟨rfl, rfl, rfl, rfl⟩

end

/-! ## The condition -/

/-- The run has taken the session out of 'drafting', or found its corpus empty, or a user
has moved the session on. -/
def Excused (journal : List DraftEvent) (runId sessionId : Uuid) : Prop :=
  .ready runId sessionId ∈ journal ∨ .emptied runId sessionId ∈ journal ∨ .moved sessionId ∈ journal

instance (journal : List DraftEvent) (runId sessionId : Uuid) :
    Decidable (Excused journal runId sessionId) :=
  inferInstanceAs (Decidable (_ ∨ _ ∨ _))

/-- The worker's last call ends the run. -/
def Raised.ends (e : Raised) (l : LeasedRun) (r : RunRow) : Prop :=
  match e.kind with
  | .cancelled => r.cancelRequestedAt ≠ none
  | .needsReconciliation | .other => True
  | .transient _ => l.maxAttempts ≤ l.attempt

instance (e : Raised) (l : LeasedRun) (r : RunRow) : Decidable (e.ends l r) := by
  unfold Raised.ends
  split
  · infer_instance
  · infer_instance
  · infer_instance
  · infer_instance

def ExecPhase.isFailing : ExecPhase → Bool
  | .failing _ _ => true
  | _ => false

/-- The run is over. -/
def DraftingState.over (s : DraftingState) (l : LeasedRun) : Prop :=
  ∃ r ∈ s.store.run.rows, r.id = l.runId ∧ r.status.terminal = true

instance (s : DraftingState) (l : LeasedRun) : Decidable (s.over l) :=
  inferInstanceAs (Decidable (∃ r ∈ s.store.run.rows, _))

/-- The lease is held, and the worker's last call will end the run. -/
def DraftingState.final (s : DraftingState) (l : LeasedRun) (e : Raised) : Prop :=
  ∃ r ∈ s.store.run.rows, r.id = l.runId ∧ fenced l r ∧ e.ends l r

instance (s : DraftingState) (l : LeasedRun) (e : Raised) : Decidable (s.final l e) :=
  inferInstanceAs (Decidable (∃ r ∈ s.store.run.rows, _))

/-- The handler marks a session failed only where the run ends with this attempt, and the
attempt comes to its end. -/
def retrySafe (s : DraftingState) : DraftingAct → Prop
  | .except worker e _ => ∀ x ∈ s.execs.get worker, s.over x.lease ∨ s.final x.lease e
  | .crash worker => ∀ x ∈ s.execs.get worker, x.phase.isFailing = true → s.over x.lease
  | .work now (.reapExpired grace _) => ∀ x ∈ s.execs.rows, x.phase.isFailing = true →
    ∀ r ∈ s.store.run.rows, r.id = x.lease.runId → ¬ leaseExpired now grace r
  | _ => True

instance (s : DraftingState) : (a : DraftingAct) → Decidable (retrySafe s a)
  | .except worker _ _ => inferInstanceAs (Decidable (∀ x ∈ s.execs.get worker, _))
  | .crash worker => inferInstanceAs (Decidable (∀ x ∈ s.execs.get worker, _))
  | .work _ (.reapExpired _ _) =>
    inferInstanceAs (Decidable (∀ x ∈ s.execs.rows, _ → ∀ r ∈ s.store.run.rows, _ → _))
  | .work _ (.enqueueRun ..) | .work _ (.acquire ..) | .work _ (.acquireSpecific ..) |
    .work _ (.call ..)
  | .work _ (.cancelRun ..) | .start .. | .decide .. | .acquire .. | .enter _ | .raise .. |
    .empty .. | .progress ..
  | .ready .. | .settle .. => isTrue trivial

/-! ## Runs, sessions and executions -/

def ExecPhase.sessionId : ExecPhase → Option Uuid
  | .drafting id | .trying id | .failing id _ => some id
  | .leased | .raised _ | .returned _ => none

def ExecPhase.isReturned : ExecPhase → Bool
  | .returned _ => true
  | _ => false

/-- The lease is not in force. -/
def Lost (run : RunTable) (l : LeasedRun) : Prop := ∀ r ∈ run.rows, r.id = l.runId → ¬ fenced l r

/-- An attempt that ends the run has marked the session. -/
def Marks (s : DraftingState) (r : RunRow) (sessionId : Uuid) (x : Execution) : Prop :=
  x ∈ s.execs.rows ∧ x.lease.runId = r.id ∧ fenced x.lease r ∧ ∃ e, x.phase = .failing sessionId e ∧
    e.ends x.lease r

structure RetryInv (env : DraftingEnv) (s : DraftingState) : Prop where
  /-- An onboarding run is for one session of the tenant. -/
  named : ∀ r ∈ s.store.run.rows, r.workload = workload →
    r.tenantId = env.tenant.id ∧ ∃ id, sessionIdOf env r.input = some id ∧ id ∈ s.db.sessions.keys
  /-- A session is drafted by one run. -/
  single : ∀ r ∈ s.store.run.rows, ∀ r' ∈ s.store.run.rows, r.workload = workload →
    r'.workload = workload → sessionIdOf env r.input = sessionIdOf env r'.input → r.id = r'.id
  leases : ∀ x ∈ s.execs.rows, ∃ r ∈ s.store.run.rows, r.id = x.lease.runId ∧
    r.workload = workload ∧ r.input = x.lease.input ∧
    (fenced x.lease r → r.attempt = x.lease.attempt ∧ r.maxAttempts = x.lease.maxAttempts)
  phases : ∀ x ∈ s.execs.rows, ∀ id ∈ x.phase.sessionId, sessionIdOf env x.lease.input = some id
  /-- A session is still being drafted, or there is a reason. -/
  marked : ∀ r ∈ s.store.run.rows, r.workload = workload → ∀ id, sessionIdOf env r.input = some id →
    Excused s.journal r.id id ∨ s.db.statusOf id = some .drafting ∨ r.status.terminal = true ∨
    ∃ x, Marks s r id x
  returned : ∀ x ∈ s.execs.rows, x.phase.isReturned = true →
    ∀ id, sessionIdOf env x.lease.input = some id → Excused s.journal x.lease.runId id ∨
    Lost s.store.run x.lease
  succeeded : ∀ r ∈ s.store.run.rows, r.workload = workload → r.status = .succeeded →
    ∀ id, sessionIdOf env r.input = some id → Excused s.journal r.id id

theorem retryInv_initial (env : DraftingEnv) : RetryInv env .initial := by
  have hruns : ∀ r, r ∉ DraftingState.initial.store.run.rows := fun r hr => by cases hr
  have hexecs : ∀ x, x ∉ DraftingState.initial.execs.rows := fun x hx => by cases hx
  constructor
  · exact fun r hr => absurd hr (hruns r)
  · exact fun r hr => absurd hr (hruns r)
  · exact fun x hx => absurd hx (hexecs x)
  · exact fun x hx => absurd hx (hexecs x)
  · exact fun r hr => absurd hr (hruns r)
  · exact fun x hx => absurd hx (hexecs x)
  · exact fun r hr => absurd hr (hruns r)

section
variable {env : DraftingEnv} {s t : DraftingState} {a : DraftingAct}

theorem Excused.mono {journal journal' : List DraftEvent} {runId sessionId : Uuid}
    (h : Excused journal runId sessionId) (hsub : journal ⊆ journal') :
    Excused journal' runId sessionId :=
  h.imp (fun h => hsub h) (fun h => h.imp (fun h => hsub h) (fun h => hsub h))

/-- Two executions that hold one run are one. -/
theorem exec_of_fenced {x y : Execution} {r : RunRow} (hx : x ∈ s.execs.rows)
    (hy : y ∈ s.execs.rows) (hxr : fenced x.lease r) (hyr : fenced y.lease r) : x = y :=
  Table.eq_of_key hx hy (Option.some.inj (hxr.2.2.symm.trans hyr.2.2))

/-- What an attempt that holds its lease finds. -/
theorem drafting_of_held (hs : RetryInv env s) {x : Execution} {r : RunRow} {id : Uuid}
    (hx : x ∈ s.execs.rows) (hr : r ∈ s.store.run.rows) (hworkload : r.workload = workload)
    (hfenced : fenced x.lease r) (hphase : x.phase.isFailing = false)
    (hinput : sessionIdOf env r.input = some id) (hexcused : ¬ Excused s.journal r.id id) :
    s.db.statusOf id = some .drafting := by
  rcases hs.marked r hr hworkload id hinput with h | h | h | ⟨y, hy, -, hyr, e, hfailing, -⟩
  · exact absurd h hexcused
  · exact h
  · rw [hfenced.2.1] at h
    cases h
  · cases exec_of_fenced hx hy hfenced hyr
    rw [hfailing] at hphase
    cases hphase

/-- The run of an execution. -/
theorem run_of_exec (hs : RetryInv env s) {x : Execution} {r : RunRow} (hx : x ∈ s.execs.rows)
    (hr : r ∈ s.store.run.rows) (hid : r.id = x.lease.runId) :
    r.workload = workload ∧ r.input = x.lease.input := by
  obtain ⟨r₀, hr₀, hid₀, hworkload, hinput, -⟩ := hs.leases x hx
  cases Table.eq_of_key hr₀ hr (hid₀.trans hid.symm)
  exact ⟨hworkload, hinput⟩

/-! ## Steps of the runs -/

/-- Every run goes on by row steps; no onboarding run is new. -/
structure RunsMove (c : RetrySettings) (now : Time) (e : LeaseEvent) (run run' : RunTable) :
    Prop where
  old : ∀ r' ∈ run'.rows, r'.workload = workload → ∃ r ∈ run.rows, RowStep c now e r r'
  kept : ∀ r ∈ run.rows, ∃ r' ∈ run'.rows, RowStep c now e r r'

theorem runsMove_of_exec {c : RetrySettings} {db db' : Correctness.Store} {now : Time}
    {op : LeaseOp} {e : LeaseEvent} (h : exec c db now op = some (db', e))
    (hop : ∀ release trace q runId outboxId, op = .enqueueRun release trace q runId outboxId →
      q.workload ≠ workload) : RunsMove c now e db.run db'.run := by
  rcases exec_rows h with ⟨release, trace, q, runId, outboxId, hq, rfl, -, hrows⟩ |
    ⟨g, hrows, hg, -⟩
  · constructor
    · intro r' hr' hworkload
      rw [hrows] at hr'
      rcases List.mem_append.mp hr' with hr' | hr'
      · exact ⟨r', hr', .same nofun⟩
      · cases List.mem_singleton.mp hr'
        exact absurd hworkload (hop _ _ _ _ _ hq)
    · intro r hr
      exact ⟨r, by rw [hrows]; exact List.mem_append_left _ hr, .same nofun⟩
  · constructor
    · intro r' hr' _
      rw [hrows] at hr'
      obtain ⟨r, hr, rfl⟩ := List.mem_map.mp hr'
      exact ⟨r, hr, hg r hr⟩
    · intro r hr
      exact ⟨g r, by rw [hrows]; exact List.mem_map_of_mem hr, hg r hr⟩

theorem RunsMove.refl (c : RetrySettings) (now : Time) (run : RunTable) :
    RunsMove c now .notAvailable run run where
  old := fun r' hr' _ => ⟨r', hr', .same nofun⟩
  kept := fun r hr => ⟨r, hr, .same nofun⟩

/-- A statement on the runs keeps the invariant where what marks a session stays, or ends
its run. -/
theorem retryInv_runs (hs : RetryInv env s) {c : RetrySettings} {now : Time} {e : LeaseEvent}
    (hruns : RunsMove c now e s.store.run t.store.run) (hdb : t.db = s.db)
    (hjournal : t.journal = s.journal) (hworker : ∀ l, e = .acquired l → l.leasedBy ∉ s.execs.keys)
    (hexecs : ∀ x ∈ t.execs.rows, x ∈ s.execs.rows ∨ x.phase = .leased ∧ e = .acquired x.lease ∧
      x.lease.workload = workload ∧ x.lease.runId ∈ s.store.run.keys)
    (hmarks : ∀ r ∈ s.store.run.rows, r.workload = workload → ∀ r' ∈ t.store.run.rows,
      RowStep c now e r r' → ∀ id x, Marks s r id x → r'.status.terminal = true ∨ Marks t r' id x)
    (hdone : ∀ l result, e = .answered l (.complete result) true →
      ∀ r ∈ s.store.run.rows, r.workload = workload → r.id = l.runId → fenced l r →
      ∀ id, sessionIdOf env r.input = some id → Excused s.journal r.id id) : RetryInv env t := by
  have hfence : ∀ x ∈ s.execs.rows, ∀ r r', RowStep c now e r r' → fenced x.lease r' →
      fenced x.lease r ∧ r'.attempt = r.attempt ∧ r'.maxAttempts = r.maxAttempts := by
    intro x hx r r' hstep hfenced
    refine fenced_rowStep hstep ?_ hfenced
    intro l hl hsame
    exact hworker l hl (hsame ▸ Table.key_mem_keys hx)
  constructor
  · intro r' hr' hworkload
    obtain ⟨r, hr, hstep⟩ := hruns.old r' hr' hworkload
    obtain ⟨htenant, hsame, -, hinput⟩ := hstep.request_eq
    rw [htenant, hinput, hdb]
    exact hs.named r hr (hsame ▸ hworkload)
  · intro r' hr' q' hq' hworkload hworkload' hinputs
    obtain ⟨r, hr, hstep⟩ := hruns.old r' hr' hworkload
    obtain ⟨q, hq, hstep'⟩ := hruns.old q' hq' hworkload'
    obtain ⟨-, hsame, -, hinput⟩ := hstep.request_eq
    obtain ⟨-, hsame', -, hinput'⟩ := hstep'.request_eq
    rw [hinput, hinput'] at hinputs
    rw [hstep.id_eq, hstep'.id_eq]
    exact hs.single r hr q hq (hsame ▸ hworkload) (hsame' ▸ hworkload') hinputs
  · intro x hx
    rcases hexecs x hx with hx | ⟨-, he, hworkload, hkey⟩
    · obtain ⟨r, hr, hid, hworkload, hinput, hcopy⟩ := hs.leases x hx
      obtain ⟨r', hr', hstep⟩ := hruns.kept r hr
      obtain ⟨-, hsame, -, hinput'⟩ := hstep.request_eq
      refine ⟨r', hr', hstep.id_eq.trans hid, hsame.trans hworkload, hinput'.trans hinput, ?_⟩
      intro hfenced
      obtain ⟨hfenced, hattempt, hmax⟩ := hfence x hx r r' hstep hfenced
      exact ⟨hattempt.trans (hcopy hfenced).1, hmax.trans (hcopy hfenced).2⟩
    · obtain ⟨r, hr, hid⟩ := Table.mem_keys.mp hkey
      obtain ⟨r', hr', hstep⟩ := hruns.kept r hr
      obtain ⟨-, hsame, -, hinput'⟩ := hstep.request_eq
      obtain ⟨hinput, hworkload', hattempt, hmax⟩ := acquired_rowStep (he ▸ hstep) hid
      exact ⟨r', hr', hstep.id_eq.trans hid, hsame.trans (hworkload'.symm.trans hworkload),
        hinput'.trans hinput.symm, fun _ => ⟨hattempt, hmax⟩⟩
  · intro x hx id hid
    rcases hexecs x hx with hx | ⟨hleased, -⟩
    · exact hs.phases x hx id hid
    · rw [hleased] at hid
      cases hid
  · intro r' hr' hworkload id hinput
    obtain ⟨r, hr, hstep⟩ := hruns.old r' hr' hworkload
    obtain ⟨-, hsame, -, hinput'⟩ := hstep.request_eq
    have hworkload' : r.workload = workload := hsame ▸ hworkload
    rw [hjournal, hdb, hstep.id_eq]
    rcases hs.marked r hr hworkload' id (hinput' ▸ hinput) with h | h | h | ⟨x, h⟩
    · exact Or.inl h
    · exact Or.inr (Or.inl h)
    · exact Or.inr (Or.inr (Or.inl (terminal_rowStep hstep h)))
    · rcases hmarks r hr hworkload' r' hr' hstep id x h with h | h
      · exact Or.inr (Or.inr (Or.inl h))
      · exact Or.inr (Or.inr (Or.inr ⟨x, h⟩))
  · intro x hx hreturned id hinput
    rcases hexecs x hx with hx | ⟨hleased, -⟩
    · rw [hjournal]
      refine (hs.returned x hx hreturned id hinput).imp_right ?_
      intro hlost r' hr' hid hfenced
      -- the run of the execution, before and after
      obtain ⟨r, hr, hid', -⟩ := hs.leases x hx
      obtain ⟨r'', hr'', hstep⟩ := hruns.kept r hr
      cases Table.eq_of_key hr' hr'' (hid.trans (hid'.symm.trans hstep.id_eq.symm))
      exact hlost r hr hid' (hfence x hx r r' hstep hfenced).1
    · rw [hleased] at hreturned
      cases hreturned
  · intro r' hr' hworkload hsucceeded id hinput
    obtain ⟨r, hr, hstep⟩ := hruns.old r' hr' hworkload
    obtain ⟨-, hsame, -, hinput'⟩ := hstep.request_eq
    rw [hjournal, hstep.id_eq]
    rcases succeeded_rowStep hstep hsucceeded with h | ⟨l, result, he, hid, hfenced⟩
    · exact hs.succeeded r hr (hsame ▸ hworkload) h id (hinput' ▸ hinput)
    · exact hdone l result he r hr (hsame ▸ hworkload) hid hfenced id (hinput' ▸ hinput)

/-- What the row of a marked session is after a row step: as it was for the execution, or
rewritten by a call of its holder or by the reaper. -/
theorem marks_rowStep {c : RetrySettings} {now : Time} {e : LeaseEvent} {r r' : RunRow} {id : Uuid}
    {x : Execution} (h : Marks s r id x) (hstep : RowStep c now e r r') :
    (x ∈ t.execs.rows → Marks t r' id x) ∨
      (∃ l call, e = .answered l call true ∧ r.id = l.runId ∧
        fenced l r ∧ ∀ extend, call ≠ .heartbeat extend) ∨
      ∃ rows, e = .reaped rows := by
  obtain ⟨-, hid, hfenced, f, hfailing, hends⟩ := h
  rcases held_rowStep hstep hfenced with ⟨hfenced', hcancel⟩ | h
  · refine Or.inl ?_
    intro hx
    refine ⟨hx, hid.trans hstep.id_eq.symm, hfenced', f, hfailing, ?_⟩
    unfold Raised.ends at hends ⊢
    split at hends
    · exact hcancel hends
    · trivial
    · trivial
    · exact hends
  · exact Or.inr h

theorem acquirer_answers {c : RetrySettings} {db db' : Correctness.Store} {now : Time}
    {op : LeaseOp} {e : LeaseEvent} {worker : String} (hop : acquirer op = some worker)
    (h : exec c db now op = some (db', e)) :
    e = .notAvailable ∨ ∃ l, e = .acquired l ∧ l.leasedBy = worker := by
  cases op with
  | acquire tenant w workload lease locked =>
    cases hop
    simp only [exec, Correctness.acquire] at h
    cases h
    cases nextRun db.run now tenant workload locked with
    | none => exact Or.inl rfl
    | some r => exact Or.inr ⟨_, rfl, rfl⟩
  | acquireSpecific tenant runId w lease =>
    cases hop
    simp only [exec, Correctness.acquireSpecific] at h
    cases h
    cases (db.run.updateKey runId (fun r => visible tenant r ∧ leasable now r)
        (leaseRow now lease worker) (fun _ => rfl)).2 with
    | none => exact Or.inl rfl
    | some r => exact Or.inr ⟨_, rfl, rfl⟩
  | enqueueRun | call | reapExpired | cancelRun => cases hop

theorem outside_acquirer {run : RunTable} {op : LeaseOp} (h : outside run op) :
    acquirer op = none := by
  cases op with
  | acquire => exact h.elim
  | acquireSpecific => exact h.elim
  | enqueueRun | call | reapExpired | cancelRun => rfl

theorem not_acquired {c : RetrySettings} {db db' : Correctness.Store} {now : Time} {op : LeaseOp}
    {e : LeaseEvent} (hop : acquirer op = none) (h : exec c db now op = some (db', e)) :
    ∀ l, e ≠ .acquired l := by
  rintro l rfl
  cases op with
  | acquire => cases hop
  | acquireSpecific => cases hop
  | enqueueRun release trace q runId outboxId =>
    obtain ⟨_, -, hres⟩ := Option.map_eq_some_iff.mp h
    cases hres
  | call => cases h
  | reapExpired => cases h
  | cancelRun => cases h

theorem exec_reaped {c : RetrySettings} {db db' : Correctness.Store} {now : Time} {op : LeaseOp}
    {rows : List Reaped} (h : exec c db now op = some (db', .reaped rows)) :
    ∃ grace draw, op = .reapExpired grace draw ∧
      db'.run =
      db.run.updateWhere (leaseExpired now grace) (reapRow c now draw) (fun _ => rfl) := by
  cases op with
  | reapExpired grace draw =>
    cases h
    exact ⟨grace, draw, rfl, rfl⟩
  | acquire tenant worker workload lease locked =>
    rcases acquirer_answers rfl h with h | ⟨l, h, -⟩
    · cases h
    · cases h
  | acquireSpecific tenant runId worker lease =>
    rcases acquirer_answers rfl h with h | ⟨l, h, -⟩
    · cases h
    · cases h
  | enqueueRun release trace q runId outboxId =>
    obtain ⟨_, -, hres⟩ := Option.map_eq_some_iff.mp h
    cases hres
  | call => cases h
  | cancelRun => cases h

theorem retryInv_work (hs : RetryInv env s) {now : Time} {op : LeaseOp} {store : Correctness.Store}
    {e : LeaseEvent} (hout : outside s.store.run op)
    (hexec : exec env.retry s.store now op = some (store, e)) (hsafe : retrySafe s (.work now op)) :
    RetryInv env { s with store := store } := by
  have hnew : ∀ release trace q runId outboxId, op = .enqueueRun release trace q runId outboxId →
      q.workload ≠ workload := by
    rintro release trace q runId outboxId rfl
    exact hout
  -- no call that matters is a call on an onboarding run
  have hcalls : ∀ l call, e = .answered l call true → (∀ extend, call ≠ .heartbeat extend) →
      ∀ r ∈ s.store.run.rows, r.id = l.runId → r.workload ≠ workload := by
    rintro l call rfl hcall r hr hid
    cases exec_answered hexec
    cases call with
    | heartbeat extend => exact absurd rfl (hcall extend)
    | complete result => exact hout r hr hid
    | fail error retryable retryAfter u => exact hout r hr hid
    | acknowledgeCancellation => exact hout r hr hid
  refine retryInv_runs hs (runsMove_of_exec hexec hnew) rfl rfl ?_ (fun x hx => Or.inl hx) ?_ ?_
  · intro l he
    exact absurd he (not_acquired (outside_acquirer hout) hexec l)
  · intro r hr hworkload r' hr' hstep id x hmarks
    rcases marks_rowStep (t := { s with store := store }) hmarks hstep with h |
      ⟨l, call, he, hid, -, hcall⟩ | ⟨rows, rfl⟩
    · exact Or.inr (h hmarks.1)
    · exact absurd hworkload (hcalls l call he hcall r hr hid)
    · obtain ⟨grace, draw, rfl, hrun⟩ := exec_reaped hexec
      have hexpired : ¬ leaseExpired now grace r := by
        obtain ⟨hx, hid, -, f, hfailing, -⟩ := hmarks
        exact hsafe x hx (by rw [hfailing]; rfl) r hr hid.symm
      change r' ∈ store.run.rows at hr'
      rw [hrun] at hr'
      obtain ⟨q, hq, rfl⟩ := List.mem_map.mp hr'
      have hid : (Table.rewrite (leaseExpired now grace) (reapRow env.retry now draw) q).id =
          q.id :=
        Table.key_rewrite (p := leaseExpired now grace) (f := reapRow env.retry now draw)
          (fun _ => rfl) q
      have hsame : q = r := Table.eq_of_key hq hr (hid.symm.trans hstep.id_eq)
      subst hsame
      have hrow : Table.rewrite (leaseExpired now grace) (reapRow env.retry now draw) q = q :=
        if_neg hexpired
      rw [hrow]
      exact Or.inr hmarks
  · intro l result he r hr hworkload hid
    exact absurd hworkload (hcalls l _ he nofun r hr hid)

theorem retryInv_acquire (hs : RetryInv env s) {now : Time} {op : LeaseOp} {worker : String}
    {store : Correctness.Store} {e : LeaseEvent} {execs : Table Execution Execution.worker}
    (hop : acquirer op = some worker) (hfree : worker ∉ s.execs.keys)
    (hexec : exec env.retry s.store now op = some (store, e))
    (hexecs : execs = s.execs ∨ ∃ l, e = .acquired l ∧ l.workload = workload ∧
      execs.rows = s.execs.rows ++ [⟨l, .leased⟩]) :
    RetryInv env { s with store := store, execs := execs } := by
  have hanswer := acquirer_answers hop hexec
  have hnew : ∀ release trace q runId outboxId, op = .enqueueRun release trace q runId outboxId →
      q.workload ≠ workload := by
    rintro release trace q runId outboxId rfl
    cases hop
  have hkept : ∀ x ∈ s.execs.rows, x ∈ execs.rows := by
    intro x hx
    rcases hexecs with rfl | ⟨l, -, -, hrows⟩
    · exact hx
    · rw [hrows]
      exact List.mem_append_left _ hx
  -- a lease that was handed out is one on a run that is there
  have hknown : ∀ l, e = .acquired l → l.runId ∈ s.store.run.keys := by
    rintro l rfl
    rcases exec_rows hexec with ⟨_, _, _, _, _, _, he, -⟩ | ⟨_, -, -, htold⟩
    · cases he
    · exact htold l.runId rfl
  have hno : ∀ l call held rows, e ≠ .answered l call held ∧ e ≠ .reaped rows := by
    rcases hanswer with rfl | ⟨l, rfl, -⟩
    · exact fun _ _ _ _ => ⟨nofun, nofun⟩
    · exact fun _ _ _ _ => ⟨nofun, nofun⟩
  refine retryInv_runs hs (runsMove_of_exec hexec hnew) rfl rfl ?_ ?_ ?_ ?_
  · rintro l rfl
    rcases hanswer with h | ⟨l', h, hworker⟩
    · cases h
    · cases h
      rw [hworker]
      exact hfree
  · intro x hx
    change x ∈ execs.rows at hx
    rcases hexecs with rfl | ⟨l, he, hworkload, hrows⟩
    · exact Or.inl hx
    · rw [hrows] at hx
      rcases List.mem_append.mp hx with hx | hx
      · exact Or.inl hx
      · cases List.mem_singleton.mp hx
        exact Or.inr ⟨rfl, he, hworkload, hknown l he⟩
  · intro r hr hworkload r' hr' hstep id x hmarks
    rcases marks_rowStep (t := { s with store := store, execs := execs }) hmarks hstep with h |
      ⟨l, call, he, -⟩ | ⟨rows, he⟩
    · exact Or.inr (h (hkept x hmarks.1))
    · exact absurd he (hno l call true []).1
    · exact absurd he
        (hno ⟨0, env.tenant, "", .null, 0, 0, "", 0⟩ .acknowledgeCancellation true rows).2
  · intro l result he
    exact absurd he (hno l _ true []).1

theorem mem_without {worker : String} {x : Execution} :
    x ∈ (s.without worker).rows ↔ x ∈ s.execs.rows ∧ x.worker ≠ worker := Table.mem_deleteWhere

/-- The last call after an exception that ends the run. -/
theorem ends_call {c : RetrySettings} {f : Raised} {l : LeasedRun} {r : RunRow} (now : Time)
    (u : Draw) (hends : f.ends l r) :
    (f.call u).guard r ∧ ((f.call u).set c now l r).status.terminal = true := by
  unfold Raised.ends at hends
  unfold Raised.call
  cases hkind : f.kind with
  | cancelled =>
    rw [hkind] at hends
    exact ⟨hends, rfl⟩
  | needsReconciliation =>
    refine ⟨trivial, ?_⟩
    simp only [HolderCall.set, failRow, failTerminal]
    split <;> rfl
  | other =>
    refine ⟨trivial, ?_⟩
    simp only [HolderCall.set, failRow, failTerminal]
    split <;> rfl
  | transient retryAfter =>
    rw [hkind] at hends
    refine ⟨trivial, ?_⟩
    simp only [HolderCall.set, failRow, failTerminal, decide_eq_true hends]
    split <;> rfl

theorem call_answered {c : RetrySettings} {run : RunTable} {now : Time} {l : LeasedRun}
    {call : HolderCall} {r : RunRow} (hr : r ∈ run.rows) (hid : r.id = l.runId)
    (hfenced : fenced l r) (hguard : call.guard r) : (call.exec c run now l).2 = true := by
  obtain ⟨hp, hset, heq⟩ := call.exec_eq c run now l
  rw [heq]
  exact (fencedUpdate_spec run l call.guard _ hset).1.mpr ⟨r, hr, hid, hfenced, hguard⟩

theorem returned_of_complete {phase : ExecPhase} {u : Draw} {result : Option Json}
    (h : phase.call u = some (.complete result)) : phase.isReturned = true := by
  have hraised : ∀ f : Raised, f.call u ≠ .complete result := by
    intro f
    unfold Raised.call
    split
    · nofun
    · nofun
    · nofun
    · nofun
  cases phase with
  | returned result => rfl
  | failing id f => exact absurd (Option.some.inj h) (hraised f)
  | raised f => exact absurd (Option.some.inj h) (hraised f)
  | leased => cases h
  | drafting id => cases h
  | trying id => cases h

theorem retryInv_settle (hs : RetryInv env s) {x : Execution} {now : Time} {u : Draw}
    {call : HolderCall} {store : Correctness.Store} {e : LeaseEvent} (hx : x ∈ s.execs.rows)
    (hcall : x.phase.call u = some call)
    (hexec : exec env.retry s.store now (.call x.lease call) = some (store, e)) :
    RetryInv env { s with store := store, execs := s.without x.worker } := by
  have he := (exec_call hexec).1
  obtain ⟨held, hheld⟩ : ∃ held, held = (call.exec env.retry s.store.run now x.lease).2 := ⟨_, rfl⟩
  rw [← hheld] at he
  refine retryInv_runs hs (runsMove_of_exec hexec nofun) rfl rfl ?_ ?_ ?_ ?_
  · intro l hl
    rw [he] at hl
    cases hl
  · intro y hy
    exact Or.inl (mem_without.mp hy).1
  · intro r hr hworkload r' hr' hstep id y hmarks
    by_cases hsame : y = x
    · -- its own call ends the run
      subst hsame
      obtain ⟨-, hid, hfenced, f, hfailing, hends⟩ := hmarks
      rw [hfailing] at hcall
      cases hcall
      obtain ⟨hguard, hterminal⟩ := ends_call (c := env.retry) now u hends
      rw [call_answered hr hid.symm hfenced hguard] at hheld
      rw [he, hheld] at hstep
      rw [answered_rowStep hstep hid.symm]
      exact Or.inl hterminal
    · rcases marks_rowStep (t := { s with store := store, execs := s.without x.worker }) hmarks
          hstep with
        h | ⟨l, call', he', hid, hfenced, -⟩ | ⟨rows, he'⟩
      · refine Or.inr (h (mem_without.mpr ⟨hmarks.1, ?_⟩))
        exact fun hworker => hsame (Table.eq_of_key hmarks.1 hx hworker)
      · rw [he] at he'
        cases he'
        exact absurd (exec_of_fenced hmarks.1 hx hmarks.2.2.1 hfenced) hsame
      · rw [he] at he'
        cases he'
  · intro l result hl r hr hworkload hid hfenced id hinput
    rw [he] at hl
    cases hl
    have hinput' : sessionIdOf env x.lease.input = some id := (run_of_exec hs hx hr hid).2 ▸ hinput
    rcases hs.returned x hx (returned_of_complete hcall) id hinput' with h | h
    · exact hid ▸ h
    · exact absurd hfenced (h r hr hid)

theorem retryInv_crash (hs : RetryInv env s) {worker : String}
    (hsafe : retrySafe s (.crash worker)) : RetryInv env { s with execs := s.without worker } := by
  refine retryInv_runs hs (.refl env.retry 0 s.store.run) rfl rfl nofun
    (fun x hx => Or.inl (mem_without.mp hx).1) ?_ nofun
  intro r hr hworkload r' hr' hstep id x hmarks
  obtain ⟨hx, hid, hfenced, f, hfailing, hends⟩ := hmarks
  by_cases hworker : x.worker = worker
  · obtain ⟨q, hq, hqid, hover⟩ :=
      hsafe x (Table.get_eq_some.mpr ⟨hx, hworker⟩) (by rw [hfailing]; rfl)
    cases Table.eq_of_key hq hr (hqid.trans hid)
    rw [hfenced.2.1] at hover
    cases hover
  · rcases marks_rowStep (t := { s with execs := s.without worker })
        ⟨hx, hid, hfenced, f, hfailing, hends⟩ hstep with
      h | ⟨l, call, he, -⟩ | ⟨rows, he⟩
    · exact Or.inr (h (mem_without.mpr ⟨hx, hworker⟩))
    · cases he
    · cases he

/-! ## Steps of the sessions and the executions -/

theorem retryInv_sessions (hs : RetryInv env s) (hstore : t.store = s.store)
    (hkeys : t.db.sessions.keys = s.db.sessions.keys) (hsub : s.journal ⊆ t.journal)
    (hexecs : ∀ y ∈ t.execs.rows, y ∈ s.execs.rows ∨ ∃ x ∈ s.execs.rows, y.lease = x.lease ∧
      (∀ id ∈ y.phase.sessionId, sessionIdOf env x.lease.input = some id) ∧
      (y.phase.isReturned = true → ∀ id, sessionIdOf env x.lease.input = some id →
      Excused t.journal x.lease.runId id ∨ Lost s.store.run x.lease))
    (hmarks : ∀ r id x, Marks s r id x → x ∈ t.execs.rows)
    (hstatus : ∀ r ∈ s.store.run.rows, r.workload = workload →
      ∀ id, sessionIdOf env r.input = some id → s.db.statusOf id = some .drafting →
      Excused t.journal r.id id ∨ t.db.statusOf id = some .drafting ∨ r.status.terminal = true ∨
      ∃ x, Marks t r id x) : RetryInv env t := by
  constructor
  · rw [hstore, hkeys]
    exact hs.named
  · rw [hstore]
    exact hs.single
  · rw [hstore]
    intro y hy
    rcases hexecs y hy with hy | ⟨x, hx, hlease, -⟩
    · exact hs.leases y hy
    · rw [hlease]
      exact hs.leases x hx
  · intro y hy id hid
    rcases hexecs y hy with hy | ⟨x, hx, hlease, hphase, -⟩
    · exact hs.phases y hy id hid
    · rw [hlease]
      exact hphase id hid
  · rw [hstore]
    intro r hr hworkload id hinput
    rcases hs.marked r hr hworkload id hinput with h | h | h | ⟨x, h⟩
    · exact Or.inl (h.mono hsub)
    · exact hstatus r hr hworkload id hinput h
    · exact Or.inr (Or.inr (Or.inl h))
    · exact Or.inr (Or.inr (Or.inr ⟨x, hmarks r id x h, h.2⟩))
  · rw [hstore]
    intro y hy hreturned id hinput
    rcases hexecs y hy with hy | ⟨x, hx, hlease, -, hphase⟩
    · exact (hs.returned y hy hreturned id hinput).imp_left (fun h => h.mono hsub)
    · rw [hlease] at hinput ⊢
      exact hphase hreturned id hinput
  · rw [hstore]
    intro r hr hworkload hsucceeded id hinput
    exact (hs.succeeded r hr hworkload hsucceeded id hinput).mono hsub

/-- An execution that has marked no session goes on. -/
theorem retryInv_moveTo (hs : RetryInv env s) {x : Execution} {phase : ExecPhase}
    (hx : x ∈ s.execs.rows) (hfree : x.phase.isFailing = false) (hstore : t.store = s.store)
    (hkeys : t.db.sessions.keys = s.db.sessions.keys) (hsub : s.journal ⊆ t.journal)
    (hexecs : t.execs = (s.moveTo x.worker phase).execs)
    (hphase : ∀ id ∈ phase.sessionId, sessionIdOf env x.lease.input = some id)
    (hreturned : phase.isReturned = true → ∀ id, sessionIdOf env x.lease.input = some id →
      Excused t.journal x.lease.runId id ∨ Lost s.store.run x.lease)
    (hstatus : ∀ r ∈ s.store.run.rows, r.workload = workload →
      ∀ id, sessionIdOf env r.input = some id → s.db.statusOf id = some .drafting →
      Excused t.journal r.id id ∨ t.db.statusOf id = some .drafting ∨ r.status.terminal = true ∨
      ∃ x, Marks t r id x) : RetryInv env t := by
  refine retryInv_sessions hs hstore hkeys hsub ?_ ?_ hstatus
  · intro y hy
    rw [hexecs] at hy
    rcases Table.mem_updateWhere (f := fun z => Execution.mk z.lease phase) (fun _ => rfl) hy with
      ⟨hy, -⟩ | ⟨z, hz, hworker, rfl⟩
    · exact Or.inl hy
    · cases Table.eq_of_key hz hx hworker
      exact Or.inr ⟨x, hx, rfl, hphase, hreturned⟩
  · rintro r id y ⟨hy, -, -, f, hfailing, -⟩
    rw [hexecs]
    refine List.mem_map.mpr ⟨y, hy, if_neg ?_⟩
    intro hworker
    cases Table.eq_of_key hy hx hworker
    rw [hfailing] at hfree
    cases hfree

theorem statusOf_setStatus_ne {db : OnboardingDb} {id written : Uuid}
    {before status : SessionStatus} {error : Option String} {stats : Option Json} {now : Time}
    (h : db.statusOf id = some before) (hne : id ≠ written) :
    (db.setStatus written status error stats now).statusOf id = some before := by
  obtain ⟨r, hr, hid, hstatus⟩ := statusOf_eq_some.mp h
  exact statusOf_eq_some.mpr
    ⟨r, List.mem_map.mpr ⟨r, hr, if_neg (fun hsame => hne (hid.symm.trans hsame))⟩, hid, hstatus⟩

/-- The run whose session an execution writes. -/
theorem run_of_session (hs : RetryInv env s) {x : Execution} {r : RunRow} {id : Uuid}
    (hx : x ∈ s.execs.rows) (hphase : x.phase.sessionId = some id) (hr : r ∈ s.store.run.rows)
    (hworkload : r.workload = workload) (hinput : sessionIdOf env r.input = some id) :
    r.id = x.lease.runId := by
  obtain ⟨q, hq, hid, hworkload', hinput', -⟩ := hs.leases x hx
  rw [← hid]
  refine hs.single r hr q hq hworkload hworkload' ?_
  rw [hinput, hinput', hs.phases x hx id hphase]

/-- The status an execution writes is that of the session of its run. -/
theorem status_written (hs : RetryInv env s) {x : Execution} {sessionId : Uuid}
    (hx : x ∈ s.execs.rows) (hphase : x.phase.sessionId = some sessionId) {status : SessionStatus}
    {error : Option String} {stats : Option Json} {now : Time} {r : RunRow} {id : Uuid}
    (hr : r ∈ s.store.run.rows) (hworkload : r.workload = workload)
    (hinput : sessionIdOf env r.input = some id) (hdrafting : s.db.statusOf id = some .drafting) :
    (id = sessionId ∧ r.id = x.lease.runId) ∨
      (s.db.setStatus sessionId status error stats now).statusOf id = some .drafting := by
  by_cases hsame : id = sessionId
  · subst hsame
    exact Or.inl ⟨rfl, run_of_session hs hx hphase hr hworkload hinput⟩
  · exact Or.inr (statusOf_setStatus_ne hdrafting hsame)

theorem retryInv_enter (hs : RetryInv env s) {x : Execution} {sessionId : Uuid} {phase : ExecPhase}
    (hx : x ∈ s.execs.rows) (hleased : x.phase = .leased)
    (hinput : sessionIdOf env x.lease.input = some sessionId)
    (hphase : (phase = .drafting sessionId ∧ s.db.statusOf sessionId = some .drafting) ∨
      ∃ result, phase = .returned result ∧ s.db.statusOf sessionId ≠ some .drafting) :
    RetryInv env (s.moveTo x.worker phase) := by
  have hfree : x.phase.isFailing = false := by rw [hleased]; rfl
  refine retryInv_moveTo hs hx hfree rfl rfl (List.Subset.refl _) rfl ?_ ?_
    (fun r _ _ id _ hdrafting => Or.inr (Or.inl hdrafting))
  · rcases hphase with ⟨rfl, -⟩ | ⟨result, rfl, -⟩
    · intro id hid
      cases hid
      exact hinput
    · intro id hid
      cases hid
  · rcases hphase with ⟨rfl, -⟩ | ⟨result, rfl, hstatus⟩
    · intro hreturned
      cases hreturned
    · -- an attempt that still holds its lease would have found the session under draft
      intro _ id hid
      cases hinput.symm.trans hid
      by_cases hexcused : Excused s.journal x.lease.runId sessionId
      · exact Or.inl hexcused
      · refine Or.inr ?_
        intro r hr hrun hfenced
        obtain ⟨hworkload, hsame⟩ := run_of_exec hs hx hr hrun
        exact hstatus (drafting_of_held hs hx hr hworkload hfenced hfree (hsame ▸ hinput)
          (hrun ▸ hexcused))

theorem retryInv_except (hs : RetryInv env s) {x : Execution} {sessionId : Uuid} {f : Raised}
    {now : Time} (hx : x ∈ s.execs.rows) (hphase : x.phase = .trying sessionId)
    (hsafe : s.over x.lease ∨ s.final x.lease f) :
    RetryInv env { s.moveTo x.worker (.failing sessionId f) with
      db := s.db.setStatus sessionId .failed (some (clip 2000 f.described)) none now } := by
  have hsession : x.phase.sessionId = some sessionId := by rw [hphase]; rfl
  have hinput := hs.phases x hx sessionId hsession
  refine retryInv_moveTo hs hx (by rw [hphase]; rfl) rfl (keys_setStatus _ _ _ _ _ _)
    (List.Subset.refl _) rfl ?_ nofun ?_
  · intro id hid
    cases hid
    exact hinput
  · intro r hr hworkload id hid hdrafting
    rcases status_written hs hx hsession hr hworkload hid hdrafting with ⟨rfl, hrun⟩ | hkept
    · rcases hsafe with ⟨q, hq, hqid, hover⟩ | ⟨q, hq, hqid, hfenced, hends⟩
      · cases Table.eq_of_key hq hr (hqid.trans hrun.symm)
        exact Or.inr (Or.inr (Or.inl hover))
      · cases Table.eq_of_key hq hr (hqid.trans hrun.symm)
        refine Or.inr (Or.inr
          (Or.inr ⟨⟨x.lease, .failing id f⟩, ?_, hrun.symm, hfenced, f, rfl, hends⟩))
        exact List.mem_map.mpr ⟨x, hx, if_pos rfl⟩
    · exact Or.inr (Or.inl hkept)

theorem mem_demoted {db : OnboardingDb} {id : Uuid} {now : Time} {d : Decision} {r : SessionRow}
    (hr : r ∈ db.sessions.rows) (hdrafting : r.status = .drafting) :
    r ∈ (db.demoted id now d).rows := by
  cases d with
  | cancel => exact hr
  | approve by_ => exact hr
  | publish =>
    simp only [OnboardingDb.demoted]
    split
    · refine List.mem_map.mpr ⟨r, hr, if_neg ?_⟩
      rintro ⟨-, hpublished⟩
      rw [hdrafting] at hpublished
      cases hpublished
    · exact hr

theorem retryInv_decide (hs : RetryInv env s) (id : Uuid) (now : Time) (d : Decision) :
    RetryInv env { s with
    db := s.db.decide id now d
    journal := if ∃ r ∈ s.db.sessions.rows, r.id = id ∧
        d.applies r then .moved id :: s.journal else s.journal } := by
  refine retryInv_sessions hs rfl (keys_decide _ _ _ _) ?_ (fun x hx => Or.inl hx)
    (fun r id x h => h.1) ?_
  · intro ev hev
    change ev ∈ ite _ _ _
    split
    · exact List.mem_cons_of_mem _ hev
    · exact hev
  · intro r hr hworkload k hk hdrafting
    obtain ⟨q, hq, hqid, hstatus⟩ := statusOf_eq_some.mp hdrafting
    by_cases hmoved : q.id = id ∧ d.applies q
    · -- the user has moved this session on
      refine Or.inl (Or.inr (Or.inr ?_))
      change DraftEvent.moved k ∈ ite _ _ _
      rw [if_pos ⟨q, hq, hmoved⟩, ← hqid, hmoved.1]
      exact List.mem_cons_self
    · refine Or.inr (Or.inl (statusOf_eq_some.mpr ⟨q, ?_, hqid, hstatus⟩))
      exact List.mem_map.mpr ⟨q, mem_demoted hq hstatus, if_neg hmoved⟩

theorem statusOf_append {db : OnboardingDb} {sessions : SessionTable} {x : SessionRow} {id : Uuid}
    {status : SessionStatus} (hrows : sessions.rows = db.sessions.rows ++ [x])
    (h : db.statusOf id = some status) :
    OnboardingDb.statusOf { db with sessions := sessions } id = some status := by
  obtain ⟨r, hr, hid, hstatus⟩ := statusOf_eq_some.mp h
  refine statusOf_eq_some.mpr ⟨r, ?_, hid, hstatus⟩
  change r ∈ sessions.rows
  rw [hrows]
  exact List.mem_append_left _ hr

/-- A request adds a session, and a run for it or none. -/
theorem retryInv_start (hf : env.Faithful) (hs : RetryInv env s) {ctx : RequestContext}
    {q : SessionCreate} {newId : Uuid} {now : Time} {release : String} {runId id : Uuid}
    {sessions : SessionTable} {store : Correctness.Store} (ht : ctx.tenant = env.tenant)
    (hunused : s.unused env newId) (hstore : store.run.rows = s.store.run.rows ∨ store.run.rows =
      s.store.run.rows ++ [newRun now release (draftRequest env ctx newId q) runId])
    (hrows : sessions.rows = s.db.sessions.rows ++
      [withRun id (newSession newId q.domain q.collection none ctx.principal.id now)]) :
    RetryInv env { s with db := { s.db with sessions := sessions }, store := store } := by
  let new := newRun now release (draftRequest env ctx newId q) runId
  have hcases : ∀ r ∈ store.run.rows, r ∈ s.store.run.rows ∨ r = new := by
    intro r hr
    rcases hstore with hstore | hstore
    · exact Or.inl (hstore ▸ hr)
    · rw [hstore] at hr
      exact (List.mem_append.mp hr).imp_right List.mem_singleton.mp
  have hkept : ∀ r ∈ s.store.run.rows, r ∈ store.run.rows := by
    intro r hr
    rcases hstore with hstore | hstore
    · exact hstore ▸ hr
    · rw [hstore]
      exact List.mem_append_left _ hr
  have hkeys : ∀ k, k ∈ sessions.keys ↔ k ∈ s.db.sessions.keys ∨ k = newId := by
    intro k
    simp only [Table.keys, hrows, List.map_append, List.mem_append]
    exact or_congr_right List.mem_singleton
  have hinput : sessionIdOf env new.input = some newId := sessionIdOf_draftPayload hf newId q
  constructor
  · intro r hr hworkload
    rcases hcases r hr with hr | rfl
    · obtain ⟨htenant, k, hk, hknown⟩ := hs.named r hr hworkload
      exact ⟨htenant, k, hk, (hkeys k).mpr (Or.inl hknown)⟩
    · exact ⟨congrArg Tenant.id ht, newId, hinput, (hkeys newId).mpr (Or.inr rfl)⟩
  · intro r hr r' hr' hworkload hworkload' hsame
    rcases hcases r hr with hr | rfl
    · rcases hcases r' hr' with hr' | rfl
      · exact hs.single r hr r' hr' hworkload hworkload' hsame
      · exact absurd (hsame.trans hinput) (hunused.2 r hr)
    · rcases hcases r' hr' with hr' | rfl
      · exact absurd (hsame.symm.trans hinput) (hunused.2 r' hr')
      · rfl
  · intro x hx
    obtain ⟨r, hr, h⟩ := hs.leases x hx
    exact ⟨r, hkept r hr, h⟩
  · exact hs.phases
  · intro r hr hworkload k hk
    rcases hcases r hr with hr | rfl
    · rcases hs.marked r hr hworkload k hk with h | h | h | ⟨x, h⟩
      · exact Or.inl h
      · exact Or.inr (Or.inl (statusOf_append hrows h))
      · exact Or.inr (Or.inr (Or.inl h))
      · exact Or.inr (Or.inr (Or.inr ⟨x, h⟩))
    · cases hinput.symm.trans hk
      let x := withRun id (newSession newId q.domain q.collection none ctx.principal.id now)
      have hx : x ∈ sessions.rows := by
        rw [hrows]
        exact List.mem_append_right _ (List.mem_singleton.mpr rfl)
      exact Or.inr (Or.inl (statusOf_eq_some.mpr ⟨x, hx, rfl, rfl⟩))
  · intro x hx hreturned k hk
    refine (hs.returned x hx hreturned k hk).imp_right ?_
    intro hlost r hr hid hfenced
    rcases hcases r hr with hr | rfl
    · exact hlost r hr hid hfenced
    · cases hfenced.2.1
  · intro r hr hworkload hsucceeded k hk
    rcases hcases r hr with hr | rfl
    · exact hs.succeeded r hr hworkload hsucceeded k hk
    · cases hsucceeded

theorem retryInv_step (hf : env.Faithful) (hs : RetryInv env s) (hsafe : retrySafe s a)
    (h : draftingStep env s a = some t) : RetryInv env t := by
  cases draftingStep_move h with
  | conflict => exact hs
  | start ctx q newId now release trace runId outboxId sessions store id created ht hunused hdrafts
      henqueue hrows =>
    have hstore : store.run.rows = s.store.run.rows ∨
        store.run.rows =
        s.store.run.rows ++ [newRun now release (draftRequest env ctx newId q) runId] := by
      rcases enqueueRun_rows henqueue with ⟨-, rfl⟩ | ⟨-, -, -, hstore⟩
      · exact Or.inl rfl
      · exact Or.inr hstore
    exact retryInv_start hf hs ht hunused hstore hrows
  | decide id now d => exact retryInv_decide hs id now d
  | work now op store e hout hexec => exact retryInv_work hs hout hexec hsafe
  | acquire now op worker store e execs hop hfree hexec hexecs =>
    exact retryInv_acquire hs hop hfree hexec hexecs
  | enter x sessionId phase hx hleased hinput hphase =>
    exact retryInv_enter hs hx hleased hinput hphase
  | raise x f hx hcancel hfailing =>
    refine retryInv_moveTo hs hx ?_ rfl rfl (List.Subset.refl _) rfl nofun nofun
      (fun r _ _ id _ hdrafting => Or.inr (Or.inl hdrafting))
    cases hphase : x.phase with
    | failing id f => exact absurd hphase (hfailing id f)
    | leased | drafting | trying | raised | returned => rfl
  | empty x sessionId error now hx hphase =>
    have hsession : x.phase.sessionId = some sessionId := by rw [hphase]; rfl
    refine retryInv_moveTo hs hx (by rw [hphase]; rfl) rfl (keys_setStatus _ _ _ _ _ _)
      (List.subset_cons_self _ _) rfl nofun ?_ ?_
    · intro _ id hid
      cases (hs.phases x hx sessionId hsession).symm.trans hid
      exact Or.inl (Or.inr (Or.inl List.mem_cons_self))
    · intro r hr hworkload id hid hdrafting
      rcases status_written hs hx hsession hr hworkload hid hdrafting with ⟨rfl, hrun⟩ | hkept
      · exact Or.inl (Or.inr (Or.inl (hrun ▸ List.mem_cons_self)))
      · exact Or.inr (Or.inl hkept)
  | progress x sessionId entry now hx hphase =>
    have hsession : x.phase.sessionId = some sessionId := by
      rcases hphase with hphase | hphase
      · rw [hphase]
        rfl
      · rw [hphase]
        rfl
    refine retryInv_moveTo hs hx ?_ rfl
      (Table.keys_updateWhere _ _ (withProgress entry now) (fun _ => rfl))
      (List.Subset.refl _) rfl ?_ nofun ?_
    · rcases hphase with hphase | hphase
      · rw [hphase]
        rfl
      · rw [hphase]
        rfl
    · intro id hid
      cases hid
      exact hs.phases x hx sessionId hsession
    · intro r _ _ id _ hdrafting
      exact Or.inr (Or.inl (statusOf_appendProgress hdrafting sessionId entry now))
  | except x sessionId f now hx hphase hcancel =>
    exact retryInv_except hs hx hphase (hsafe x (Table.get_self hx))
  | ready x sessionId stats now hx hphase =>
    have hsession : x.phase.sessionId = some sessionId := by rw [hphase]; rfl
    refine retryInv_moveTo hs hx (by rw [hphase]; rfl) rfl (keys_setStatus _ _ _ _ _ _)
      (List.subset_cons_self _ _) rfl nofun ?_ ?_
    · intro _ id hid
      cases (hs.phases x hx sessionId hsession).symm.trans hid
      exact Or.inl (Or.inl List.mem_cons_self)
    · intro r hr hworkload id hid hdrafting
      rcases status_written hs hx hsession hr hworkload hid hdrafting with ⟨rfl, hrun⟩ | hkept
      · exact Or.inl (Or.inl (hrun ▸ List.mem_cons_self))
      · exact Or.inr (Or.inl hkept)
  | settle x now u call store e hx hcall hexec => exact retryInv_settle hs hx hcall hexec
  | crash worker => exact retryInv_crash hs hsafe

/-! ## Retries -/

/-- An attempt that holds its lease drafts the session, unless its run or a user has moved
the session on. -/
def StartsDrafting (env : DraftingEnv) (s : DraftingState) (a : DraftingAct) (t : DraftingState) :
    Prop :=
  ∀ worker, a = .enter worker → ∀ x ∈ s.execs.get worker, ∀ r ∈ s.store.run.rows,
    r.id = x.lease.runId → fenced x.lease r → ∀ id, sessionIdOf env r.input = some id →
    ¬ Excused s.journal r.id id → t.execs.get worker = some ⟨x.lease, .drafting id⟩

/-- After a transient failure an idle worker can lease the run again, and drafts. -/
def RetriesDraft (env : DraftingEnv) (s : DraftingState) (a : DraftingAct) (t : DraftingState) :
    Prop :=
  ∀ worker now u, a = .settle worker now u → ∀ x ∈ s.execs.get worker, ∀ f retryAfter,
    f.kind = .transient retryAfter → (x.phase = .raised f ∨ ∃ id, x.phase = .failing id f) →
    x.lease.attempt < x.lease.maxAttempts → ∀ r ∈ s.store.run.rows, r.id = x.lease.runId →
    fenced x.lease r → r.cancelRequestedAt = none → ∀ id, sessionIdOf env r.input = some id →
    ¬ Excused s.journal r.id id → ∀ next, next ∉ t.execs.keys → ∀ lease, ∃ later t' l,
    Reaches (draftingStep env) t
    [.acquire later (.acquireSpecific env.tenant r.id next lease), .enter next] t' ∧
    t'.execs.get next = some ⟨l, .drafting id⟩

/-- So it can after a crash, once the reaper has taken the lease. -/
def ReapsDraft (env : DraftingEnv) (s : DraftingState) (a : DraftingAct) (t : DraftingState) :
    Prop :=
  ∀ now grace draw, a = .work now (.reapExpired grace draw) → ∀ r ∈ s.store.run.rows,
    r.workload = workload → leaseExpired now grace r → r.attempt < r.maxAttempts →
    r.cancelRequestedAt = none → ∀ id, sessionIdOf env r.input = some id →
    ¬ Excused s.journal r.id id → ∀ next, next ∉ t.execs.keys → ∀ lease, ∃ later t' l,
    Reaches (draftingStep env) t
    [.acquire later (.acquireSpecific env.tenant r.id next lease), .enter next] t' ∧
    t'.execs.get next = some ⟨l, .drafting id⟩

/-- A run that has succeeded has taken its session out of 'drafting', or found its corpus
empty, or a user has moved the session on. -/
def SucceededRightly (env : DraftingEnv) (s : DraftingState) : Prop :=
  ∀ r ∈ s.store.run.rows, r.workload = workload → r.status = .succeeded →
    ∃ id, sessionIdOf env r.input = some id ∧ Excused s.journal r.id id

theorem startsDrafting_step (hs : RetryInv env s) (h : draftingStep env s a = some t) :
    StartsDrafting env s a t := by
  rintro worker rfl x hget r hr hid hfenced id hinput hexcused
  obtain ⟨hx, hworker⟩ := Table.get_eq_some.mp hget
  obtain ⟨hworkload, hsame⟩ := run_of_exec hs hx hr hid
  cases draftingStep_move h with
  | enter y sessionId phase hy hleased hinput' hphase =>
    cases Table.eq_of_key hy hx hworker.symm
    cases (hsame ▸ hinput').symm.trans hinput
    have hdrafting :=
      drafting_of_held hs hx hr hworkload hfenced (by rw [hleased]; rfl) hinput hexcused
    rcases hphase with ⟨rfl, -⟩ | ⟨-, -, hstatus⟩
    · exact get_moveTo _ hget
    · exact absurd hdrafting hstatus

/-- An idle worker can lease a run that waits with attempts left, and drafts. -/
theorem pending_redrafts (hs : RetryInv env s) {r : RunRow} (hr : r ∈ s.store.run.rows)
    (hworkload : r.workload = workload) (hpending : r.status = .pending)
    (hattempts : r.attempt < r.maxAttempts) (hcancel : r.cancelRequestedAt = none) {id : Uuid}
    (hinput : sessionIdOf env r.input = some id) (hexcused : ¬ Excused s.journal r.id id)
    {next : String} (hidle : next ∉ s.execs.keys) (lease : Time) :
    ∃ later t l, Reaches (draftingStep env) s
      [.acquire later (.acquireSpecific env.tenant r.id next lease), .enter next] t ∧
      t.execs.get next = some ⟨l, .drafting id⟩ := by
  have hleasable : leasable r.availableAt r := ⟨hpending, hattempts, le_refl _, hcancel⟩
  have hvisible : visible env.tenant r := (hs.named r hr hworkload).1
  have hdrafting : s.db.statusOf id = some .drafting := by
    rcases hs.marked r hr hworkload id hinput with h | h | h | ⟨z, -, -, hz, -⟩
    · exact absurd h hexcused
    · exact h
    · rw [hpending] at h
      cases h
    · have hleased := hz.2.1
      rw [hpending] at hleased
      cases hleased
  obtain ⟨m, hacquire, hdb, l, hl, hget⟩ :=
    acquireSpecific_starts hr hvisible hleasable hworkload hidle lease
  have henter : draftingStep env m (.enter next) = some (m.moveTo next (.drafting id)) :=
    enter_drafts hget (hl ▸ hinput) (hdb ▸ hdrafting)
  exact ⟨r.availableAt, _, l, reaches_cons.mpr ⟨m, hacquire, reaches_single.mpr henter⟩,
    get_moveTo _ hget⟩

theorem retriesDraft_step (hf : env.Faithful) (hs : RetryInv env s)
    (h : draftingStep env s a = some t) : RetriesDraft env s a t := by
  rintro worker now u rfl x hget f retryAfter hkind hphase hattempts r hr hid hfenced hcancel id
    hinput hexcused
  intro next hidle lease
  have ht : RetryInv env t := retryInv_step (a := .settle worker now u) hf hs trivial h
  obtain ⟨hx, hworker⟩ := Table.get_eq_some.mp hget
  cases draftingStep_move h with
  | settle y now u call store e hy hcall hexec =>
    cases Table.eq_of_key hy hx hworker.symm
    have hfail : call = .fail f.text true retryAfter u := by
      have hraised : f.call u = .fail f.text true retryAfter u := by rw [Raised.call, hkind]
      rcases hphase with hphase | ⟨k, hphase⟩
      · rw [hphase] at hcall
        exact (Option.some.inj hcall).symm.trans hraised
      · rw [hphase] at hcall
        exact (Option.some.inj hcall).symm.trans hraised
    subst hfail
    -- the run is pending again
    obtain ⟨r', hr', hstep⟩ := (runsMove_of_exec hexec nofun).kept r hr
    have hguard : (HolderCall.fail f.text true retryAfter u).guard r := trivial
    rw [(exec_call hexec).1, call_answered hr hid hfenced hguard] at hstep
    obtain ⟨-, hkept, -, hpayload⟩ := hstep.request_eq
    have hrow := answered_rowStep hstep hid
    have hterminal : failTerminal x.lease true = false := by simp [failTerminal, hattempts]
    have hpending : r'.status = .pending := by
      simp [hrow, HolderCall.set, failRow, hcancel, hterminal]
    have hfewer : r'.attempt < r'.maxAttempts := by
      obtain ⟨q, hq, hqid, -, -, hcopy⟩ := hs.leases x hx
      cases Table.eq_of_key hq hr (hqid.trans hid.symm)
      obtain ⟨hattempt, hmax⟩ := hcopy hfenced
      rw [hrow]
      change r.attempt < r.maxAttempts
      rwa [hattempt, hmax]
    rw [← hstep.id_eq] at hexcused ⊢
    exact pending_redrafts ht hr' (hkept.trans (run_of_exec hs hx hr hid).1) hpending hfewer
      (by rw [hrow]; exact hcancel) (hpayload ▸ hinput) hexcused hidle lease

theorem reapsDraft_step (hf : env.Faithful) (hs : RetryInv env s) (hsafe : retrySafe s a)
    (h : draftingStep env s a = some t) : ReapsDraft env s a t := by
  rintro now grace draw rfl r hr hworkload hexpired hattempts hcancel id hinput hexcused next
    hidle lease
  have ht : RetryInv env t := retryInv_step hf hs hsafe h
  cases draftingStep_move h with
  | work now op store e hout hexec =>
    cases hexec
    -- the run is pending again
    have hpending : (reapRow env.retry now draw r).status = .pending := by
      simp [reapRow, hcancel, not_le.mpr hattempts]
    have hr' : reapRow env.retry now draw r ∈
        (reapExpired env.retry s.store.run now grace draw).1.rows :=
      List.mem_map.mpr ⟨r, hr, if_pos hexpired⟩
    exact pending_redrafts ht hr' hworkload hpending hattempts hcancel hinput hexcused hidle lease

/-- In every run that meets the condition, attempts that hold their lease draft, transient
failures and crashes are retried, and runs succeed for a reason. -/
theorem transient_failures_retried (hf : env.Faithful) {acts : List DraftingAct}
    (hrun : Reaches (restrict retrySafe (draftingStep env)) .initial acts s) :
    EveryStep (draftingStep env) (StartsDrafting env) .initial acts ∧
      EveryStep (draftingStep env) (RetriesDraft env) .initial acts ∧
      EveryStep (draftingStep env) (ReapsDraft env) .initial acts ∧
      Throughout (draftingStep env) (SucceededRightly env) .initial acts := by
  have hinv : ∀ s a t, RetryInv env s → retrySafe s a → draftingStep env s a = some t →
      RetryInv env t :=
    fun _ _ _ hs hsafe h => retryInv_step hf hs hsafe h
  refine ⟨hrun.everyStep hinv (fun _ _ _ hs _ h => startsDrafting_step hs h) (retryInv_initial env),
    hrun.everyStep hinv (fun _ _ _ hs _ h => retriesDraft_step hf hs h) (retryInv_initial env),
    hrun.everyStep hinv (fun _ _ _ hs hsafe h => reapsDraft_step hf hs hsafe h)
    (retryInv_initial env), ?_⟩
  intro pre post m hacts hpre r hr hworkload hsucceeded
  have hm := hrun.throughout hinv (retryInv_initial env) pre post m hacts hpre
  obtain ⟨-, id, hinput, -⟩ := hm.named r hr hworkload
  exact ⟨id, hinput, hm.succeeded r hr hworkload hsucceeded id hinput⟩

end

def startPlant : DraftingAct :=
  .start sampleContext (draftOf "plant" isDomain_plant) 1 0 "r1" .emptyObj 100 1

def timeout : Raised := ⟨.transient none, "TransientError", "timeout"⟩

/-- The first attempt cannot load the documents, the second one crashes while it drafts, and
the third one drafts. -/
def thirdAttempt : List DraftingAct :=
  [startPlant, .acquire 1 (.acquireSpecific sampleTenant 100 "w1" 60),
    .enter "w1", .raise "w1" timeout, .settle "w1" 2 lowestDraw,
    .acquire 10 (.acquireSpecific sampleTenant 100 "w2" 60), .enter "w2",
    .progress "w2" .null 11, .crash "w2", .work 100 (.reapExpired 0 (fun _ => lowestDraw))] ++
    draftAct "w3" 100 200

theorem thirdAttempt_run :
    (thirdAttempt.foldlM (restrict retrySafe (draftingStep unaryEnv)) .initial).isSome = true := by
  decide +kernel

theorem transient_failures_retried_thirdAttempt :
    ∃ s, Reaches (draftingStep unaryEnv) .initial thirdAttempt s ∧
      s.store.run.rows.map (fun r => (r.status, r.attempt)) = [(.succeeded, 3)] ∧
      s.db.statusOf 1 = some .draftReady ∧
      EveryStep (draftingStep unaryEnv) (StartsDrafting unaryEnv) .initial thirdAttempt ∧
      EveryStep (draftingStep unaryEnv) (RetriesDraft unaryEnv) .initial thirdAttempt ∧
      EveryStep (draftingStep unaryEnv) (ReapsDraft unaryEnv) .initial thirdAttempt ∧
      Throughout (draftingStep unaryEnv) (SucceededRightly unaryEnv) .initial thirdAttempt := by
  have hrun := reaches_get thirdAttempt_run
  exact ⟨_, hrun.of_restrict, by
    decide +kernel, by decide +kernel, transient_failures_retried unaryEnv_faithful hrun⟩

/-- A call of the drafting agent times out in the first of three attempts. -/
def timedOut : List DraftingAct :=
  [startPlant, .acquire 1 (.acquireSpecific sampleTenant 100 "w1" 60), .enter "w1",
    .progress "w1" .null 1, .except "w1" timeout 2, .settle "w1" 3 lowestDraw,
    .acquire 10 (.acquireSpecific sampleTenant 100 "w2" 60),
    .enter "w2", .settle "w2" 11 lowestDraw]

theorem timedOut_run : (timedOut.foldlM (draftingStep unaryEnv) .initial).isSome = true := by
  decide +kernel

/-- The retry finds the session failed and the run succeeds: nothing was drafted, and no
user has touched the session. -/
theorem retry_finds_failed_session : ∃ s, Reaches (draftingStep unaryEnv) .initial timedOut s ∧
    s.store.run.rows.map (fun r => (r.status, r.attempt, r.maxAttempts, r.result)) =
      [(.succeeded, 2, 3, some (alreadyDone .failed))] ∧
    s.db.statusOf 1 = some .failed ∧ s.journal = [] ∧ ¬ SucceededRightly unaryEnv s := by
  refine ⟨_, reaches_get timedOut_run, by decide +kernel, by decide +kernel, by decide +kernel, ?_⟩
  intro hright
  have hrow : ∃ r ∈
      ((timedOut.foldlM (draftingStep unaryEnv) .initial).get timedOut_run).store.run.rows,
      r.workload = workload ∧ r.status = .succeeded := by decide +kernel
  obtain ⟨r, hr, hworkload, hsucceeded⟩ := hrow
  obtain ⟨id, -, hexcused⟩ := hright r hr hworkload hsucceeded
  have hjournal :
      ((timedOut.foldlM (draftingStep unaryEnv) .initial).get timedOut_run).journal = [] := by
    decide +kernel
  rw [hjournal] at hexcused
  rcases hexcused with h | h | h <;> cases h

end AgenticPlatform.Onboarding
