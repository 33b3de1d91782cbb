import AgenticPlatform.Correctness.Fencing

/-!
# The life of a run row

`RowInv` couples the status of a run with its lease columns, its attempt counter, the
cancellation request and the finishing time. Every statement keeps it. Seven of them
decide from the row alone; `fail` decides from the worker's own copy of the lease,
and there the agreement of row and history says that the copy is current.
-/
namespace AgenticPlatform.Correctness
open AgenticPlatform.Foundation AgenticPlatform.Identity AgenticPlatform.Db

structure RowInv (r : RunRow) : Prop where
  leasedBy : r.status = .leased ↔ r.leasedBy.isSome = true
  deadline : r.status = .leased ↔ r.leaseExpiresAt.isSome = true
  attempts : r.attempt ≤ r.maxAttempts
  pending : r.status = .pending → r.attempt < r.maxAttempts ∧ r.cancelRequestedAt = none
  uncancelled : r.status = .succeeded ∨ r.status = .failed → r.cancelRequestedAt = none
  finished : r.finishedAt.isSome = true ↔ r.status.terminal = true

/-- Nothing keeps a pending run from being leased once it is due. -/
theorem leasable_of_pending {r : RunRow} (h : RowInv r) (hs : r.status = .pending) {now : Time}
    (hdue : r.availableAt ≤ now) : leasable now r := by
  obtain ⟨hlt, hc⟩ := h.pending hs
  exact ⟨hs, hlt, hdue, hc⟩

theorem rowInv_newRun (now : Time) (release : String) (q : EnqueueRequest) (runId : Uuid)
    (h : 1 ≤ q.maxAttempts) : RowInv (newRun now release q runId) := by
  constructor
  · simp [newRun]
  · simp [newRun]
  · exact Nat.zero_le _
  · intro _
    exact ⟨h, rfl⟩
  · simp [newRun]
  · simp [newRun, RunStatus.terminal]

theorem rowInv_lease {r : RunRow} {now lease : Time} {worker : String} (h : RowInv r)
    (hl : leasable now r) : RowInv (leaseRow now lease worker r) := by
  have hunfinished : r.finishedAt.isSome ≠ true := by
    rw [Ne, h.finished, hl.1]
    decide
  constructor
  · simp [leaseRow]
  · simp [leaseRow]
  · exact hl.2.1
  · intro hs
    cases hs
  · intro _
    exact hl.2.2.2
  · simp [leaseRow, RunStatus.terminal, hunfinished]

/-- The invariant of a row no one holds, by the status it was left in. -/
theorem rowInv_released {r : RunRow} (hby : r.leasedBy = none) (hdl : r.leaseExpiresAt = none)
    (hatt : r.attempt ≤ r.maxAttempts)
    (hst : (r.status = .cancelled ∧ r.finishedAt.isSome = true) ∨
      ((r.status = .succeeded ∨ r.status = .failed) ∧ r.cancelRequestedAt = none ∧
        r.finishedAt.isSome = true) ∨
      (r.status = .pending ∧ r.attempt < r.maxAttempts ∧ r.cancelRequestedAt = none ∧
        r.finishedAt = none)) : RowInv r := by
  rcases hst with ⟨hs, hfin⟩ | ⟨hs | hs, hc, hfin⟩ | ⟨hs, hlt, hc, hfin⟩
  · constructor <;> simp [hs, hby, hdl, hatt, hfin, RunStatus.terminal]
  · constructor <;> simp [hs, hby, hdl, hatt, hfin, hc, RunStatus.terminal]
  · constructor <;> simp [hs, hby, hdl, hatt, hfin, hc, RunStatus.terminal]
  · constructor <;> simp [hs, hby, hdl, hatt, hfin, hc, hlt, RunStatus.terminal]

theorem rowInv_fail {r : RunRow} {now delay : Time} {error : String} {terminal : Bool}
    (h : RowInv r) (hlt : terminal = false → r.attempt < r.maxAttempts) :
    RowInv (failRow now error terminal delay r) := by
  refine rowInv_released rfl rfl h.attempts ?_
  by_cases hc : r.cancelRequestedAt = none
  · cases hterm : terminal with
    | false =>
      have hlt' := hlt hterm
      exact Or.inr (Or.inr (by simp [failRow, hc, hlt']))
    | true => exact Or.inr (Or.inl (by simp [failRow, hc]))
  · exact Or.inl (by simp [failRow, hc])

theorem rowInv_reap {c : RetrySettings} {now : Time} {draw : Uuid → Draw} {r : RunRow}
    (h : RowInv r) : RowInv (reapRow c now draw r) := by
  refine rowInv_released rfl rfl h.attempts ?_
  by_cases hc : r.cancelRequestedAt = none
  · by_cases hm : r.maxAttempts ≤ r.attempt
    · exact Or.inr (Or.inl (by simp [reapRow, hc, hm]))
    · exact Or.inr (Or.inr (by simp [reapRow, hc, hm]; omega))
  · exact Or.inl (by simp [reapRow, hc])

theorem rowInv_cancel {now : Time} {by_ : Uuid} {r : RunRow} (h : RowInv r) (hc : cancellable r) :
    RowInv (cancelRow now by_ r) := by
  have hby := h.leasedBy
  have hdl := h.deadline
  have hfin := h.finished
  rcases hc with hs | hs | hs <;> rw [hs] at hby hdl hfin
  · refine ⟨?_, ?_, h.attempts, ?_, ?_, ?_⟩ <;> simp_all [cancelRow, RunStatus.terminal]
  · refine ⟨?_, ?_, h.attempts, ?_, ?_, ?_⟩ <;> simp_all [cancelRow, RunStatus.terminal]
  · refine ⟨?_, ?_, h.attempts, ?_, ?_, ?_⟩ <;> simp_all [cancelRow, RunStatus.terminal]

theorem rowInv_call {c : RetrySettings} {now : Time} {l : LeasedRun} {call : HolderCall}
    {r : RunRow} (h : RowInv r) (hst : r.status = .leased) (hg : call.guard r)
    (hcopy : l.attempt = r.attempt ∧ l.maxAttempts = r.maxAttempts) :
    RowInv (call.set c now l r) := by
  cases call with
  | heartbeat extend =>
    refine ⟨h.leasedBy, ?_, h.attempts, h.pending, h.uncancelled, h.finished⟩
    simp [HolderCall.set, heartbeatRow, hst]
  | complete result =>
    exact rowInv_released rfl rfl h.attempts (Or.inr (Or.inl ⟨Or.inl rfl, hg, rfl⟩))
  | fail error retryable retryAfter u =>
    refine rowInv_fail h ?_
    intro hterm
    simp only [failTerminal, Bool.or_eq_false_iff, decide_eq_false_iff_not] at hterm
    omega
  | acknowledgeCancellation =>
    exact rowInv_released rfl rfl h.attempts (Or.inl ⟨rfl, rfl⟩)

/-- One row step keeps the invariant; the history supplies what `fail` needs. -/
theorem rowInv_rowStep {c : RetrySettings} {now : Time} {log : LeaseLog} {e : LeaseEvent}
    {r r' : RunRow} (hw : ((issued log).map LeasedRun.leasedBy).Nodup)
    (hcall : ∀ l call held, e = .answered l call held → l ∈ issued log)
    (ha : Agrees (historyOf log r.id) r) (h : RowInv r) (hstep : RowStep c now e r r') :
    RowInv r' := by
  cases hstep with
  | same => exact h
  | lease tenant worker lease hv hl => exact rowInv_lease h hl
  | call call hid hf hg =>
    have hh := holder_of_fenced hw ha (hcall _ _ _ rfl) hf
    exact rowInv_call h hf.2.1 hg (ha.copy _ hh)
  | reap grace draw hexp => exact rowInv_reap h
  | cancel by_ hc => exact rowInv_cancel h hc

/-- Every row keeps its coupling, along with the agreement the step relies on. -/
structure LifecycleInv (s : LeaseState) : Prop where
  fencing : FencingInv s
  rows : ∀ r ∈ s.db.run.rows, RowInv r

theorem lifecycleInv_initial : LifecycleInv LeaseState.initial :=
  ⟨fencingInv_initial, fun _ hr => absurd hr Table.mem_empty⟩

theorem lifecycleInv_step {c : RetrySettings} {s t : LeaseState} {a : Time × LeaseOp}
    (h : LifecycleInv s) (hstep : fencedStep c s a = some t) : LifecycleInv t := by
  refine ⟨fencingInv_step h.fencing hstep, ?_⟩
  obtain ⟨e, hex, hcall, -⟩ := leaseStep_eq_some.mp (restrict_eq_some.mp hstep).2
  have hans := issued_of_answered hex hcall
  intro r' hr'
  rcases exec_rows hex with ⟨release, trace, q, runId, outboxId, hop, -, -, hrows⟩ |
    ⟨g, hrows, hg, -⟩
  · rw [hrows, List.mem_append, List.mem_singleton] at hr'
    rcases hr' with hr' | rfl
    · exact h.rows r' hr'
    · rw [hop] at hcall
      exact rowInv_newRun a.1 release q runId hcall
  · rw [hrows, List.mem_map] at hr'
    obtain ⟨r, hr, rfl⟩ := hr'
    exact rowInv_rowStep h.fencing.workers hans (h.fencing.agrees r hr) (h.rows r hr) (hg r hr)

/-! ## A finished run stays as it is -/

/-- The columns a finished run keeps. -/
def Outlives (r r' : RunRow) : Prop :=
  r'.id = r.id ∧ (r.status.terminal = true →
    r'.status = r.status ∧ r'.result = r.result ∧ r'.error = r.error ∧ r'.finishedAt = r.finishedAt)

theorem Outlives.refl (r : RunRow) : Outlives r r := ⟨rfl, fun _ => ⟨rfl, rfl, rfl, rfl⟩⟩

theorem Outlives.trans {a b d : RunRow} (h : Outlives a b) (h' : Outlives b d) : Outlives a d := by
  refine ⟨h'.1.trans h.1, ?_⟩
  intro ht
  obtain ⟨hst, hres, herr, hfin⟩ := h.2 ht
  obtain ⟨hst', hres', herr', hfin'⟩ := h'.2 (by rw [hst]; exact ht)
  exact ⟨hst'.trans hst, hres'.trans hres, herr'.trans herr, hfin'.trans hfin⟩

/-- Only a repeated cancellation request still touches a finished row, and it leaves
these columns alone. -/
theorem outlives_rowStep {c : RetrySettings} {now : Time} {e : LeaseEvent} {r r' : RunRow}
    (h : RowStep c now e r r') : Outlives r r' := by
  refine ⟨h.id_eq, ?_⟩
  intro ht
  cases h with
  | same => exact ⟨rfl, rfl, rfl, rfl⟩
  | lease tenant worker lease hv hl =>
    rw [hl.1] at ht
    cases ht
  | call call hid hf hg =>
    rw [hf.2.1] at ht
    cases ht
  | reap grace draw hexp =>
    rw [hexp.1] at ht
    cases ht
  | cancel by_ hc =>
    have hs : r.status ≠ .pending := by
      intro hs
      rw [hs] at ht
      cases ht
    exact ⟨if_neg hs, rfl, rfl, if_neg hs⟩

theorem outlives_reaches {c : RetrySettings} {acts : List (Time × LeaseOp)} {s t : LeaseState}
    (h : Reaches (leaseStep c) s acts t) :
    ∀ r ∈ s.db.run.rows, ∃ r' ∈ t.db.run.rows, Outlives r r' := by
  refine h.relates
    (R := fun s t => ∀ r ∈ s.db.run.rows, ∃ r' ∈ t.db.run.rows, Outlives r r') ?_ ?_ ?_
  · intro s r hr
    exact ⟨r, hr, .refl r⟩
  · intro s m t h₁ h₂ r hr
    obtain ⟨r₁, hr₁, ho₁⟩ := h₁ r hr
    obtain ⟨r₂, hr₂, ho₂⟩ := h₂ r₁ hr₁
    exact ⟨r₂, hr₂, ho₁.trans ho₂⟩
  · intro s a t hstep r hr
    obtain ⟨e, hex, -, -⟩ := leaseStep_eq_some.mp hstep
    rcases exec_rows hex with ⟨release, trace, q, runId, outboxId, -, -, -, hrows⟩ |
      ⟨g, hrows, hg, -⟩
    · exact ⟨r, by rw [hrows]; exact List.mem_append_left _ hr, .refl r⟩
    · exact ⟨g r, by rw [hrows]; exact List.mem_map_of_mem hr, outlives_rowStep (hg r hr)⟩

/-- The lease state machine: in every state a run of the system reaches, every row is
coupled as `RowInv` says, a pending row can be leased as soon as it is due, and a
finished row keeps its status, result, error and finishing time for ever. -/
theorem run_lease_state_machine (c : RetrySettings) (acts : List (Time × LeaseOp)) (s : LeaseState)
    (h : Reaches (fencedStep c) LeaseState.initial acts s) :
    (∀ r ∈ s.db.run.rows, RowInv r ∧
      (r.status = .pending → ∀ now, r.availableAt ≤ now → leasable now r)) ∧
    (∀ later t, Reaches (leaseStep c) s later t → ∀ r ∈ s.db.run.rows, r.status.terminal = true →
      ∃ r' ∈ t.db.run.rows, r'.id = r.id ∧ r'.status = r.status ∧ r'.result = r.result ∧
        r'.error = r.error ∧ r'.finishedAt = r.finishedAt) := by
  have hinv : LifecycleInv s :=
    h.invariant (fun _ _ _ hs ht => lifecycleInv_step hs ht) lifecycleInv_initial
  constructor
  · intro r hr
    exact ⟨hinv.rows r hr, fun hs _ hdue => leasable_of_pending (hinv.rows r hr) hs hdue⟩
  · intro later t hlater r hr ht
    obtain ⟨r', hr', hid, hkeep⟩ := outlives_reaches hlater r hr
    exact ⟨r', hr', hid, hkeep ht⟩

/-- The state machine at a run that is retried once and then succeeds. -/
theorem run_lease_state_machine_retriedRun :
    ∃ s, Reaches (fencedStep .default) LeaseState.initial retriedRun s ∧ s.db.run.rows ≠ [] ∧
      ∀ r ∈ s.db.run.rows, RowInv r :=
  ⟨_, reaches_get retriedRun_runs, by decide +kernel, fun r hr =>
    ((run_lease_state_machine .default retriedRun _ (reaches_get retriedRun_runs)).1 r hr).1⟩

end AgenticPlatform.Correctness
