import AgenticPlatform.Correctness.LeaseSystem

/-!
# The back-off that a provider asks for

A handler that raises `TransientError` may carry the provider's own waiting time. The
worker hands it to `fail`, which stores the time the run is available from again. No
acquisition takes a pending run before that time, whatever the other workers, reapers and
clients do meanwhile; the stored time itself is capped.
-/
namespace AgenticPlatform.Correctness
open AgenticPlatform.Foundation AgenticPlatform.Identity AgenticPlatform.Db

structure TransientError where
  message : String
  retryAfterS : Option Time

/-- What the worker does about it. -/
def TransientError.call (exc : TransientError) (u : Draw) : HolderCall :=
  .fail exc.message true exc.retryAfterS u

/-! ## The delay -/

section
variable (c : RetrySettings) (attempt : Nat) (u : Draw)

theorem retryDelay_le_max (retryAfter : Option Time) :
    retryDelay c attempt retryAfter u ≤ c.runRetryMaxSeconds :=
  min_le_left _ _

/-- The delay covers the guidance exactly where the cap does. -/
theorem le_retryDelay_iff (r : Time) :
    r ≤ retryDelay c attempt (some r) u ↔ r ≤ c.runRetryMaxSeconds := by
  constructor
  · intro h
    exact h.trans (retryDelay_le_max c attempt u (some r))
  · intro h
    have hexp : 0 ≤ min c.runRetryMaxSeconds (c.runRetryBaseSeconds * 2 ^ (attempt - 1)) :=
      le_min c.max_pos.le (mul_nonneg c.base_pos.le (by positivity))
    have hbase : 0 ≤ max (min c.runRetryMaxSeconds (c.runRetryBaseSeconds * 2 ^ (attempt - 1))) r :=
      hexp.trans (le_max_left _ _)
    have hjitter := mul_nonneg (mul_nonneg hbase c.jitter_bounds.1) u.2.1
    refine le_min h ?_
    exact (le_max_right _ _).trans (le_add_of_nonneg_right hjitter)

end

/-! ## A run that waits -/

/-- A row that no acquisition takes before the time. -/
def waiting (time : Time) (r : RunRow) : Prop :=
  r.status ≠ .leased ∧ (r.status = .pending → time ≤ r.availableAt)

/-- A waiting row is left waiting by whatever happens before the time. -/
theorem waiting_rowStep {c : RetrySettings} {now time : Time} {e : LeaseEvent} {r r' : RunRow}
    (hr : waiting time r) (h : RowStep c now e r r') : waiting time r' ∨ time ≤ now := by
  cases h with
  | same => exact Or.inl hr
  | lease tenant worker lease hv hl => exact Or.inr ((hr.2 hl.1).trans hl.2.2.1)
  | call call hid hf => exact absurd hf.2.1 hr.1
  | reap grace draw hexp => exact absurd hexp.1 hr.1
  | cancel by_ =>
    left
    by_cases hp : r.status = .pending
    · simp [waiting, cancelRow, hp]
    · simpa [waiting, cancelRow, hp] using hr.1

/-- The rows of the run wait. -/
structure WaitsUntil (time : Time) (id : Uuid) (s : LeaseState) : Prop where
  known : id ∈ s.db.run.keys
  rows : ∀ r ∈ s.db.run.rows, r.id = id → waiting time r

section
variable {c : RetrySettings} {s t : LeaseState} {a : Time × LeaseOp} {time : Time} {id : Uuid}

theorem waitsUntil_step (h : WaitsUntil time id s) (hstep : leaseStep c s a = some t) :
    WaitsUntil time id t ∨ time ≤ a.1 := by
  obtain ⟨e, hex, -, -⟩ := leaseStep_eq_some.mp hstep
  rcases exec_rows hex with ⟨release, trace, q, runId, outboxId, -, -, hnew, hrows⟩ |
    ⟨g, hrows, hg, -⟩
  · left
    constructor
    · rw [Table.keys, hrows, List.map_append]
      exact List.mem_append_left _ h.known
    · intro r hr hid
      rw [hrows, List.mem_append, List.mem_singleton] at hr
      rcases hr with hr | rfl
      · exact h.rows r hr hid
      · have hsame : id = runId := hid.symm
        exact absurd (hsame ▸ h.known) hnew
  · by_cases hlate : time ≤ a.1
    · exact Or.inr hlate
    · left
      constructor
      · obtain ⟨r, hr, hid⟩ := Table.mem_keys.mp h.known
        refine Table.mem_keys.mpr ⟨g r, ?_, (hg r hr).id_eq.trans hid⟩
        rw [hrows]
        exact List.mem_map_of_mem hr
      · intro r' hr' hid
        rw [hrows] at hr'
        obtain ⟨r, hr, rfl⟩ := List.mem_map.mp hr'
        have hwaits := h.rows r hr ((hg r hr).id_eq.symm.trans hid)
        exact (waiting_rowStep hwaits (hg r hr)).resolve_right hlate

/-- An acquisition of a waiting run comes late enough. -/
theorem acquired_late {l : LeasedRun} (h : WaitsUntil time id s) (hstep : leaseStep c s a = some t)
    (hlog : t.log = s.log ++ [.acquired l]) (hl : l.runId = id) : time ≤ a.1 := by
  obtain ⟨e, hex, -, hlog'⟩ := leaseStep_eq_some.mp hstep
  obtain rfl : e = .acquired l := by simpa using hlog'.symm.trans hlog
  rcases exec_rows hex with ⟨release, trace, q, runId, outboxId, -, he, -, -⟩ | ⟨g, -, hg, -⟩
  · cases he
  · obtain ⟨r, hr, hid⟩ := Table.mem_keys.mp h.known
    have hwaits := h.rows r hr hid
    have hrow := hg r hr
    generalize g r = r' at hrow
    cases hrow with
    | same hnot => exact absurd (hl.trans hid.symm) hnot
    | lease tenant worker lease hv hleasable => exact (hwaits.2 hleasable.1).trans hleasable.2.2.1

end

/-- From here on, under clocks that do not go back, nobody is handed the run before the time. -/
def NotAcquiredBefore (c : RetrySettings) (s : LeaseState) (id : Uuid) (time : Time) : Prop :=
  ∀ acts a m n l, Reaches (leaseStep c) s acts m → leaseStep c m a = some n →
    n.log = m.log ++ [.acquired l] → l.runId = id → ((acts ++ [a]).map Prod.fst).Pairwise (· ≤ ·) →
    time ≤ a.1

theorem WaitsUntil.notAcquiredBefore {c : RetrySettings} {s : LeaseState} {id : Uuid} {time : Time}
    (h : WaitsUntil time id s) : NotAcquiredBefore c s id time := by
  intro acts a m n l hrun hstep hlog hl hclocks
  induction acts generalizing s with
  | nil =>
    cases reaches_nil.mp hrun
    exact acquired_late h hstep hlog hl
  | cons b acts ih =>
    obtain ⟨m', hm', hrun⟩ := reaches_cons.mp hrun
    rw [List.cons_append, List.map_cons, List.pairwise_cons] at hclocks
    rcases waitsUntil_step h hm' with hwaits | hlate
    · exact ih hwaits hrun hclocks.2
    · -- The run may be handed out from now on, and the clock has passed the time.
      exact hlate.trans (hclocks.1 a.1 (by simp))

/-! ## A failure with guidance -/

section
variable {c : RetrySettings} {s t : LeaseState} {now : Time} {l : LeasedRun} {row : RunRow}

/-- What a holder's accepted call leaves of the row. -/
theorem row_of_call {call : HolderCall} (hrow : row ∈ s.db.run.rows) (hid : row.id = l.runId)
    (hfenced : fenced l row) (hguard : call.guard row)
    (hstep : leaseStep c s (now, .call l call) = some t) :
    ∀ r ∈ t.db.run.rows, r.id = l.runId → r = call.set c now l row := by
  obtain ⟨e, hex, -, -⟩ := leaseStep_eq_some.mp hstep
  obtain ⟨he, hdb⟩ := exec_call hex
  have hheld : (call.exec c s.db.run now l).2 = true := by
    obtain ⟨hp, hset, heq⟩ := call.exec_eq c s.db.run now l
    rw [heq]
    exact (fencedUpdate_spec s.db.run l call.guard _ hset).1.mpr ⟨row, hrow, hid, hfenced, hguard⟩
  rw [hheld] at he
  obtain ⟨g, hrows, hg, -⟩ := call_rewrites c s.db.run now l call
  rw [hheld] at hg
  intro r hr hr_id
  rw [hdb] at hr
  change r ∈ (call.exec c s.db.run now l).1.rows at hr
  rw [hrows] at hr
  obtain ⟨r₀, hr₀, rfl⟩ := List.mem_map.mp hr
  have hsame : r₀ = row :=
    Table.eq_of_key hr₀ hrow (((hg r₀ hr₀).id_eq.symm.trans hr_id).trans hid.symm)
  subst hsame
  have hstep' := hg r₀ hr₀
  generalize g r₀ = r' at hstep'
  cases hstep' with
  | same hnot => exact absurd ⟨rfl, hid.symm⟩ hnot
  | call => rfl

end

/-- The back-off of a failure at the time: the run is available from its end on, and nobody
is handed the run before. -/
structure BackOffHonoured (c : RetrySettings) (s : LeaseState) (id : Uuid) (now backOff : Time) :
    Prop where
  available : ∀ r ∈ s.db.run.rows, r.id = id → now + backOff ≤ r.availableAt
  notAcquired : NotAcquiredBefore c s id (now + backOff)

/-- The guidance of a `TransientError` is honoured exactly where it does not exceed the cap
on delays; without guidance the cap holds. -/
theorem back_off_honoured_iff (c : RetrySettings) (s t : LeaseState) (now : Time) (l : LeasedRun)
    (row : RunRow) (exc : TransientError) (r : Time) (u : Draw) (hrow : row ∈ s.db.run.rows)
    (hid : row.id = l.runId) (hfenced : fenced l row) (hcancel : row.cancelRequestedAt = none)
    (hattempts : l.attempt < l.maxAttempts) (hr : exc.retryAfterS = some r)
    (hstep : leaseStep c s (now, .call l (exc.call u)) = some t) :
    (BackOffHonoured c t l.runId now r ∧
      ∀ attempt draw, retryDelay c attempt none draw ≤ c.runRetryMaxSeconds) ↔
      r ≤ c.runRetryMaxSeconds := by
  have hguard : (exc.call u).guard row := trivial
  have hrows := row_of_call hrow hid hfenced hguard hstep
  have hterminal : failTerminal l true = false := by simp [failTerminal, hattempts]
  have hset : (exc.call u).set c now l row =
      failRow now exc.message false (retryDelay c l.attempt (some r) u) row := by
    simp only [TransientError.call, HolderCall.set, failDelay, hterminal, hr,
      Bool.false_eq_true, if_false]
  rw [hset] at hrows
  have hknown : l.runId ∈ t.db.run.keys := by
    have hkeys : t.db.run.keys = s.db.run.keys := by
      obtain ⟨e, hex, -, -⟩ := leaseStep_eq_some.mp hstep
      obtain ⟨g, hmap, hg, -⟩ := call_rewrites c s.db.run now l (exc.call u)
      rw [(exec_call hex).2, Table.keys, Table.keys]
      change (((exc.call u).exec c s.db.run now l).1.rows).map RunRow.id = _
      rw [hmap, List.map_map]
      exact List.map_congr_left (fun r hr => (hg r hr).id_eq)
    rw [hkeys, ← hid]
    exact Table.key_mem_keys hrow
  constructor
  · rintro ⟨⟨havailable, -⟩, -⟩
    obtain ⟨r', hr', hid'⟩ := Table.mem_keys.mp hknown
    have hle := havailable r' hr' hid'
    rw [hrows r' hr' hid'] at hle
    have hdelay : r ≤ retryDelay c l.attempt (some r) u := by
      have hat : (failRow now exc.message false
          (retryDelay c l.attempt (some r) u) row).availableAt =
          now + retryDelay c l.attempt (some r) u := by simp [failRow, hcancel]
      rw [hat] at hle
      linarith
    exact (le_retryDelay_iff c l.attempt u r).mp hdelay
  · intro hcap
    have hdelay := (le_retryDelay_iff c l.attempt u r).mpr hcap
    have hlate : ∀ r' ∈ t.db.run.rows, r'.id = l.runId → now + r ≤ r'.availableAt := by
      intro r' hr' hid'
      rw [hrows r' hr' hid']
      simpa [failRow, hcancel] using hdelay
    refine ⟨⟨hlate, WaitsUntil.notAcquiredBefore ⟨hknown, ?_⟩⟩,
      fun attempt draw => retryDelay_le_max c attempt draw none⟩
    intro r' hr' hid'
    refine ⟨?_, fun _ => hlate r' hr' hid'⟩
    rw [hrows r' hr' hid']
    simp [failRow, hcancel]

/-! A run that a provider throttles, under the default settings. -/

def leasedOnce : List (Time × LeaseOp) :=
  [(0, .enqueueRun "r1" .emptyObj sampleRequest 10 1),
    (0, .acquireSpecific sampleTenant 10 "w1" 60)]

def throttledLease : LeasedRun := ⟨10, sampleTenant, "echo", .emptyObj, 1, 3, "w1", 60⟩

def midDraw : Draw := ⟨1 / 2, by norm_num⟩

/-- The provider asks for two minutes, which the cap leaves. -/
theorem back_off_honoured_twoMinutes :
    ∃ s t, Reaches (leaseStep .default) LeaseState.initial leasedOnce s ∧
      leaseStep .default s
      (1, .call throttledLease (TransientError.call ⟨"throttled", some 120⟩ midDraw)) = some t ∧
      BackOffHonoured .default t 10 1 120 := by
  have hrun : ((leasedOnce.foldlM (leaseStep .default) LeaseState.initial).bind (fun s =>
      (leaseStep .default s
          (1, .call throttledLease (TransientError.call ⟨"throttled", some 120⟩ midDraw))).map
          (fun _ =>
        s.db.run.rows.map
          (fun r => decide (r.id = 10 ∧ fenced throttledLease r ∧ r.cancelRequestedAt = none))))) =
      some [true] := by decide +kernel
  obtain ⟨s, hs, hrun⟩ := Option.bind_eq_some_iff.mp hrun
  obtain ⟨t, ht, hrows⟩ := Option.map_eq_some_iff.mp hrun
  obtain ⟨row, hrow, hfacts⟩ : ∃ row ∈ s.db.run.rows, row.id = 10 ∧ fenced throttledLease row ∧
      row.cancelRequestedAt = none := by
    obtain ⟨row, rest, hcons, hhead, -⟩ := List.map_eq_cons_iff.mp hrows
    exact ⟨row, hcons ▸ List.mem_cons_self, of_decide_eq_true hhead⟩
  refine ⟨s, t, hs, ht, ?_⟩
  have hiff :=
    back_off_honoured_iff .default s t 1 throttledLease row ⟨"throttled", some 120⟩ 120 midDraw hrow
      hfacts.1 hfacts.2.1 hfacts.2.2 (by decide) rfl ht
  exact (hiff.mpr (by norm_num [RetrySettings.default])).1

/-- It asks for ten minutes; after five the run is handed out again. -/
theorem ten_minutes_cut_to_five :
    ∃ s t, Reaches (leaseStep .default) LeaseState.initial leasedOnce s ∧
      leaseStep .default s
      (1, .call throttledLease (TransientError.call ⟨"throttled", some 600⟩ midDraw)) = some t ∧
      ¬ NotAcquiredBefore .default t 10 (1 + 600) := by
  have hrun : ((leasedOnce.foldlM (leaseStep .default) LeaseState.initial).bind (fun s =>
      (leaseStep .default s
          (1, .call throttledLease (TransientError.call ⟨"throttled", some 600⟩ midDraw))).bind
          (fun t =>
        (leaseStep .default t (301, .acquireSpecific sampleTenant 10 "w2" 60)).map (fun n =>
          (n.log.getLast?.bind LeaseEvent.acquisition).map LeasedRun.runId)))) =
            some (some 10) := by decide +kernel
  obtain ⟨s, hs, hrun⟩ := Option.bind_eq_some_iff.mp hrun
  obtain ⟨t, ht, hrun⟩ := Option.bind_eq_some_iff.mp hrun
  obtain ⟨n, hn, hlast⟩ := Option.map_eq_some_iff.mp hrun
  refine ⟨s, t, hs, ht, ?_⟩
  obtain ⟨e, -, -, hlog⟩ := leaseStep_eq_some.mp hn
  rw [hlog, List.getLast?_concat] at hlast
  obtain ⟨l, hl, hid⟩ := Option.map_eq_some_iff.mp hlast
  have he : e = .acquired l := by
    cases e <;> simp [LeaseEvent.acquisition] at hl
    rw [hl]
  intro hnot
  have hlate :=
    hnot [] (301, .acquireSpecific sampleTenant 10 "w2" 60) t n l (.nil _ _) hn (he ▸ hlog)
      hid (by simp)
  norm_num at hlate

end AgenticPlatform.Correctness
