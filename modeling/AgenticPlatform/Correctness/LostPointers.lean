import AgenticPlatform.Correctness.Sweep

/-!
# Lost pointers

The sweep sees a pending run only while its mark is old enough: for a first attempt
older than the waiting time, for a retry older than the moment the retry fell due. A
retry gets its pointer from a sweep, whose mark is made at or after that moment, so the
mark hides the run from every later sweep, and a run is stranded for good if that
pointer is the one the broker loses. Below, the runs are characterised in which no
hidden run is left without a pointer.
-/
namespace AgenticPlatform.Correctness
open AgenticPlatform.Foundation AgenticPlatform.Identity AgenticPlatform.Db

/-- A run that could execute and whose mark keeps the sweep from seeing that its most
recent pointer is gone. -/
def hidden (published : Option Time) (r : RunRow) : Prop :=
  r.status = .pending ∧ r.attempt < r.maxAttempts ∧ r.cancelRequestedAt = none ∧
    ∃ t ∈ r.lastEnqueuedAt,
      (0 < r.attempt ∧ r.availableAt ≤ t) ∨ (r.attempt = 0 ∧ ∃ p ∈ published, p < t)

instance (published : Option Time) (r : RunRow) : Decidable (hidden published r) :=
  inferInstanceAs (Decidable (_ ∧ _))

/-- Marking these runs at this time hides one whose pointers have all left the broker. -/
def marksGone (s : SweepState) (ids : List Uuid) (now : Time) : Prop :=
  ∃ r ∈ s.run.rows, r.id ∈ ids ∧ ¬ inFlight s.flight r.id ∧
    hidden (s.lastPublished r.id) (markRun now r)

instance (s : SweepState) (ids : List Uuid) (now : Time) : Decidable (marksGone s ids now) :=
  inferInstanceAs (Decidable (∃ r ∈ s.run.rows, _))

/-- The last pointer of a hidden run is lost, or a run is hidden after its last pointer
has left the broker. -/
def losesTrack (s : SweepState) : SweepAct → Prop
  | .lose p =>
    ¬ inFlight (s.flight.erase p) p.runId ∧
      ∃ r ∈ s.run.rows, r.id = p.runId ∧ hidden (s.lastPublished r.id) r
  | .mark k none =>
    match s.sweepers k with
    | .marking p _ => marksGone s [p.runId] s.now
    | _ => False
  | .relay (.commit k) =>
    match s.relay.passes k with
    | .active p => marksGone s p.publishedRuns p.now
    | _ => False
  | _ => False

instance (s : SweepState) (a : SweepAct) : Decidable (losesTrack s a) := by
  unfold losesTrack
  split
  · infer_instance
  · split <;> infer_instance
  · split <;> infer_instance
  · infer_instance

/-! ## The invariant -/

/-- What a row keeps to at this reading of the clock. -/
structure RowOk (now : Time) (r : RunRow) : Prop where
  marked : ∀ t ∈ r.lastEnqueuedAt, t ≤ now
  leased : r.status = .leased → 0 < r.attempt
  first : r.attempt = 0 → r.availableAt ≤ now

/-- The pointer names a run together with its tenant. -/
def Owned (run : RunTable) (p : Pointer) : Prop := ∃ r ∈ run.rows, RunRow.pointer r = p

/-- The runs a sweep has still to publish. -/
def SweeperState.todo : SweeperState → List Pointer
  | .sending todo | .marking _ todo => todo
  | .idle | .reaped | .crashed => []

structure SweepInv (s : SweepState) : Prop where
  rows : ∀ r ∈ s.run.rows, RowOk s.now r
  passes : ∀ k p, s.relay.passes k = .active p →
    p.now ≤ s.now ∧ ∀ o ∈ p.locked, Owned s.run (OutboxRow.pointer o)
  outbox : ∀ o ∈ s.relay.db.outbox.rows, Owned s.run (OutboxRow.pointer o)
  sweeping : ∀ k, ∀ p ∈ (s.sweepers k).todo, Owned s.run p
  flight : ∀ p ∈ s.flight, Owned s.run p
  tracked : ∀ r ∈ s.run.rows, hidden (s.lastPublished r.id) r → inFlight s.flight r.id

theorem sweepInv_initial : SweepInv SweepState.initial := by
  refine ⟨?_, ?_, ?_, ?_, ?_, ?_⟩
  · intro r hr
    cases hr
  · intro k p hp
    cases hp
  · intro o ho
    cases ho
  · intro k p hp
    cases hp
  · intro p hp
    cases hp
  · intro r hr
    cases hr

theorem RowOk.later {now now' : Time} {r : RunRow} (h : RowOk now r) (hle : now ≤ now') :
    RowOk now' r where
  marked t ht := (h.marked t ht).trans hle
  leased := h.leased
  first h0 := (h.first h0).trans hle

/-- A hidden run is leasable: what hides it says that it is due. -/
theorem leasable_of_hidden {now : Time} {published : Option Time} {r : RunRow} (hok : RowOk now r)
    (h : hidden published r) : leasable now r := by
  obtain ⟨hstatus, hattempts, hcancel, t, ht, hcase⟩ := h
  refine ⟨hstatus, hattempts, ?_, hcancel⟩
  rcases hcase with ⟨-, hle⟩ | ⟨h0, -⟩
  · exact hle.trans (hok.marked t ht)
  · exact hok.first h0

/-- A run that lost its pointer and is not hidden is what the sweep looks for. -/
theorem stranded_of_not_hidden {s : SweepState} {r : RunRow} (h : LostPointer s r)
    (hvisible : ¬ hidden (s.lastPublished r.id) r) : stranded s.now r := by
  refine ⟨h.pending, h.attempts, h.due, h.uncancelled, ?_⟩
  obtain ⟨p, hp, hold⟩ := h.aged
  cases hmark : r.lastEnqueuedAt with
  | none => exact Or.inl rfl
  | some t =>
    have hclear := fun hcase => hvisible ⟨h.pending, h.attempts, h.uncancelled, t, hmark, hcase⟩
    refine Or.inr ?_
    rcases Nat.eq_zero_or_pos r.attempt with h0 | hpos
    · have hle : t ≤ p := not_lt.mp (fun hlt => hclear (Or.inr ⟨h0, p, hp, hlt⟩))
      exact Or.inl ⟨h0, t, rfl, hle.trans_lt hold⟩
    · have hlt : t < r.availableAt := not_le.mp (fun hle => hclear (Or.inl ⟨hpos, hle⟩))
      exact Or.inr ⟨hpos, t, rfl, hlt⟩

/-! ## The delays of a retry -/

theorem retryDelay_pos (c : RetrySettings) (attempt : Nat) (retryAfter : Option Time) (u : Draw) :
    0 < retryDelay c attempt retryAfter u := by
  have hexp : 0 < min c.runRetryMaxSeconds (c.runRetryBaseSeconds * 2 ^ (attempt - 1)) :=
    lt_min c.max_pos (mul_pos c.base_pos (by positivity))
  have hbase := lt_of_lt_of_le hexp (le_max_left _ (retryAfter.getD 0))
  have hjitter := mul_nonneg (mul_nonneg hbase.le c.jitter_bounds.1) u.property.1
  exact lt_min c.max_pos (add_pos_of_pos_of_nonneg hbase hjitter)

theorem reapDelay_pos (c : RetrySettings) (attempt : Nat) (u : Draw) :
    0 < reapDelay c attempt u := by
  have hjitter : 0 < 1 + c.runRetryJitterRatio * u.val :=
    add_pos_of_pos_of_nonneg one_pos (mul_nonneg c.jitter_bounds.1 u.property.1)
  exact lt_min c.max_pos (mul_pos (mul_pos c.base_pos (by positivity)) hjitter)

/-- A leased run that is given back is due only after every mark made so far. -/
theorem not_hidden_requeued {now delay : Time} {r r' : RunRow} {published : Option Time}
    (hok : RowOk now r) (hleased : r.status = .leased) (hdelay : 0 < delay)
    (hattempt : r'.attempt = r.attempt) (hmark : r'.lastEnqueuedAt = r.lastEnqueuedAt)
    (hdue : r'.availableAt = now + delay) : ¬ hidden published r' := by
  rintro ⟨-, -, -, t, ht, hcase⟩
  have hpos := hok.leased hleased
  have hle := hok.marked t (hmark ▸ ht)
  rcases hcase with ⟨-, hdue'⟩ | ⟨h0, -⟩
  · rw [hdue] at hdue'
    linarith
  · omega

/-! ## What a statement does to a row -/

theorem RowStep.pointer_eq {c : RetrySettings} {now : Time} {e : LeaseEvent} {r r' : RunRow}
    (h : RowStep c now e r r') : RunRow.pointer r' = RunRow.pointer r := by
  cases h with
  | call call => cases call <;> rfl
  | _ => rfl

theorem RowStep.ok {c : RetrySettings} {now : Time} {e : LeaseEvent} {r r' : RunRow}
    (h : RowStep c now e r r') (hok : RowOk now r) : RowOk now r' := by
  cases h with
  | same => exact hok
  | lease tenant worker lease hv hl => exact ⟨hok.marked, fun _ => Nat.succ_pos _, nofun⟩
  | call call hid hf hg =>
    have hpos := hok.leased hf.2.1
    cases call with
    | heartbeat => exact ⟨hok.marked, fun _ => hpos, hok.first⟩
    | complete => exact ⟨hok.marked, fun _ => hpos, hok.first⟩
    | fail => exact ⟨hok.marked, fun _ => hpos, fun h0 => absurd h0 hpos.ne'⟩
    | acknowledgeCancellation => exact ⟨hok.marked, fun _ => hpos, hok.first⟩
  | reap grace draw hexp hmem honly =>
    have hpos := hok.leased hexp.1
    exact ⟨hok.marked, fun _ => hpos, fun h0 => absurd h0 hpos.ne'⟩
  | cancel by_ hc =>
    refine ⟨hok.marked, ?_, hok.first⟩
    intro hleased
    refine hok.leased ?_
    by_cases hp : r.status = .pending
    · simp [cancelRow, hp] at hleased
    · simpa [cancelRow, hp] using hleased

/-- No statement of the lease protocol hides a run. -/
theorem RowStep.hidden_of {c : RetrySettings} {now : Time} {e : LeaseEvent} {r r' : RunRow}
    {published : Option Time} (h : RowStep c now e r r') (hok : RowOk now r)
    (hh : hidden published r') : hidden published r := by
  cases h with
  | same => exact hh
  | lease tenant worker lease hv hl => cases hh.1
  | call call hid hf hg =>
    rename_i l
    cases call with
    | heartbeat => exact absurd (hf.2.1.symm.trans hh.1) nofun
    | complete => cases hh.1
    | fail error retryable retryAfter u =>
      have hcancel : r.cancelRequestedAt = none := hh.2.2.1
      have hterminal : failTerminal l retryable = false := by
        by_contra hne
        have hstatus := hh.1
        simp [HolderCall.set, failRow, hcancel, eq_true_of_ne_false hne] at hstatus
      have hdue : (HolderCall.set c now l (.fail error retryable retryAfter u) r).availableAt =
          now + retryDelay c l.attempt retryAfter u := by
        simp [HolderCall.set, failRow, hcancel, hterminal, failDelay]
      exact absurd hh
        (not_hidden_requeued hok hf.2.1 (retryDelay_pos c l.attempt retryAfter u) rfl rfl hdue)
    | acknowledgeCancellation => cases hh.1
  | reap grace draw hexp hmem honly =>
    have hcancel : r.cancelRequestedAt = none := hh.2.2.1
    have hleft : ¬ r.maxAttempts ≤ r.attempt := not_le.mpr hh.2.1
    have hdue : (reapRow c now draw r).availableAt = now + reapDelay c r.attempt (draw r.id) := by
      simp [reapRow, hcancel, hleft]
    exact absurd hh
      (not_hidden_requeued hok hexp.1 (reapDelay_pos c r.attempt (draw r.id)) rfl rfl hdue)
  | cancel by_ hc =>
    obtain ⟨-, -, hcancel, -⟩ := hh
    cases hcancel

/-! ## Each step keeps the invariant -/

/-- A change of the tables, the broker possibly losing pointers with it. -/
theorem sweepInv_db {s : SweepState} {db : Store} {flight : List Pointer} (h : SweepInv s)
    (hkeep : ∀ p, Owned s.run p → Owned db.run p) (hrows : ∀ r ∈ db.run.rows, RowOk s.now r)
    (houtbox : ∀ o ∈ db.outbox.rows, Owned db.run (OutboxRow.pointer o))
    (hflight : ∀ p ∈ flight, p ∈ s.flight)
    (htracked : ∀ r ∈ db.run.rows, hidden (s.lastPublished r.id) r → inFlight flight r.id) :
    SweepInv { s with relay := { s.relay with db := db }, flight := flight } where
  rows := hrows
  passes k p hp := ⟨(h.passes k p hp).1, fun o ho => hkeep _ ((h.passes k p hp).2 o ho)⟩
  outbox := houtbox
  sweeping k p hp := hkeep p (h.sweeping k p hp)
  flight p hp := hkeep p (h.flight p (hflight p hp))
  tracked := htracked

/-- A change of the passes alone. -/
theorem sweepInv_passes {s : SweepState} {relay : RelayState} (h : SweepInv s)
    (hdb : relay.db = s.relay.db)
    (hpasses : ∀ k p, relay.passes k = .active p → p.now ≤ s.now ∧
      ∀ o ∈ p.locked, Owned s.run (OutboxRow.pointer o)) : SweepInv { s with relay := relay } := by
  have hrun : SweepState.run { s with relay := relay } = s.run := congrArg Store.run hdb
  constructor
  · rw [hrun]
    exact h.rows
  · rw [hrun]
    exact hpasses
  · show ∀ o ∈ relay.db.outbox.rows, _
    rw [hrun, hdb]
    exact h.outbox
  · rw [hrun]
    exact h.sweeping
  · rw [hrun]
    exact h.flight
  · rw [hrun]
    exact h.tracked

theorem sweepInv_send {s : SweepState} {p : Pointer} (h : SweepInv s) (hp : Owned s.run p) :
    SweepInv (s.send p) where
  rows := h.rows
  passes := h.passes
  outbox := h.outbox
  sweeping := h.sweeping
  flight := by
    intro q hq
    rcases List.mem_append.mp hq with hq | hq
    · exact h.flight q hq
    · exact List.mem_singleton.mp hq ▸ hp
  tracked := by
    intro r hr hh
    by_cases hid : r.id = p.runId
    · exact ⟨p, List.mem_append_right _ (List.mem_singleton_self p), hid.symm⟩
    · simp only [SweepState.send, Function.update_of_ne hid] at hh
      obtain ⟨q, hq, he⟩ := h.tracked r hr hh
      exact ⟨q, List.mem_append_left _ hq, he⟩

theorem sweepInv_setSweeper {s : SweepState} {k : Nat} {st : SweeperState} (h : SweepInv s)
    (hst : ∀ p ∈ st.todo, Owned s.run p) : SweepInv (s.setSweeper k st) where
  rows := h.rows
  passes := h.passes
  outbox := h.outbox
  sweeping := by
    intro k' p hp
    by_cases he : k' = k
    · subst he
      simp only [SweepState.setSweeper, Function.update_self] at hp
      exact hst p hp
    · simp only [SweepState.setSweeper, Function.update_of_ne he] at hp
      exact h.sweeping k' p hp
  flight := h.flight
  tracked := h.tracked

/-- A row by row rewriting that the lease protocol allows. -/
theorem sweepInv_rewrites {c : RetrySettings} {s : SweepState} {db : Store} {e : LeaseEvent}
    (h : SweepInv s) (hre : Rewrites c s.now e s.run db.run)
    (houtbox : db.outbox = s.relay.db.outbox) :
    SweepInv { s with relay := { s.relay with db := db } } := by
  obtain ⟨g, hrows, hg, -⟩ := hre
  have hkeep : ∀ p, Owned s.run p → Owned db.run p := by
    rintro p ⟨r, hr, rfl⟩
    exact ⟨g r, hrows ▸ List.mem_map_of_mem hr, (hg r hr).pointer_eq⟩
  apply sweepInv_db h hkeep
  · intro r' hr'
    rw [hrows] at hr'
    obtain ⟨r, hr, rfl⟩ := List.mem_map.mp hr'
    exact (hg r hr).ok (h.rows r hr)
  · rw [houtbox]
    exact fun o ho => hkeep _ (h.outbox o ho)
  · exact fun p hp => hp
  · intro r' hr' hh
    rw [hrows] at hr'
    obtain ⟨r, hr, rfl⟩ := List.mem_map.mp hr'
    rw [(hg r hr).id_eq] at hh ⊢
    exact h.tracked r hr ((hg r hr).hidden_of (h.rows r hr) hh)

theorem sweepInv_enqueue {s : SweepState} {db : Store} {release : String} {trace : Json}
    {q : EnqueueRequest} {runId id : Uuid} {outboxId : Nat} {created : Bool} (h : SweepInv s)
    (henq : enqueueRun s.relay.db s.now release trace q runId outboxId = some (db, id, created)) :
    SweepInv { s with relay := { s.relay with db := db } } := by
  rcases enqueueRun_rows henq with ⟨rfl, rfl⟩ | ⟨rfl, rfl, -, hrows⟩
  · exact h
  have hkeep : ∀ p, Owned s.run p → Owned db.run p := by
    rintro p ⟨r, hr, rfl⟩
    exact ⟨r, hrows ▸ List.mem_append_left _ hr, rfl⟩
  apply sweepInv_db h hkeep
  · intro r hr
    rw [hrows] at hr
    rcases List.mem_append.mp hr with hr | hr
    · exact h.rows r hr
    · rw [List.mem_singleton.mp hr]
      exact ⟨nofun, nofun, fun _ => le_rfl⟩
  · intro o ho
    rw [enqueueRun_outbox henq] at ho
    rcases List.mem_append.mp ho with ho | ho
    · exact hkeep _ (h.outbox o ho)
    · rw [List.mem_singleton.mp ho]
      exact ⟨newRun s.now release q id,
        hrows ▸ List.mem_append_right _ (List.mem_singleton_self _), rfl⟩
  · exact fun p hp => hp
  · intro r hr hh
    rw [hrows] at hr
    rcases List.mem_append.mp hr with hr | hr
    · exact h.tracked r hr hh
    · rw [List.mem_singleton.mp hr] at hh
      obtain ⟨-, -, -, t, ht, -⟩ := hh
      cases ht

theorem sweepInv_exec {c : RetrySettings} {s : SweepState} {op : LeaseOp} {db : Store}
    {e : LeaseEvent} (h : SweepInv s) (hexec : exec c s.relay.db s.now op = some (db, e)) :
    SweepInv { s with relay := { s.relay with db := db } } := by
  cases op with
  | enqueueRun release trace q runId outboxId =>
    obtain ⟨⟨db', id, created⟩, henq, hres⟩ := Option.map_eq_some_iff.mp hexec
    cases hres
    exact sweepInv_enqueue h henq
  | acquire tenant worker workload lease locked =>
    cases hexec
    exact sweepInv_rewrites h
      (acquire_rewrites c s.run s.now tenant worker workload lease locked) rfl
  | acquireSpecific tenant runId worker lease =>
    cases hexec
    exact sweepInv_rewrites h (acquireSpecific_rewrites c s.run s.now tenant runId worker lease) rfl
  | call l call =>
    cases hexec
    exact sweepInv_rewrites h (call_rewrites c s.run s.now l call) rfl
  | reapExpired grace draw =>
    cases hexec
    exact sweepInv_rewrites h (reapExpired_rewrites c s.run s.now grace draw) rfl
  | cancelRun ctx runId =>
    cases hexec
    exact sweepInv_rewrites h (cancelRun_rewrites c s.run s.now ctx runId) rfl

/-- Marking runs at a time already past, none of them hidden without a pointer by it. -/
theorem sweepInv_marks {s : SweepState} {db : Store} {ids : List Uuid} {at_ : Time}
    {p : RunRow → Prop} [DecidablePred p] (h : SweepInv s) (hat : at_ ≤ s.now)
    (hgone : ¬ marksGone s ids at_) (hp : ∀ r, p r → r.id ∈ ids)
    (hrun : db.run = s.run.updateWhere p (markRun at_) (fun _ => rfl))
    (houtbox : ∀ o ∈ db.outbox.rows, ∃ o' ∈ s.relay.db.outbox.rows,
      OutboxRow.pointer o = OutboxRow.pointer o') :
    SweepInv { s with relay := { s.relay with db := db } } := by
  have hkeep : ∀ q, Owned s.run q → Owned db.run q := by
    rintro q ⟨r, hr, rfl⟩
    refine ⟨Table.rewrite p (markRun at_) r, hrun ▸ List.mem_map_of_mem hr, ?_⟩
    unfold Table.rewrite
    split <;> rfl
  have hcases : ∀ r' ∈ db.run.rows, r' ∈ s.run.rows ∨ ∃ r ∈ s.run.rows, p r ∧
      r' = markRun at_ r := by
    intro r' hr'
    rw [hrun] at hr'
    exact (Table.mem_updateWhere (f := markRun at_) (fun _ => rfl) hr').imp_left And.left
  apply sweepInv_db h hkeep
  · intro r' hr'
    rcases hcases r' hr' with hr' | ⟨r, hr, -, rfl⟩
    · exact h.rows r' hr'
    · refine ⟨?_, (h.rows r hr).leased, (h.rows r hr).first⟩
      intro t ht
      cases ht
      exact hat
  · intro o ho
    obtain ⟨o', ho', he⟩ := houtbox o ho
    rw [he]
    exact hkeep _ (h.outbox o' ho')
  · exact fun q hq => hq
  · intro r' hr' hh
    rcases hcases r' hr' with hr' | ⟨r, hr, hpr, rfl⟩
    · exact h.tracked r' hr' hh
    · by_contra hnot
      exact hgone ⟨r, hr, hp r hpr, hnot, hh⟩

/-- A delivery leases the run if it is hidden, so its pointer is not needed any more. -/
theorem sweepInv_deliver {s : SweepState} {p : Pointer} {slug worker : String} {lease : Time}
    {acked : Bool} (h : SweepInv s) (hp : p ∈ s.flight) :
    SweepInv { s.setRun (acquireSpecific s.run s.now ⟨p.tenantId, slug⟩ p.runId worker lease).1 with
      flight := if acked then s.flight.erase p else s.flight } := by
  have hre :=
    acquireSpecific_rewrites RetrySettings.default s.run s.now ⟨p.tenantId, slug⟩ p.runId
      worker lease
  have hnext : SweepInv
      (s.setRun (acquireSpecific s.run s.now ⟨p.tenantId, slug⟩ p.runId worker lease).1) :=
    sweepInv_rewrites h hre rfl
  refine sweepInv_db hnext (fun _ hq => hq) hnext.rows hnext.outbox ?_ ?_
  · intro q hq
    cases acked with
    | true => exact List.mem_of_mem_erase hq
    | false => exact hq
  · intro r hr hh
    obtain ⟨q, hq, hid⟩ := hnext.tracked r hr hh
    -- a row that is still hidden was not the one the pointer names
    have hne : r.id ≠ p.runId := by
      intro he
      rcases Table.mem_updateWhere (f := leaseRow s.now lease worker) (fun _ => rfl) hr with
        ⟨hmem, hnot⟩ |
        ⟨r', -, -, rfl⟩
      · obtain ⟨r', hr', hpointer⟩ := h.flight p hp
        have hsame : r' = r :=
          Table.eq_of_key hr' hmem ((congrArg Pointer.runId hpointer).trans he.symm)
        subst hsame
        exact hnot ⟨he, congrArg Pointer.tenantId hpointer, leasable_of_hidden (h.rows r' hmem) hh⟩
      · cases hh.1
    refine ⟨q, ?_, hid⟩
    cases acked with
    | true =>
      refine (List.mem_erase_of_ne ?_).mpr hq
      rintro rfl
      exact hne hid.symm
    | false => exact hq

theorem sweepInv_lose {s : SweepState} {p : Pointer} (h : SweepInv s)
    (hkept : ¬ losesTrack s (.lose p)) : SweepInv { s with flight := s.flight.erase p } := by
  refine sweepInv_db h (fun _ hq => hq) h.rows h.outbox (fun q hq => List.mem_of_mem_erase hq) ?_
  intro r hr hh
  by_contra hgone
  by_cases hid : r.id = p.runId
  · exact hkept ⟨hid ▸ hgone, r, hr, hid, hh⟩
  · obtain ⟨q, hq, he⟩ := h.tracked r hr hh
    refine hgone ⟨q, (List.mem_erase_of_ne ?_).mpr hq, he⟩
    rintro rfl
    exact hid he.symm

/-! ## The relay inside the system -/

theorem passes_frame {s : SweepState} {k : Nat} {st : PassState} (h : SweepInv s)
    (hst : ∀ p, st = .active p → p.now ≤ s.now ∧
      ∀ o ∈ p.locked, Owned s.run (OutboxRow.pointer o)) :
    ∀ k' p, Function.update s.relay.passes k st k' = .active p → p.now ≤ s.now ∧
      ∀ o ∈ p.locked, Owned s.run (OutboxRow.pointer o) := by
  intro k' p hp
  rcases update_cases hp with ⟨rfl, he⟩ | ⟨-, hp⟩
  · exact hst p he
  · exact h.passes k' p hp

theorem Pass.markedOutbox_pointer (p : Pass) (o : OutboxRow) :
    OutboxRow.pointer (p.markedOutbox o) = OutboxRow.pointer o := by
  unfold Pass.markedOutbox
  cases p.markOf o.id with
  | none => rfl
  | some m => cases m <;> rfl

theorem sweepInv_relay {s : SweepState} {a : RelayAct} {relay : RelayState} (h : SweepInv s)
    (hkept : ¬ losesTrack s (.relay a)) (hbegins : beginsAt s.now a)
    (hrelay : relayStep s.relay a = some relay) :
    SweepInv ((handed s.relay a).elim { s with relay := relay }
      (fun o => SweepState.send { s with relay := relay } (OutboxRow.pointer o))) := by
  cases a with
  | begin k now limit =>
    obtain ⟨-, rfl⟩ := relayStep_begin hrelay
    refine sweepInv_passes h rfl (passes_frame h ?_)
    rintro p hp
    cases hp
    exact ⟨le_of_eq hbegins, fun o ho => by cases ho⟩
  | lock k =>
    obtain ⟨p, id, waiting, hp, -, hcase⟩ := relayStep_lock hrelay
    have hold := h.passes k p hp
    rcases hcase with ⟨o, -, hget, rfl⟩ | ⟨-, rfl⟩
    · refine sweepInv_passes h rfl (passes_frame h ?_)
      rintro p' hp'
      cases hp'
      refine ⟨hold.1, ?_⟩
      intro o' ho'
      rcases List.mem_append.mp ho' with ho' | ho'
      · exact hold.2 o' ho'
      · rw [List.mem_singleton.mp ho']
        exact h.outbox o (Table.get_eq_some.mp hget).1
    · refine sweepInv_passes h rfl (passes_frame h ?_)
      rintro p' hp'
      cases hp'
      exact hold
  | publish k error =>
    obtain ⟨p, o, locked, hp, -, hlocked, rfl⟩ := relayStep_publish hrelay
    have hold := h.passes k p hp
    rw [hlocked] at hold
    have hnext : SweepInv { s with relay := { s.relay with
        passes := Function.update s.relay.passes k (.active
          { p with locked := locked, marks := p.marks ++ [(o, error.elim .published .failed)] })
        publishes := s.relay.publishes ++ [⟨k, o.id, error.isNone⟩] } } := by
      refine sweepInv_passes h rfl (passes_frame h ?_)
      rintro p' hp'
      cases hp'
      exact ⟨hold.1, fun o' ho' => hold.2 o' (List.mem_cons_of_mem _ ho')⟩
    cases error with
    | some e => exact hnext
    | none =>
      have hhead : handed s.relay (.publish k none) = some o := by
        simp only [handed, hp, hlocked, List.head?_cons]
      rw [hhead]
      exact sweepInv_send hnext (hold.2 o List.mem_cons_self)
  | commit k =>
    obtain ⟨p, hp, -, -, rfl⟩ := relayStep_commit hrelay
    have hgone : ¬ marksGone s p.publishedRuns p.now := by
      simpa only [losesTrack, hp] using hkept
    have hmarked : SweepInv { s with relay := { s.relay with db := p.commitTo s.relay.db } } := by
      refine sweepInv_marks h (h.passes k p hp).1 hgone (fun _ hr => hr) rfl ?_
      intro o ho
      obtain ⟨o', ho', rfl⟩ := List.mem_map.mp ho
      exact ⟨o', ho', p.markedOutbox_pointer o'⟩
    have hended := @sweepInv_passes _ { s.relay with
      db := p.commitTo s.relay.db
      passes := Function.update s.relay.passes k .committed
      locks := release s.relay.locks k } hmarked rfl (passes_frame hmarked nofun)
    exact hended
  | crash k =>
    obtain ⟨p, -, rfl⟩ := relayStep_crash hrelay
    exact sweepInv_passes h rfl (passes_frame h nofun)

theorem sweepInv_step {c : RetrySettings} {s t : SweepState} {a : SweepAct} (h : SweepInv s)
    (hstep : restrict (fun s a => ¬ losesTrack s a) (sweepStep c) s a = some t) : SweepInv t := by
  obtain ⟨hkept, hstep⟩ := restrict_eq_some.mp hstep
  cases a with
  | tick now =>
    simp only [sweepStep] at hstep
    split at hstep
    · rename_i hle
      cases hstep
      exact ⟨fun r hr => (h.rows r hr).later hle,
        fun k p hp => ⟨(h.passes k p hp).1.trans hle, (h.passes k p hp).2⟩, h.outbox, h.sweeping,
        h.flight, h.tracked⟩
    · cases hstep
  | exec op =>
    obtain ⟨⟨db, e⟩, hexec, rfl⟩ := Option.map_eq_some_iff.mp hstep
    exact sweepInv_exec h hexec
  | relay a =>
    simp only [sweepStep] at hstep
    split at hstep
    · obtain ⟨relay, hrelay, rfl⟩ := Option.map_eq_some_iff.mp hstep
      exact sweepInv_relay h hkept ‹_› hrelay
    · cases hstep
  | sweep k draw =>
    simp only [sweepStep] at hstep
    split at hstep
    · cases hstep
      have hreaped : SweepInv (s.setRun (reapExpired c s.run s.now 0 draw).1) :=
        sweepInv_rewrites h (reapExpired_rewrites c s.run s.now 0 draw) rfl
      exact sweepInv_setSweeper hreaped (fun _ h => (by cases h))
    · cases hstep
  | query k =>
    simp only [sweepStep] at hstep
    split at hstep
    · cases hstep
      apply sweepInv_setSweeper h
      intro p hp
      obtain ⟨r, hr, rfl⟩ := List.mem_map.mp hp
      exact ⟨r, (mem_sweepOrder.mp (List.mem_of_mem_take hr)).1, rfl⟩
    · cases hstep
  | republish k error =>
    simp only [sweepStep] at hstep
    split at hstep
    · rename_i p todo hk
      cases hstep
      have howned := h.sweeping k
      rw [hk] at howned
      have htodo : ∀ q ∈ todo, Owned s.run q := fun q hq => howned q (List.mem_cons_of_mem _ hq)
      cases error with
      | none => exact sweepInv_setSweeper (sweepInv_send h (howned p List.mem_cons_self)) htodo
      | some e => exact sweepInv_setSweeper h htodo
    · cases hstep
  | mark k error =>
    simp only [sweepStep] at hstep
    split at hstep
    · rename_i p todo hk
      cases hstep
      have htodo := h.sweeping k
      rw [hk] at htodo
      cases error with
      | none =>
        have hgone : ¬ marksGone s [p.runId] s.now := by
          simpa only [losesTrack, hk] using hkept
        have hmarked : SweepInv (s.setRun (markPublished s.run s.now p.runId)) :=
          sweepInv_marks h le_rfl hgone (fun r hr => List.mem_singleton.mpr hr) rfl
            (fun o ho => ⟨o, ho, rfl⟩)
        apply sweepInv_setSweeper hmarked
        intro q hq
        obtain ⟨r, hr, rfl⟩ := htodo q hq
        refine ⟨_, List.mem_map_of_mem hr, ?_⟩
        unfold Table.rewrite
        split <;> rfl
      | some e => exact sweepInv_setSweeper h htodo
    · cases hstep
  | crash k =>
    cases hstep
    exact sweepInv_setSweeper h (fun _ h => (by cases h))
  | deliver p slug worker lease acked =>
    simp only [sweepStep] at hstep
    split at hstep
    · cases hstep
      exact sweepInv_deliver h ‹_›
    · cases hstep
  | lose p =>
    simp only [sweepStep] at hstep
    split at hstep
    · cases hstep
      exact sweepInv_lose h hkept
    · cases hstep

/-- In a run in which no hidden run is left without a pointer, every lost pointer is
recovered by the next sweep, that of a retry like that of a first attempt. -/
theorem no_stranded_run {c : RetrySettings} {acts : List SweepAct} {s : SweepState}
    (h : Reaches (restrict (fun s a => ¬ losesTrack s a) (sweepStep c)) SweepState.initial acts s) :
    NoStrandedRun s := by
  have hinv : SweepInv s := h.invariant (fun _ _ _ hs ht => sweepInv_step hs ht) sweepInv_initial
  intro r hr hlost
  have hstranded := stranded_of_not_hidden hlost (fun hh => hlost.gone (hinv.tracked r hr hh))
  exact ⟨hstranded, stranded_is_selected hr hstranded⟩

/-! ## A lost retry and a lost first pointer -/

/-- A retry marked at or after the moment it fell due is seen by no sweep, however late. -/
theorem not_stranded_of_marked {r : RunRow} {t : Time} (hpos : 0 < r.attempt)
    (hmark : t ∈ r.lastEnqueuedAt) (hle : r.availableAt ≤ t) (now : Time) : ¬ stranded now r := by
  rintro ⟨-, -, -, -, hnone | ⟨h0, -⟩ | ⟨-, t', ht', hlt⟩⟩
  · rw [hnone] at hmark
    cases hmark
  · omega
  · cases Option.mem_unique hmark ht'
    exact absurd hlt (not_lt.mpr hle)

def samplePointer : Pointer := ⟨10, 1⟩

def zeroDraw : Draw := ⟨0, zero_isDraw⟩

/-- The lease of the first attempt, as its worker was given it at this time. -/
def leaseAt (now : Time) : LeasedRun := ⟨10, sampleTenant, "echo", .emptyObj, 1, 3, "w1", now + 60⟩

/-- A run is admitted and the relay publishes its pointer. -/
def publishedRun : List SweepAct :=
  [.exec (.enqueueRun "r1" .emptyObj sampleRequest 10 1),
   .relay (.begin 0 0 100), .relay (.lock 0), .relay (.publish 0 none), .relay (.commit 0)]

def failedAttempt (now : Time) : List SweepAct :=
  [.deliver samplePointer "acme" "w1" 60 true,
    .exec (.call (leaseAt now) (.fail "timeout" true none zeroDraw))]

def sweptRun (k : Nat) : List SweepAct :=
  [.sweep k (fun _ => zeroDraw), .query k, .republish k none, .mark k none]

/-- The sweep publishes the retry, and the broker loses that pointer. -/
def retryLost : List SweepAct :=
  publishedRun ++ failedAttempt 0 ++ [.tick 10] ++ sweptRun 0 ++ [.lose samplePointer, .tick 1000]

/-- The broker loses the first pointer, the sweep publishes another one, and the attempt
it leads to fails. -/
def firstLost : List SweepAct :=
  publishedRun ++ [.lose samplePointer, .tick 50] ++ sweptRun 0 ++ failedAttempt 50 ++ [.tick 1000]

theorem retryLost_run :
    (retryLost.foldlM (sweepStep RetrySettings.default) SweepState.initial).isSome = true := by
  decide +kernel

theorem retryLost_marked :
    ∃ s, Reaches (sweepStep RetrySettings.default) SweepState.initial retryLost s ∧
      ∃ r ∈ s.run.rows, LostPointer s r ∧ 0 < r.attempt ∧
      ∃ t ∈ r.lastEnqueuedAt, r.availableAt ≤ t :=
  ⟨_, reaches_get retryLost_run, by decide +kernel⟩

/-- The retry has lost its pointer and no sweep will ever see it. -/
theorem retry_stranded :
    ∃ s, Reaches (sweepStep RetrySettings.default) SweepState.initial retryLost s ∧
      ∃ r ∈ s.run.rows, LostPointer s r ∧ ∀ now, ¬ stranded now r := by
  obtain ⟨s, hs, r, hr, hlost, hpos, t, ht, hle⟩ := retryLost_marked
  exact ⟨s, hs, r, hr, hlost, not_stranded_of_marked hpos ht hle⟩

theorem firstLost_run :
    (firstLost.foldlM (restrict (fun s a => ¬ losesTrack s a) (sweepStep RetrySettings.default))
      SweepState.initial).isSome = true := by decide +kernel

/-- The result at the other run, whose retry is waiting for its sweep. -/
theorem no_stranded_run_firstLost :
    ∃ s, Reaches (restrict (fun s a => ¬ losesTrack s a) (sweepStep RetrySettings.default))
      SweepState.initial firstLost s ∧
      (∃ r ∈ s.run.rows, 0 < r.attempt ∧ LostPointer s r) ∧ NoStrandedRun s :=
  ⟨_, reaches_get firstLost_run, by decide +kernel, no_stranded_run (reaches_get firstLost_run)⟩

end AgenticPlatform.Correctness
