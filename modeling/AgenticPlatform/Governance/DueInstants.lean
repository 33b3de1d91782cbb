import AgenticPlatform.Governance.ScheduledOnce

/-!
# The seconds of due instants

A key holds the second of a due instant. Served instants of one policy lie more than a
second apart as long as no edit stalls: it is stamped with the start of its transaction, so
an UPDATE that comes 899 seconds later or more can pull `next_run_at` back to an instant
whose second is taken, and that instant gets no run of its own.
-/
namespace AgenticPlatform.Governance
open AgenticPlatform.Foundation AgenticPlatform.Identity AgenticPlatform.Db
  AgenticPlatform.Correctness

/-! ## Seconds -/

theorem epochSeconds_near (t : Time) : |(epochSeconds t : Time) - t| ≤ 1 / 2 := by
  unfold epochSeconds
  split
  · have hlow := Int.floor_le (t + 1 / 2)
    have hhigh := Int.lt_floor_add_one (t + 1 / 2)
    rw [abs_le]
    constructor <;> linarith
  · have hlow := Int.le_ceil (t - 1 / 2)
    have hhigh := Int.ceil_lt_add_one (t - 1 / 2)
    rw [abs_le]
    constructor <;> linarith

theorem near_of_epochSeconds {t u : Time} (h : epochSeconds t = epochSeconds u) : u ≤ t + 1 := by
  have ht := abs_le.mp (epochSeconds_near t)
  have hu := abs_le.mp (epochSeconds_near u)
  rw [h] at ht
  linarith [ht.2, hu.1]

/-! ## Instants apart -/

/-- The UPDATE of an edit comes less than 899 seconds after the start of its transaction. -/
def promptEdits (s : SchedulerState) : SchedulerAct → Prop
  | .update n _ => ∀ x ∈ s.txns n, s.clock < x.now + 899
  | _ => True

instance (s : SchedulerState) : (a : SchedulerAct) → Decidable (promptEdits s a)
  | .update n _ => inferInstanceAs (Decidable (∀ x ∈ s.txns n, s.clock < x.now + 899))
  | .tick _ | .enqueue .. | .save .. | .begin .. | .lock .. | .serve .. | .commit _ | .abort _ =>
    isTrue trivial

/-- The policy is due more than a second after each instant of it that was served. -/
def SchedulerState.Past (s : SchedulerState) (p : PolicyRow) : Prop :=
  ∀ e ∈ s.served, e.policy.id = p.id → e.instant + 1 < p.nextRunAt

/-- A later service of the policy is of a later second. -/
def Spaced (e e' : Served) : Prop := e.policy.id = e'.policy.id → e.instant + 1 < e'.instant

structure SpacedInv (s : SchedulerState) : Prop where
  row : ∀ p ∈ s.policies.rows, s.Past p
  /-- The policy as an open transaction is about to leave it. -/
  write : ∀ p ∈ s.policies.rows, ∀ l w, s.locks p.id = some l → l.write = some w →
    s.Past (w.apply p)
  spaced : s.served.Pairwise Spaced

theorem spacedInv_initial (clock : Time) (policies : PolicyTable) :
    SpacedInv (.initial clock policies) where
  row _ _ _ he := absurd he List.not_mem_nil
  write _ _ _ _ hl := absurd hl nofun
  spaced := .nil

/-- Only writes that are new need a look where the policies stay. -/
theorem SpacedInv.within {s t : SchedulerState} (h : SpacedInv s)
    (hpolicies : t.policies = s.policies) (hserved : t.served = s.served)
    (hwrite : ∀ p ∈ s.policies.rows, ∀ l w, t.locks p.id = some l → l.write = some w →
      s.locks p.id = some l ∨ s.Past (w.apply p)) : SpacedInv t where
  row p hp e he := h.row p (hpolicies ▸ hp) e (hserved ▸ he)
  write p hp l w hl hw e he := by
    rw [hpolicies] at hp
    rcases hwrite p hp l w hl hw with hsame | hpast
    · exact h.write p hp l w hsame hw e (hserved ▸ he)
    · exact hpast e (hserved ▸ he)
  spaced := hserved ▸ h.spaced

/-- The lock of one policy gets another content. -/
theorem SpacedInv.setLock {s t : SchedulerState} {p : PolicyRow} {l : Lock} (h : SpacedInv s)
    (hp : s.policies.get p.id = some p) (hpolicies : t.policies = s.policies)
    (hserved : t.served = s.served) (hlocks : t.locks = Function.update s.locks p.id (some l))
    (hl : ∀ w, l.write = some w → s.Past (w.apply p)) : SpacedInv t := by
  refine h.within hpolicies hserved ?_
  intro q hq l' w hl' hw
  rw [hlocks] at hl'
  rcases update_eq_some hl' with ⟨hid, rfl⟩ | ⟨-, hl'⟩
  · cases Table.eq_of_key hq (Table.get_eq_some.mp hp).1 hid
    exact Or.inr (hl w hw)
  · exact Or.inl hl'

/-- Policies that are not locked may be written and added, as long as none is moved. -/
theorem SpacedInv.saved {env : ScheduleEnv} {s : SchedulerState} {policies : PolicyTable}
    (hinv : SchedulerInv env s) (h : SpacedInv s)
    (hlocked : ∀ p ∈ policies.rows, s.locks p.id ≠ none → p ∈ s.policies.rows)
    (hrows : ∀ p ∈ policies.rows, p.id ∈ s.policies.keys → ∃ q ∈ s.policies.rows, q.id = p.id ∧
      q.nextRunAt = p.nextRunAt) : SpacedInv { s with policies := policies } where
  row p hp e he hid := by
    obtain ⟨q, hq, hqid, -⟩ := (hinv.served e he).policy
    obtain ⟨q', hq', hid', hnext⟩ := hrows p hp (Table.mem_keys.mpr ⟨q, hq, hqid.trans hid⟩)
    exact hnext ▸ h.row q' hq' e he (hid.trans hid'.symm)
  write p hp l w hl hw := by
    have hsome : s.locks p.id ≠ none := by
      rw [show s.locks p.id = some l from hl]
      exact Option.some_ne_none l
    exact h.write p (hlocked p hp hsome) l w hl hw
  spaced := h.spaced

theorem SpacedInv.savedAgain {env : ScheduleEnv} {s : SchedulerState} {p : PolicyRow} {by_ : Uuid}
    (hinv : SchedulerInv env s) (h : SpacedInv s) (hfree : s.locks p.id = none) :
    SpacedInv { s with
      policies := s.policies.updateWhere (fun x => x.id = p.id) (savedAgain s.clock by_)
          (fun _ => rfl) } := by
  have hid : ∀ x, (Governance.savedAgain s.clock by_ x).id = x.id := fun _ => rfl
  refine h.saved hinv ?_ ?_
  · intro q hq hlocked
    rcases Table.mem_updateWhere hid hq with ⟨hq, -⟩ | ⟨x, -, hx, rfl⟩
    · exact hq
    · exact absurd ((congrArg s.locks hx).trans hfree) hlocked
  · intro q hq _
    rcases Table.mem_updateWhere hid hq with ⟨hq, -⟩ | ⟨x, hx, -, rfl⟩
    · exact ⟨q, hq, rfl, rfl⟩
    · exact ⟨x, hx, rfl, rfl⟩

theorem SpacedInv.inserted {env : ScheduleEnv} {s : SchedulerState} {policy : PolicyRow}
    {policies : PolicyTable} (hinv : SchedulerInv env s) (h : SpacedInv s)
    (hins : s.policies.tryInsert policy = some policies) :
    SpacedInv { s with policies := policies } := by
  obtain ⟨hfresh, hrows⟩ := Table.tryInsert_eq_some hins
  have hcases : ∀ q ∈ policies.rows, q.id ∈ s.policies.keys → q ∈ s.policies.rows := by
    intro q hq hold
    rw [hrows, List.mem_append, List.mem_singleton] at hq
    rcases hq with hq | rfl
    · exact hq
    · exact absurd hold hfresh
  refine h.saved hinv ?_ (fun q hq hold => ⟨q, hcases q hq hold, rfl, rfl⟩)
  intro q hq hlocked
  obtain ⟨l, hl⟩ := Option.ne_none_iff_exists'.mp hlocked
  exact hcases q hq (hinv.present q.id l hl)

/-- A service moves a due policy on. -/
theorem past_served {s : SchedulerState} {p : PolicyRow} {now : Time} {w : Write} (h : s.Past p)
    (hw : w.serves now) (hdue : p.nextRunAt ≤ now) : s.Past (w.apply p) := by
  intro e he hid
  have hpast := h e he (hid.trans (w.apply_id p))
  have hinterval := p.interval_ge
  rw [hw.next p]
  linarith

/-- An edit that does not stall pulls the policy back to a later second than any that was
served. -/
theorem past_edited {env : ScheduleEnv} {s : SchedulerState} {p : PolicyRow} {now : Time}
    {interval : IntervalSeconds} {topK : TopK} {by_ : Uuid} (hinv : SchedulerInv env s)
    (h : s.Past p) (hprompt : s.clock < now + 899) :
    s.Past ((Write.edited now interval topK by_).apply p) := by
  intro e he hid
  have hpast := h e he hid
  have hserved := (hinv.served e he).past
  have hbound : (900 : Time) ≤ interval.1 := by exact_mod_cast interval.2.1
  refine lt_min hpast ?_
  linarith

/-- A commit leaves each policy as it was, or as its transaction wrote it. -/
theorem SpacedInv.past_written {s : SchedulerState} (h : SpacedInv s) {n : Nat} {p : PolicyRow}
    (hp : p ∈ s.policies.rows) : s.Past (s.written n p) := by
  rcases written_cases s n p with hsame | ⟨l, w, hl, -, hw, happly⟩
  · rw [hsame]
    exact h.row p hp
  · rw [happly]
    exact h.write p hp l w hl hw

theorem SpacedInv.commit {env : ScheduleEnv} {s : SchedulerState} {n : Nat} {db : Store}
    (hinv : SchedulerInv env s) (h : SpacedInv s) : SpacedInv (s.committed n db) := by
  refine ⟨?_, ?_, ?_⟩
  · intro q hq e he hid
    obtain ⟨p, hp, rfl⟩ := List.mem_map.mp hq
    rcases mem_committed he with he | ⟨p', hp', hserving⟩
    · exact h.past_written hp e he hid
    · -- the policy that was served is this one
      obtain ⟨rfl, -, -, hnext, hafter, -⟩ := serving_ok hinv hp' hserving
      cases Table.eq_of_key hp' hp (hid.trans (s.written_id n p))
      rw [← hafter]
      linarith
  · intro q hq l w hl hw e he hid
    obtain ⟨p, hp, rfl⟩ := List.mem_map.mp hq
    rw [s.written_id n p] at hl
    obtain ⟨hl, hne⟩ := unlocked_eq_some.mp hl
    rw [written_of_other hl hne] at hid ⊢
    rcases mem_committed he with he | ⟨p', hp', hserving⟩
    · exact h.write p hp l w hl hw e he hid
    · -- what transaction `n` has served, no other has locked
      obtain ⟨l', w', now, hl', hn, -, -, rfl⟩ := serving_eq_some hserving
      rw [show p'.id = p.id from hid.trans (w.apply_id p), hl] at hl'
      cases hl'
      exact absurd hn hne
  · refine List.pairwise_append.mpr
      ⟨h.spaced, pairwise_serving (fun _ _ hne hid => absurd hid hne), ?_⟩
    intro e he e' he' hid
    obtain ⟨p, hp, hserving⟩ := List.mem_filterMap.mp he'
    obtain ⟨rfl, hinstant, -⟩ := serving_ok hinv hp hserving
    rw [hinstant]
    exact h.row e'.policy hp e he hid

theorem spacedInv_step {env : ScheduleEnv} {s t : SchedulerState} {a : SchedulerAct}
    (hinv : SchedulerInv env s) (h : SpacedInv s) (hprompt : promptEdits s a)
    (hstep : schedulerStep env s a = some t) : SpacedInv t := by
  cases schedulerStep_move hstep with
  | tick hnow => exact h.within rfl rfl (fun _ _ _ _ hl _ => Or.inl hl)
  | enqueue hfree hrun => exact h.within rfl rfl (fun _ _ _ _ hl _ => Or.inl hl)
  | inserted hins => exact h.inserted hinv hins
  | savedAgain hfree => exact h.savedAgain hinv hfree
  | begin hn => exact h.within rfl rfl (fun _ _ _ _ hl _ => Or.inl hl)
  | lock hx hp hdue => exact h.setLock hp rfl rfl rfl (fun w hw => by cases hw)
  | @serve n p now left release sha runId correlationId outboxId created hx hp hl =>
    have hmem := (Table.get_eq_some.mp hp).1
    obtain ⟨⟨x, hx', hdue⟩, -, -⟩ := hinv.lock p hmem _ hl
    cases hx.symm.trans hx'
    refine h.setLock hp rfl rfl rfl ?_
    rintro w ⟨rfl⟩
    exact past_served (h.row p hmem)
      (servePolicy_write env s.db now release p sha runId correlationId outboxId) (hdue rfl)
  | update hx hp =>
    refine h.setLock hp rfl rfl rfl ?_
    rintro w ⟨rfl⟩
    exact past_edited hinv (h.row _ (Table.get_eq_some.mp hp).1) (hprompt _ hx)
  | commit hrun houtbox => exact h.commit hinv
  | abort => exact h.within rfl rfl (fun _ _ _ _ hl _ => Or.inl (unlocked_eq_some.mp hl).1)

theorem spacedInv_reaches {env : ScheduleEnv} {clock : Time} {policies : PolicyTable}
    {acts : List SchedulerAct} {s : SchedulerState} (henv : env.Faithful)
    (h : Reaches (restrict promptEdits (schedulerStep env)) (.initial clock policies) acts s) :
    SpacedInv s := by
  have hboth : SchedulerInv env s ∧ SpacedInv s := by
    refine h.invariant (P := fun m => SchedulerInv env m ∧ SpacedInv m) ?_
      ⟨schedulerInv_initial env clock policies, spacedInv_initial clock policies⟩
    rintro m a t ⟨hinv, hspaced⟩ hstep
    obtain ⟨hprompt, hstep⟩ := restrict_eq_some.mp hstep
    exact ⟨schedulerInv_step henv hinv hstep, spacedInv_step hinv hspaced hprompt hstep⟩
  exact hboth.2

/-- Of one policy, the second tells the instant. -/
theorem SpacedInv.same_instant {s : SchedulerState} (h : SpacedInv s) {e e' : Served}
    (he : e ∈ s.served) (he' : e' ∈ s.served) :
    e.policy.id = e'.policy.id → epochSeconds e.instant = epochSeconds e'.instant →
      e.instant = e'.instant := by
  have hlater : s.served.Pairwise (fun e e' => e.policy.id = e'.policy.id →
      epochSeconds e.instant = epochSeconds e'.instant → e.instant = e'.instant) := by
    refine h.spaced.imp ?_
    intro a b hab hid hsecond
    exact absurd (near_of_epochSeconds hsecond) (not_le.mpr (hab hid))
  have hearlier : s.served.Pairwise (fun e' e => e.policy.id = e'.policy.id →
      epochSeconds e.instant = epochSeconds e'.instant → e.instant = e'.instant) := by
    refine hlater.imp ?_
    intro a b hab hid hsecond
    exact (hab hid.symm hsecond.symm).symm
  exact hlater.forall_of_forall_of_flip (fun _ _ _ _ => rfl) hearlier he he'

/-! ## What every run keeps -/

/-- An instant served twice leads to one run at most, and that run has one outbox row,
which says the same as the run; a policy that is served moves at least 900 seconds past the
instant; and where no edit stalls for 899 seconds, no two instants have one key. -/
theorem due_instants_scheduled_once {env : ScheduleEnv} {clock : Time} {policies : PolicyTable}
    {acts : List SchedulerAct} {s : SchedulerState} (henv : env.Faithful)
    (h : Reaches (schedulerStep env) (.initial clock policies) acts s) :
    s.served.Pairwise RunOnce ∧
    (∀ e ∈ s.served, ∀ id, e.created = some id → ∃ r ∈ s.db.run.rows, r.id = id ∧
      r.idempotencyKey = some (scheduleKey env e.policy.id e.instant) ∧
      ∃ o, s.db.outbox.rows.filter (fun o => o.runId = id) = [o] ∧
        o.tenantId = r.tenantId ∧ o.workload = r.workload ∧ o.payload = r.input) ∧
    (∀ e ∈ s.served, e.instant + 900 ≤ e.after.nextRunAt) ∧
    (Reaches (restrict promptEdits (schedulerStep env)) (.initial clock policies) acts s →
      ∀ e ∈ s.served, ∀ e' ∈ s.served,
        scheduleKey env e.policy.id e.instant = scheduleKey env e'.policy.id e'.instant →
        e.policy.id = e'.policy.id ∧ e.instant = e'.instant) := by
  have hinv := schedulerInv_reaches henv h
  refine ⟨hinv.once, ?_, fun e he => (hinv.served e he).next, ?_⟩
  · intro e he id hid
    obtain ⟨r, hr, rfl, -, hkey⟩ := (hinv.served e he).run id hid
    obtain ⟨o, hfilter, hintent⟩ := outbox_of_intents hinv.intents hr
    simp only [OutboxRow.intent, Admitted.intent, RunRow.admitted, Prod.mk.injEq] at hintent
    exact ⟨r, hr, rfl, hkey, o, hfilter, hintent.1, hintent.2.2.1, hintent.2.2.2⟩
  · intro hprompt e he e' he' hkey
    obtain ⟨hid, hsecond⟩ := scheduleKey_inj henv hkey
    exact ⟨hid, (spacedInv_reaches henv hprompt).same_instant he he' hid hsecond⟩

def decimalEnv : ScheduleEnv := ⟨Nat.repr⟩

theorem decimalEnv_faithful : decimalEnv.Faithful where
  injective _ _ h := Nat.repr_injective h
  plain id hmem := by
    have hdigits : ':' ∈ Nat.toDigits 10 id := by simpa [decimalEnv] using hmem
    exact absurd (Nat.isDigit_of_mem_toDigits (by decide) (by decide) hdigits) (by decide)

/-- Due at 0, and every six hours from then on. -/
def duePolicy : PolicyRow where
  id := 1
  tenantId := 7
  datasetName := "manuals"
  intervalSeconds := ⟨21600, sixHours_isInterval⟩
  topK := ⟨5, five_isTopK⟩
  nextRunAt := 0
  lastScheduledAt := none
  lastRunId := none
  createdBy := some 3
  updatedBy := none
  createdAt := 0
  updatedAt := 0

def duePolicies : PolicyTable := ⟨[duePolicy], by decide⟩

/-- Two relays meet on a due policy; an edit that started before the first of them has
served it pulls the next instant back. -/
def editedBetween : List SchedulerAct :=
  [.tick 10, .begin 0 (.schedule 100 "r1"), .begin 1 (.schedule 100 "r1"), .lock 0 1,
    .begin 2 (.updatePolicy 7 "manuals" ⟨900, by decide⟩ ⟨10, by decide⟩ 4),
    .serve 0 1 (some "5e88") 10 20 100,
    .commit 0, .commit 1, .tick 30, .update 2 1, .commit 2, .tick 1000,
    .begin 3 (.schedule 100 "r1"), .lock 3 1, .serve 3 1 (some "5e88") 11 21 101, .commit 3]

theorem editedBetween_run :
    (editedBetween.foldlM (restrict promptEdits (schedulerStep decimalEnv))
      (.initial 0 duePolicies)).map
      (fun s => (s.served.map Served.instant, s.served.map Served.created)) =
      some ([0, 910], [some 10, some 11]) := by
  decide +kernel

/-- The result at that run: the instants 0 and 910, each with a run of its own. -/
theorem due_instants_scheduled_once_editedBetween :
    ∃ s, Reaches (schedulerStep decimalEnv) (.initial 0 duePolicies) editedBetween s ∧
      s.served.map Served.instant = [0, 910] ∧ s.served.map Served.created = [some 10, some 11] ∧
      s.served.Pairwise RunOnce ∧ (∀ e ∈ s.served, e.instant + 900 ≤ e.after.nextRunAt) ∧
      ∀ e ∈ s.served, ∀ e' ∈ s.served, scheduleKey decimalEnv e.policy.id e.instant =
      scheduleKey decimalEnv e'.policy.id e'.instant →
      e.policy.id = e'.policy.id ∧ e.instant = e'.instant := by
  obtain ⟨s, hrun, hfacts⟩ := Option.map_eq_some_iff.mp editedBetween_run
  obtain ⟨hinstants, hcreated⟩ := Prod.ext_iff.mp hfacts
  have hprompt : Reaches (restrict promptEdits (schedulerStep decimalEnv)) (.initial 0 duePolicies)
      editedBetween s := hrun
  have honce := due_instants_scheduled_once decimalEnv_faithful hprompt.of_restrict
  exact ⟨s, hprompt.of_restrict, hinstants, hcreated, honce.1, honce.2.2.1, honce.2.2.2 hprompt⟩

/-- The same policy, due a fifth of a second after a quarter past. -/
def dueLater : PolicyTable := ⟨[{ duePolicy with nextRunAt := 4551 / 5 }], by decide⟩

/-- An edit begins and stalls; the instant 910.2 is served; the edit then pulls the policy
back to 910, which is served next. -/
def stalledEdit : List SchedulerAct :=
  [.tick 10, .begin 0 (.updatePolicy 7 "manuals" ⟨900, by decide⟩ ⟨5, by decide⟩ 4), .tick 1000,
    .begin 1 (.schedule 100 "r1"), .lock 1 1, .serve 1 1 (some "5e88") 10 20 100, .commit 1,
    .update 0 1, .commit 0, .begin 2 (.schedule 100 "r1"), .lock 2 1,
    .serve 2 1 (some "5e88") 11 21 101, .commit 2]

theorem stalledEdit_run :
    (stalledEdit.foldlM (schedulerStep decimalEnv) (.initial 0 dueLater)).map
      (fun s => s.served.map (fun e => (e.policy.id, e.instant, e.created))) =
        some [(1, 4551 / 5, some 10), (1, 910, none)] := by
  decide +kernel

/-- The second instant has the key of the first, and no run of its own. -/
theorem key_reused_by_stalled_edit :
    ∃ s, Reaches (schedulerStep decimalEnv) (.initial 0 dueLater) stalledEdit s ∧
      s.served.map Served.created = [some 10, none] ∧
      ∃ e ∈ s.served, ∃ e' ∈ s.served, scheduleKey decimalEnv e.policy.id e.instant =
      scheduleKey decimalEnv e'.policy.id e'.instant ∧
      e.instant ≠ e'.instant := by
  obtain ⟨s, hrun, hfacts⟩ := Option.map_eq_some_iff.mp stalledEdit_run
  obtain ⟨e, e', hserved, he, he'⟩ : ∃ e e', s.served = [e, e'] ∧
      (e.policy.id, e.instant, e.created) = (1, 4551 / 5, some 10) ∧
      (e'.policy.id, e'.instant, e'.created) = (1, 910, none) := by
    obtain ⟨e, rest, hserved, he, hrest⟩ := List.map_eq_cons_iff.mp hfacts
    obtain ⟨e', rest', rfl, he', hnil⟩ := List.map_eq_cons_iff.mp hrest
    exact ⟨e, e', by rw [hserved, List.map_eq_nil_iff.mp hnil], he, he'⟩
  simp only [Prod.mk.injEq] at he he'
  refine ⟨s, hrun, by simp [hserved, he, he'], e, by simp [hserved], e', by simp [hserved], ?_, ?_⟩
  · rw [he.1, he'.1, he.2.1, he'.2.1]
    decide +kernel
  · rw [he.2.1, he'.2.1]
    decide +kernel

end AgenticPlatform.Governance
