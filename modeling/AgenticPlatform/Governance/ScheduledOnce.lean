import AgenticPlatform.Correctness.Admission
import AgenticPlatform.Governance.ContinuousEval
import Mathlib

/-!
# Each due instant is scheduled once

A due instant that is served leads to one run at most, and that run to one outbox row,
whatever the transactions of the scheduler and of `update_policy` do to each other. The
keys hold whole seconds. A call of the scheduler moves `next_run_at` at least 900 seconds
past the instant it served, but an edit pulls it back to 900 seconds after the start of its
own transaction: where that start lies less than 899 seconds back, the seconds tell the
instants of a policy apart, and an edit that stalled for longer can meet a key that is
taken.
-/
namespace AgenticPlatform.Governance
open AgenticPlatform.Foundation AgenticPlatform.Identity AgenticPlatform.Db
  AgenticPlatform.Correctness

/-! ## Keys -/

/-- The text up to the first separator. -/
theorem append_sep_inj {α : Type*} {sep : α} {as bs xs ys : List α} (ha : sep ∉ as) (hb : sep ∉ bs)
    (h : as ++ sep :: xs = bs ++ sep :: ys) : as = bs ∧ xs = ys := by
  induction as generalizing bs with
  | nil =>
    cases bs with
    | nil => exact ⟨rfl, (List.cons.inj h).2⟩
    | cons b bs => exact absurd ((List.cons.inj h).1 ▸ List.mem_cons_self) hb
  | cons a as ih =>
    cases bs with
    | nil => exact absurd ((List.cons.inj h).1 ▸ List.mem_cons_self) ha
    | cons b bs =>
      obtain ⟨rfl, hrest⟩ := List.cons.inj h
      obtain ⟨rfl, hxs⟩ := ih (fun hmem => ha (List.mem_cons_of_mem a hmem))
        (fun hmem => hb (List.mem_cons_of_mem a hmem)) hrest
      exact ⟨rfl, hxs⟩

theorem scheduleKey_chars (env : ScheduleEnv) (policy : Uuid) (instant : Time) :
    (scheduleKey env policy instant).toList = "continuous-eval:".toList ++
      ((env.uuidText policy).toList ++ ':' :: (epochSeconds instant).repr.toList) := by
  have hsep : ":".toList = [':'] := by simp
  delta scheduleKey
  rw [String.toList_append, String.toList_append, String.toList_append, hsep, List.singleton_append]

theorem scheduleKey_inj {env : ScheduleEnv} (henv : env.Faithful) {a b : Uuid} {t u : Time}
    (h : scheduleKey env a t = scheduleKey env b u) : a = b ∧ epochSeconds t = epochSeconds u := by
  have hchars := congrArg String.toList h
  rw [scheduleKey_chars, scheduleKey_chars] at hchars
  obtain ⟨hid, hepoch⟩ :=
    append_sep_inj (henv.plain a) (henv.plain b) (List.append_cancel_left hchars)
  exact ⟨henv.injective (String.toList_inj.mp hid),
    Int.repr_injective (String.toList_inj.mp hepoch)⟩

/-! ## What the parts of a step say -/

theorem heldBy_eq_some {s : SchedulerState} {n : Nat} {id : Uuid} {l : Lock} :
    s.heldBy n id = some l ↔ s.locks id = some l ∧ l.holder = n := by
  rw [SchedulerState.heldBy, Option.filter_eq_some_iff, decide_eq_true_eq]

theorem unlocked_eq_some {s : SchedulerState} {n : Nat} {id : Uuid} {l : Lock} :
    s.unlocked n id = some l ↔ s.locks id = some l ∧ l.holder ≠ n := by
  rw [SchedulerState.unlocked, Option.filter_eq_some_iff, decide_eq_true_eq]

/-- A commit leaves the policies of others as they are. -/
theorem written_of_other {s : SchedulerState} {n : Nat} {p : PolicyRow} {l : Lock}
    (hl : s.locks p.id = some l) (hn : l.holder ≠ n) : s.written n p = p := by
  have hnone : s.heldBy n p.id = none := by
    rw [SchedulerState.heldBy, hl]
    exact Option.filter_some_neg (by simpa using hn)
  rw [SchedulerState.written, hnone]
  rfl

theorem written_cases (s : SchedulerState) (n : Nat) (p : PolicyRow) :
    s.written n p = p ∨ ∃ l w, s.locks p.id = some l ∧ l.holder = n ∧ l.write = some w ∧
      s.written n p = w.apply p := by
  cases hw : (s.heldBy n p.id).bind Lock.write with
  | none =>
    left
    rw [SchedulerState.written, hw]
    rfl
  | some w =>
    right
    obtain ⟨l, hl, hlw⟩ := Option.bind_eq_some_iff.mp hw
    obtain ⟨hlock, hn⟩ := heldBy_eq_some.mp hl
    refine ⟨l, w, hlock, hn, hlw, ?_⟩
    rw [SchedulerState.written, hw]
    rfl

theorem written_of_write {s : SchedulerState} {n : Nat} {p : PolicyRow} {l : Lock} {w : Write}
    (hl : s.locks p.id = some l) (hn : l.holder = n) (hw : l.write = some w) :
    s.written n p = w.apply p := by
  rw [SchedulerState.written, heldBy_eq_some.mpr ⟨hl, hn⟩, Option.bind_some, hw]
  rfl

/-- The write of a call that serves the policy. -/
def Write.serves (now : Time) (w : Write) : Prop :=
  w = .backOff now ∨ ∃ runId, w = .scheduled now runId

theorem Write.serves.next {now : Time} {w : Write} (h : w.serves now) (p : PolicyRow) :
    (w.apply p).nextRunAt = now + p.interval := by
  rcases h with rfl | ⟨runId, rfl⟩ <;> rfl

theorem serving_eq_some {s : SchedulerState} {n : Nat} {p : PolicyRow} {e : Served}
    (h : s.serving n p = some e) :
    ∃ l w now, s.locks p.id = some l ∧ l.holder = n ∧ l.write = some w ∧ w.serves now ∧
      e = ⟨p, w.apply p, l.created.map (fun c => c.1.id)⟩ := by
  obtain ⟨l, hl, h⟩ := Option.bind_eq_some_iff.mp h
  obtain ⟨w, hw, h⟩ := Option.bind_eq_some_iff.mp h
  obtain ⟨hlock, hn⟩ := heldBy_eq_some.mp hl
  cases w with
  | edited now interval topK by_ => cases h
  | backOff now => exact ⟨l, _, now, hlock, hn, hw, Or.inl rfl, (Option.some.inj h).symm⟩
  | scheduled now runId =>
    exact ⟨l, _, now, hlock, hn, hw, Or.inr ⟨runId, rfl⟩, (Option.some.inj h).symm⟩

theorem mem_createdBy {s : SchedulerState} {n : Nat} {c : RunRow × OutboxRow} :
    c ∈ s.createdBy n ↔ ∃ p ∈ s.policies.rows, ∃ l, s.locks p.id = some l ∧ l.holder = n ∧
      l.created = some c := by
  simp only [SchedulerState.createdBy, List.mem_filterMap, Option.bind_eq_some_iff, heldBy_eq_some,
    and_assoc]

/-! ## The invariant -/

/-- What an uncommitted write to a policy relies on. -/
def WriteOk (s : SchedulerState) (p : PolicyRow) : Write → Prop
  | .backOff now | .scheduled now _ => p.nextRunAt ≤ now ∧ now ≤ s.clock
  | .edited .. => True

/-- The rows inserted for a locked policy: the key of the instant, unused so far, and an
outbox row that says the same as the run. -/
structure CreatedOk (env : ScheduleEnv) (s : SchedulerState) (p : PolicyRow)
    (c : RunRow × OutboxRow) : Prop where
  tenant : c.1.tenantId = p.tenantId
  key : c.1.idempotencyKey = some (scheduleKey env p.id p.nextRunAt)
  intent : OutboxRow.intent c.2 = (RunRow.admitted c.1).intent
  unused : ∀ r ∈ s.db.run.rows, r.tenantId = p.tenantId →
    r.idempotencyKey ≠ some (scheduleKey env p.id p.nextRunAt)

/-- What a lock on a policy stands for. -/
structure LockOk (env : ScheduleEnv) (s : SchedulerState) (p : PolicyRow) (l : Lock) :
    Prop where
  opened : ∃ x, s.txns l.holder = some x ∧ (l.write = none → p.nextRunAt ≤ x.now)
  write : ∀ w, l.write = some w → WriteOk s p w
  created : ∀ c, l.created = some c → CreatedOk env s p c

/-- What is left of a served instant: the policy has moved on, and the run is there. -/
structure ServedOk (env : ScheduleEnv) (s : SchedulerState) (e : Served) : Prop where
  past : e.instant ≤ s.clock
  next : e.instant + 900 ≤ e.after.nextRunAt
  policy : ∃ p ∈ s.policies.rows, p.id = e.policy.id ∧ p.tenantId = e.policy.tenantId
  run : ∀ id, e.created = some id → ∃ r ∈ s.db.run.rows, r.id = id ∧
    r.tenantId = e.policy.tenantId ∧ r.idempotencyKey = some (scheduleKey env e.policy.id e.instant)

/-- An instant served twice has led to one run at most. -/
def RunOnce (e e' : Served) : Prop :=
  e.policy.id = e'.policy.id → e.instant = e'.instant → e.created = none ∨ e'.created = none

structure SchedulerInv (env : ScheduleEnv) (s : SchedulerState) : Prop where
  started : ∀ n x, s.txns n = some x → x.now ≤ s.clock
  present : ∀ id l, s.locks id = some l → id ∈ s.policies.keys
  lock : ∀ p ∈ s.policies.rows, ∀ l, s.locks p.id = some l → LockOk env s p l
  served : ∀ e ∈ s.served, ServedOk env s e
  once : s.served.Pairwise RunOnce
  intents : s.db.outbox.rows.map OutboxRow.intent =
    s.db.run.rows.map (fun r => (RunRow.admitted r).intent)

theorem schedulerInv_initial (env : ScheduleEnv) (clock : Time) (policies : PolicyTable) :
    SchedulerInv env (.initial clock policies) where
  started _ _ hx := absurd hx nofun
  present _ _ hl := absurd hl nofun
  lock _ _ _ hl := absurd hl nofun
  served _ he := absurd he List.not_mem_nil
  once := .nil
  intents := rfl

/-! ## Steps that leave the policies to themselves -/

theorem WriteOk.mono {s t : SchedulerState} {p : PolicyRow} {w : Write}
    (h : WriteOk s p w) (hclock : s.clock ≤ t.clock) : WriteOk t p w := by
  cases w with
  | backOff now => exact ⟨h.1, h.2.trans hclock⟩
  | scheduled now runId => exact ⟨h.1, h.2.trans hclock⟩
  | edited now interval topK by_ => trivial

theorem schedulerInv_tick {env : ScheduleEnv} {s : SchedulerState} {now : Time}
    (h : SchedulerInv env s) (hnow : s.clock ≤ now) : SchedulerInv env { s with clock := now } where
  started n x hx := (h.started n x hx).trans hnow
  present := h.present
  lock p hp l hl :=
    have hok := h.lock p hp l hl
    { opened := hok.opened
      write := fun w hw => (hok.write w hw).mono hnow
      created := fun c hc =>
        have hcreated := hok.created c hc
        ⟨hcreated.tenant, hcreated.key, hcreated.intent, hcreated.unused⟩ }
  served e he :=
    have hok := h.served e he
    ⟨hok.past.trans hnow, hok.next, hok.policy, hok.run⟩
  once := h.once
  intents := h.intents

/-- An admission appends a run and its outbox row, or nothing. -/
theorem enqueueRun_intents {db db' : Store} {now : Time} {release : String} {trace : Json}
    {q : EnqueueRequest} {runId : Uuid} {outboxId : Nat} {id : Uuid} {created : Bool}
    (h : enqueueRun db now release trace q runId outboxId = some (db', id, created))
    (hintents : db.outbox.rows.map OutboxRow.intent =
      db.run.rows.map (fun r => (RunRow.admitted r).intent)) :
    db'.outbox.rows.map OutboxRow.intent =
      db'.run.rows.map (fun r => (RunRow.admitted r).intent) := by
  rcases enqueueRun_rows h with ⟨-, rfl⟩ | ⟨rfl, rfl, -, hrun⟩
  · exact hintents
  · rw [hrun, enqueueRun_outbox h, List.map_append, List.map_append, hintents]
    rfl

theorem schedulerInv_enqueue {env : ScheduleEnv} {s : SchedulerState} {release : String}
    {trace : Json} {q : EnqueueRequest} {runId : Uuid} {outboxId : Nat} {db' : Store} {id : Uuid}
    {created : Bool} (h : SchedulerInv env s) (hfree : s.keyFree q.ctx.tenant.id q.key)
    (hrun : enqueueRun s.db s.clock release trace q runId outboxId = some (db', id, created)) :
    SchedulerInv env { s with db := db' } := by
  have hrows : ∀ r ∈ db'.run.rows, r ∈ s.db.run.rows ∨
      (r.tenantId = q.ctx.tenant.id ∧ r.idempotencyKey = q.key) := by
    intro r hr
    rcases enqueueRun_rows hrun with ⟨-, rfl⟩ | ⟨-, -, -, hnew⟩
    · exact Or.inl hr
    · rw [hnew, List.mem_append, List.mem_singleton] at hr
      exact hr.imp_right (by rintro rfl; exact ⟨rfl, rfl⟩)
  have hkept : ∀ r ∈ s.db.run.rows, r ∈ db'.run.rows := by
    intro r hr
    rcases enqueueRun_rows hrun with ⟨-, rfl⟩ | ⟨-, -, -, hnew⟩
    · exact hr
    · exact hnew ▸ List.mem_append_left _ hr
  refine ⟨h.started, h.present, ?_, ?_, h.once, enqueueRun_intents hrun h.intents⟩
  · intro p hp l hl
    have hok := h.lock p hp l hl
    refine ⟨hok.opened, hok.write, ?_⟩
    intro c hc
    have hcreated := hok.created c hc
    refine ⟨hcreated.tenant, hcreated.key, hcreated.intent, ?_⟩
    intro r hr htenant
    rcases hrows r hr with hr | ⟨hrt, hrk⟩
    · exact hcreated.unused r hr htenant
    · -- the INSERT has waited for the one of this transaction
      have hpending : c ∈ s.pending := List.mem_filterMap.mpr ⟨p, hp, by rw [hl]; exact hc⟩
      have hne := hfree c hpending (hcreated.tenant.trans (htenant.symm.trans hrt))
      rw [hrk, ← hcreated.key]
      exact Ne.symm hne
  · intro e he
    have hok := h.served e he
    refine ⟨hok.past, hok.next, hok.policy, ?_⟩
    intro id hid
    obtain ⟨r, hr, hrest⟩ := hok.run id hid
    exact ⟨r, hkept r hr, hrest⟩

/-- Policies that are not locked may be written and added, as long as none of them is
lost. -/
theorem schedulerInv_policies {env : ScheduleEnv} {s : SchedulerState} {policies : PolicyTable}
    (h : SchedulerInv env s)
    (hrows : ∀ p ∈ policies.rows, s.locks p.id ≠ none → p ∈ s.policies.rows)
    (hkept : ∀ p ∈ s.policies.rows, ∃ p' ∈ policies.rows, p'.id = p.id ∧ p'.tenantId = p.tenantId) :
    SchedulerInv env { s with policies := policies } := by
  refine ⟨h.started, ?_, ?_, ?_, h.once, h.intents⟩
  · intro id l hl
    obtain ⟨p, hp, rfl⟩ := Table.mem_keys.mp (h.present id l hl)
    obtain ⟨p', hp', hid, -⟩ := hkept p hp
    exact Table.mem_keys.mpr ⟨p', hp', hid⟩
  · intro p hp l hl
    have hlocked : s.locks p.id ≠ none := by
      rw [show s.locks p.id = some l from hl]
      exact Option.some_ne_none l
    have hok := h.lock p (hrows p hp hlocked) l hl
    refine ⟨hok.opened, fun w hw => (hok.write w hw).mono le_rfl, ?_⟩
    intro c hc
    have hcreated := hok.created c hc
    exact ⟨hcreated.tenant, hcreated.key, hcreated.intent, hcreated.unused⟩
  · intro e he
    have hok := h.served e he
    obtain ⟨p, hp, hid, htenant⟩ := hok.policy
    obtain ⟨p', hp', hid', htenant'⟩ := hkept p hp
    exact ⟨hok.past, hok.next, ⟨p', hp', hid'.trans hid, htenant'.trans htenant⟩, hok.run⟩

theorem schedulerInv_savedAgain {env : ScheduleEnv} {s : SchedulerState} {p : PolicyRow}
    {by_ : Uuid} (h : SchedulerInv env s) (hfree : s.locks p.id = none) :
    SchedulerInv env { s with
      policies := s.policies.updateWhere (fun x => x.id = p.id) (savedAgain s.clock by_)
          (fun _ => rfl) } := by
  apply schedulerInv_policies h
  · intro q hq hlocked
    have hid : ∀ x, (savedAgain s.clock by_ x).id = x.id := fun _ => rfl
    rcases Table.mem_updateWhere hid hq with ⟨hq, -⟩ | ⟨x, -, hx, rfl⟩
    · exact hq
    · exact absurd ((congrArg s.locks hx).trans hfree) hlocked
  · intro q hq
    refine ⟨_, Table.mem_update.mpr ⟨q, hq, rfl⟩, ?_⟩
    unfold Table.rewrite
    split <;> exact ⟨rfl, rfl⟩

theorem schedulerInv_inserted {env : ScheduleEnv} {s : SchedulerState} {policy : PolicyRow}
    {policies : PolicyTable} (h : SchedulerInv env s)
    (hins : s.policies.tryInsert policy = some policies) :
    SchedulerInv env { s with policies := policies } := by
  obtain ⟨hfresh, hrows⟩ := Table.tryInsert_eq_some hins
  apply schedulerInv_policies h
  · intro q hq hlocked
    rw [hrows, List.mem_append, List.mem_singleton] at hq
    rcases hq with hq | rfl
    · exact hq
    · obtain ⟨l, hl⟩ := Option.ne_none_iff_exists'.mp hlocked
      exact absurd (h.present q.id l hl) hfresh
  · intro q hq
    exact ⟨q, hrows ▸ List.mem_append_left _ hq, rfl, rfl⟩

/-! ## Steps of a transaction -/

/-- A lock stands for the same in a state with the same rows whose transactions were
started when they were. -/
theorem LockOk.frame {env : ScheduleEnv} {s : SchedulerState} {p : PolicyRow} {l : Lock}
    {txns : Nat → Option Txn} {locks : Uuid → Option Lock} (h : LockOk env s p l)
    (htxns : ∀ x, s.txns l.holder = some x → ∃ x', txns l.holder = some x' ∧ x'.now = x.now) :
    LockOk env { s with txns := txns, locks := locks } p l where
  opened := by
    obtain ⟨x, hx, hnow⟩ := h.opened
    obtain ⟨x', hx', hsame⟩ := htxns x hx
    exact ⟨x', hx', fun hw => (hnow hw).trans hsame.ge⟩
  write := fun w hw => (h.write w hw).mono le_rfl
  created := fun c hc =>
    have hcreated := h.created c hc
    ⟨hcreated.tenant, hcreated.key, hcreated.intent, hcreated.unused⟩

/-- Steps that touch nothing but transactions and locks. -/
theorem schedulerInv_within {env : ScheduleEnv} {s : SchedulerState}
    {txns : Nat → Option Txn} {locks : Uuid → Option Lock} (h : SchedulerInv env s)
    (hstarted : ∀ n x, txns n = some x → x.now ≤ s.clock)
    (hpresent : ∀ id l, locks id = some l → id ∈ s.policies.keys)
    (hlock : ∀ p ∈ s.policies.rows, ∀ l, locks p.id = some l →
      LockOk env { s with txns := txns, locks := locks } p l) :
    SchedulerInv env { s with txns := txns, locks := locks } where
  started := hstarted
  present := hpresent
  lock := hlock
  served e he :=
    have hok := h.served e he
    ⟨hok.past, hok.next, hok.policy, hok.run⟩
  once := h.once
  intents := h.intents

theorem schedulerInv_begin {env : ScheduleEnv} {s : SchedulerState} {n : Nat} {call : Call}
    (h : SchedulerInv env s) (hn : s.txns n = none) :
    SchedulerInv env { s with txns := Function.update s.txns n (some ⟨s.clock, call⟩) } := by
  refine schedulerInv_within h ?_ h.present ?_
  · intro m x hx
    rcases update_eq_some hx with ⟨-, rfl⟩ | ⟨-, hx⟩
    · exact le_rfl
    · exact h.started m x hx
  · intro p hp l hl
    refine (h.lock p hp l hl).frame ?_
    intro x hx
    have hne : l.holder ≠ n := by
      intro he
      rw [he, hn] at hx
      cases hx
    exact ⟨x, by rw [Function.update_of_ne hne, hx], rfl⟩

/-- A policy gets a lock, or the lock it has gets another content. -/
theorem schedulerInv_setLock {env : ScheduleEnv} {s : SchedulerState} {p : PolicyRow}
    {txns : Nat → Option Txn} {l : Lock} (h : SchedulerInv env s)
    (hp : s.policies.get p.id = some p)
    (htxns : ∀ m x, txns m = some x → ∃ x', s.txns m = some x' ∧ x.now = x'.now)
    (hkept : ∀ m x, s.txns m = some x → ∃ x', txns m = some x' ∧ x'.now = x.now)
    (hl : LockOk env s p l) :
    SchedulerInv env { s with txns := txns, locks := Function.update s.locks p.id (some l) } := by
  have hmem : p ∈ s.policies.rows := (Table.get_eq_some.mp hp).1
  refine schedulerInv_within h ?_ ?_ ?_
  · intro m x hx
    obtain ⟨x', hx', hnow⟩ := htxns m x hx
    exact hnow.le.trans (h.started m x' hx')
  · intro id l' hl'
    rcases update_eq_some hl' with ⟨rfl, -⟩ | ⟨-, hl'⟩
    · exact Table.key_mem_keys hmem
    · exact h.present id l' hl'
  · intro q hq l' hl'
    rcases update_eq_some hl' with ⟨hid, rfl⟩ | ⟨-, hl'⟩
    · cases Table.eq_of_key hq hmem hid
      exact hl.frame (hkept _)
    · exact (h.lock q hq l' hl').frame (hkept _)

theorem schedulerInv_putLock {env : ScheduleEnv} {s : SchedulerState} {p : PolicyRow} {l : Lock}
    (h : SchedulerInv env s) (hp : s.policies.get p.id = some p) (hl : LockOk env s p l) :
    SchedulerInv env { s with locks := Function.update s.locks p.id (some l) } :=
  schedulerInv_setLock  h hp (fun _ x hx => ⟨x, hx, rfl⟩) (fun _ x hx => ⟨x, hx, rfl⟩) hl

/-- A lock just taken on a due policy. -/
theorem lockOk_locked {env : ScheduleEnv} {s : SchedulerState} {p : PolicyRow} {n : Nat} {x : Txn}
    (hx : s.txns n = some x) (hdue : p.nextRunAt ≤ x.now) : LockOk env s p ⟨n, none, none⟩ where
  opened := ⟨x, hx, fun _ => hdue⟩
  write _ hw := by cases hw
  created _ hc := by cases hc

/-- A lock that comes with its write. -/
theorem lockOk_written {env : ScheduleEnv} {s : SchedulerState} {p : PolicyRow} {n : Nat}
    {x : Txn} {w : Write} {created : Option (RunRow × OutboxRow)} (hx : s.txns n = some x)
    (hw : WriteOk s p w) (hcreated : ∀ c, created = some c → CreatedOk env s p c) :
    LockOk env s p ⟨n, some w, created⟩ where
  opened := ⟨x, hx, fun hnone => by cases hnone⟩
  write w' hw' := by
    cases hw'
    exact hw
  created := hcreated

theorem servePolicy_write (env : ScheduleEnv) (db : Store) (now : Time) (release : String)
    (p : PolicyRow) (sha : Option String) (runId correlationId : Uuid) (outboxId : Nat) :
    (servePolicy env db now release p sha runId correlationId outboxId).1.serves now := by
  unfold servePolicy
  split
  · exact Or.inl rfl
  · split
    · exact Or.inr ⟨_, rfl⟩
    · exact Or.inr ⟨_, rfl⟩

theorem servePolicy_created {env : ScheduleEnv} {s : SchedulerState} {now : Time} {release : String}
    {p : PolicyRow} {sha : Option String} {runId correlationId : Uuid} {outboxId : Nat}
    {c : RunRow × OutboxRow}
    (h : (servePolicy env s.db now release p sha runId correlationId outboxId).2 = some c) :
    CreatedOk env s p c := by
  unfold servePolicy at h
  split at h
  · cases h
  · split at h
    · cases h
    · rename_i hnone
      cases h
      refine ⟨rfl, rfl, rfl, ?_⟩
      intro r hr htenant hkey
      refine absurd (List.find?_eq_none.mp hnone r hr) ?_
      simp [htenant, hkey]

theorem WriteOk.of_serves {s : SchedulerState} {p : PolicyRow} {now : Time} {w : Write}
    (h : w.serves now) (hdue : p.nextRunAt ≤ now) (hnow : now ≤ s.clock) : WriteOk s p w := by
  rcases h with rfl | ⟨runId, rfl⟩ <;> exact ⟨hdue, hnow⟩

theorem WriteOk.due {s : SchedulerState} {p : PolicyRow} {now : Time} {w : Write}
    (h : WriteOk s p w) (hw : w.serves now) : p.nextRunAt ≤ now ∧ now ≤ s.clock := by
  rcases hw with rfl | ⟨runId, rfl⟩ <;> exact h

theorem schedulerInv_abort {env : ScheduleEnv} {s : SchedulerState} {n : Nat}
    (h : SchedulerInv env s) :
    SchedulerInv env { s with txns := Function.update s.txns n none, locks := s.unlocked n } := by
  refine schedulerInv_within h ?_ ?_ ?_
  · intro m x hx
    rcases update_cases hx with ⟨-, hx⟩ | ⟨-, hx⟩
    · cases hx
    · exact h.started m x hx
  · intro id l hl
    exact h.present id l (unlocked_eq_some.mp hl).1
  · intro p hp l hl
    obtain ⟨hl, hne⟩ := unlocked_eq_some.mp hl
    refine (h.lock p hp l hl).frame ?_
    intro x hx
    exact ⟨x, by rw [Function.update_of_ne hne, hx], rfl⟩

/-! ## The commit -/

/-- What a commit adds to the served instants. -/
theorem serving_ok {env : ScheduleEnv} {s : SchedulerState} {n : Nat} {p : PolicyRow} {e : Served}
    (h : SchedulerInv env s) (hp : p ∈ s.policies.rows) (he : s.serving n p = some e) :
    e.policy = p ∧ e.instant = p.nextRunAt ∧ e.instant ≤ s.clock ∧
      e.instant + 900 ≤ e.after.nextRunAt ∧ e.after = s.written n p ∧ ∀ id, e.created = some id →
      ∃ c ∈ s.createdBy n, c.1.id = id ∧ CreatedOk env s p c := by
  obtain ⟨l, w, now, hl, hn, hw, hserves, rfl⟩ := serving_eq_some he
  have hok := h.lock p hp l hl
  obtain ⟨hdue, hnow⟩ := (hok.write w hw).due hserves
  have hnext := hserves.next p
  have hinterval := p.interval_ge
  refine ⟨rfl, rfl, hdue.trans hnow, ?_, ?_, ?_⟩
  · change p.nextRunAt + 900 ≤ (w.apply p).nextRunAt
    rw [hnext]
    linarith
  · exact (written_of_write hl hn hw).symm
  · intro id hid
    obtain ⟨c, hc, hcid⟩ := Option.map_eq_some_iff.mp hid
    exact ⟨c, mem_createdBy.mpr ⟨p, hp, l, hl, hn, hc⟩, hcid, hok.created c hc⟩

/-- Policies that are served in one commit are different ones. -/
theorem pairwise_serving {s : SchedulerState} {n : Nat} {R : Served → Served → Prop}
    (hR : ∀ e e', e.policy.id ≠ e'.policy.id → R e e') :
    (s.policies.rows.filterMap (s.serving n)).Pairwise R := by
  refine List.pairwise_filterMap.mpr ((List.pairwise_map.mp s.policies.nodup).imp ?_)
  intro p q hne e he e' he'
  obtain ⟨_, _, _, _, _, _, _, rfl⟩ := serving_eq_some he
  obtain ⟨_, _, _, _, _, _, _, rfl⟩ := serving_eq_some he'
  exact hR _ _ hne

/-- The state a commit of transaction `n` leads to. -/
def SchedulerState.committed (s : SchedulerState) (n : Nat) (db : Store) : SchedulerState :=
  { s with
    policies := s.policies.update (s.written n) (s.written_id n)
    db := db
    txns := Function.update s.txns n none
    locks := s.unlocked n
    served := s.served ++ s.policies.rows.filterMap (s.serving n) }

theorem mem_committed {s : SchedulerState} {n : Nat} {db : Store} {e : Served}
    (h : e ∈ (s.committed n db).served) :
    e ∈ s.served ∨ ∃ p ∈ s.policies.rows, s.serving n p = some e :=
  (List.mem_append.mp h).imp_right List.mem_filterMap.mp

/-- A lock of another transaction outlives the commit. -/
theorem lockOk_committed {env : ScheduleEnv} {s : SchedulerState} {n : Nat} {db : Store}
    {p : PolicyRow} {l : Lock} (henv : env.Faithful) (h : SchedulerInv env s)
    (hrun : db.run.rows = s.db.run.rows ++ (s.createdBy n).map Prod.fst) (hp : p ∈ s.policies.rows)
    (hl : s.locks p.id = some l) (hne : l.holder ≠ n) : LockOk env (s.committed n db) p l := by
  have hok := h.lock p hp l hl
  refine ⟨?_, ?_, ?_⟩
  · obtain ⟨x, hx, hnow⟩ := hok.opened
    have htxn : (s.committed n db).txns l.holder = s.txns l.holder := by
      change Function.update s.txns n none l.holder = _
      rw [Function.update_of_ne hne]
    exact ⟨x, htxn.trans hx, hnow⟩
  · intro w hw
    have hwrite := hok.write w hw
    cases w with
    | backOff now => exact hwrite
    | scheduled now runId => exact hwrite
    | edited now interval topK by_ => trivial
  · intro c hc
    have hcreated := hok.created c hc
    refine ⟨hcreated.tenant, hcreated.key, hcreated.intent, ?_⟩
    intro r hr htenant
    rw [show (s.committed n db).db.run.rows = _ from hrun, List.mem_append] at hr
    rcases hr with hr | hr
    · exact hcreated.unused r hr htenant
    · obtain ⟨c', hc', rfl⟩ := List.mem_map.mp hr
      obtain ⟨q, hq, l', hl', hn, hlc⟩ := mem_createdBy.mp hc'
      rw [((h.lock q hq l' hl').created c' hlc).key]
      intro hkey
      have hid := (scheduleKey_inj henv (Option.some.inj hkey)).1
      rw [hid, hl] at hl'
      cases hl'
      exact hne hn

theorem schedulerInv_commit {env : ScheduleEnv} {s : SchedulerState} {n : Nat} {db : Store}
    (henv : env.Faithful) (h : SchedulerInv env s)
    (hrun : db.run.rows = s.db.run.rows ++ (s.createdBy n).map Prod.fst)
    (houtbox : db.outbox.rows = s.db.outbox.rows ++ (s.createdBy n).map Prod.snd) :
    SchedulerInv env (s.committed n db) := by
  refine ⟨?_, ?_, ?_, ?_, ?_, ?_⟩
  · intro m x hx
    rcases update_cases hx with ⟨-, hx⟩ | ⟨-, hx⟩
    · cases hx
    · exact h.started m x hx
  · intro id l hl
    rw [SchedulerState.committed, Table.keys_update]
    exact h.present id l (unlocked_eq_some.mp hl).1
  · intro p hp l hl
    obtain ⟨q, hq, rfl⟩ := List.mem_map.mp hp
    rw [s.written_id n q] at hl
    obtain ⟨hl, hne⟩ := unlocked_eq_some.mp hl
    rw [written_of_other hl hne]
    exact lockOk_committed henv h hrun hq hl hne
  · intro e he
    rcases mem_committed he with he | ⟨p, hp, hserving⟩
    · have hok := h.served e he
      obtain ⟨p, hp, hid, htenant⟩ := hok.policy
      refine ⟨hok.past, hok.next, ⟨s.written n p, List.mem_map_of_mem hp, ?_, ?_⟩, ?_⟩
      · exact (s.written_id n p).trans hid
      · exact (s.written_tenantId n p).trans htenant
      · intro id hcreated
        obtain ⟨r, hr, hrest⟩ := hok.run id hcreated
        exact ⟨r, hrun.symm ▸ List.mem_append_left _ hr, hrest⟩
    · obtain ⟨rfl, -, hpast, hnext, -, hcreated⟩ := serving_ok h hp hserving
      refine ⟨hpast, hnext, ⟨s.written n e.policy, List.mem_map_of_mem hp, ?_, ?_⟩, ?_⟩
      · exact s.written_id n e.policy
      · exact s.written_tenantId n e.policy
      · intro id hid
        obtain ⟨c, hc, hcid, hok⟩ := hcreated id hid
        exact ⟨c.1, hrun.symm ▸ List.mem_append_right _ (List.mem_map_of_mem hc), hcid,
          hok.tenant, hok.key⟩
  · refine List.pairwise_append.mpr
      ⟨h.once, pairwise_serving (fun _ _ hne hid => absurd hid hne), ?_⟩
    intro e he e' he' hid hinstant
    obtain ⟨p, hp, hserving⟩ := List.mem_filterMap.mp he'
    obtain ⟨rfl, -, -, -, -, hcreated⟩ := serving_ok h hp hserving
    cases hrun : e.created with
    | none => exact Or.inl rfl
    | some id =>
      right
      obtain ⟨q, hq, hqid, hqtenant⟩ := (h.served e he).policy
      cases Table.eq_of_key hq hp (hqid.trans hid)
      obtain ⟨r, hr, -, htenant, hkey⟩ := (h.served e he).run id hrun
      -- the INSERT would have met the run of the first service
      rw [Option.eq_none_iff_forall_ne_some]
      intro id' hid'
      obtain ⟨c, -, -, hok⟩ := hcreated id' hid'
      refine hok.unused r hr (htenant.trans hqtenant.symm) ?_
      rw [hkey, ← hid, hinstant]
      rfl
  · change db.outbox.rows.map _ = db.run.rows.map _
    rw [hrun, houtbox, List.map_append, List.map_append, h.intents, List.map_map, List.map_map]
    refine congrArg _ (List.map_congr_left ?_)
    intro c hc
    obtain ⟨p, hp, l, hl, -, hlc⟩ := mem_createdBy.mp hc
    exact ((h.lock p hp l hl).created c hlc).intent

/-! ## Every step -/

/-- What a step can do. -/
inductive SchedulerMove (env : ScheduleEnv) (s : SchedulerState) :
    SchedulerAct → SchedulerState → Prop
  | tick {now : Time} (hnow : s.clock ≤ now) :
    SchedulerMove env s (.tick now) { s with clock := now }
  | enqueue {release : String} {trace : Json} {q : EnqueueRequest} {runId : Uuid} {outboxId : Nat}
    {db : Store} {id : Uuid} {created : Bool} (hfree : s.keyFree q.ctx.tenant.id q.key)
    (hrun : enqueueRun s.db s.clock release trace q runId outboxId = some (db, id, created)) :
    SchedulerMove env s (.enqueue release trace q runId outboxId) { s with db := db }
  | inserted {id tenantId : Uuid} {datasetName : String} {interval : IntervalSeconds} {topK : TopK}
    {by_ : Uuid} {policy : PolicyRow} {policies : PolicyTable}
    (hins : s.policies.tryInsert policy = some policies) :
    SchedulerMove env s (.save id tenantId datasetName interval topK by_)
      { s with policies := policies }
  | savedAgain {id tenantId : Uuid} {datasetName : String} {interval : IntervalSeconds}
    {topK : TopK} {by_ : Uuid} {p : PolicyRow} (hfree : s.locks p.id = none) :
    SchedulerMove env s (.save id tenantId datasetName interval topK by_) { s with
        policies := s.policies.updateWhere (fun x => x.id = p.id) (savedAgain s.clock by_)
          (fun _ => rfl) }
  | begin {n : Nat} {call : Call} (hn : s.txns n = none) :
    SchedulerMove env s (.begin n call)
      { s with txns := Function.update s.txns n (some ⟨s.clock, call⟩) }
  | lock {n : Nat} {p : PolicyRow} {now : Time} {left : Nat} {release : String}
    (hx : s.txns n = some ⟨now, .schedule (left + 1) release⟩) (hp : s.policies.get p.id = some p)
    (hdue : p.nextRunAt ≤ now) :
    SchedulerMove env s (.lock n p.id) { s with
      txns := Function.update s.txns n (some ⟨now, .schedule left release⟩)
      locks := Function.update s.locks p.id (some ⟨n, none, none⟩) }
  | serve {n : Nat} {p : PolicyRow} {now : Time} {left : Nat} {release : String}
    {sha : Option String} {runId correlationId : Uuid} {outboxId : Nat}
    {created : Option (RunRow × OutboxRow)} (hx : s.txns n = some ⟨now, .schedule left release⟩)
    (hp : s.policies.get p.id = some p) (hl : s.locks p.id = some ⟨n, none, created⟩) :
    SchedulerMove env s (.serve n p.id sha runId correlationId outboxId) { s with
        locks := Function.update s.locks p.id (some ⟨n,
          some (servePolicy env s.db now release p sha runId correlationId outboxId).1,
          (servePolicy env s.db now release p sha runId correlationId outboxId).2⟩) }
  | update {n : Nat} {p : PolicyRow} {now : Time} {interval : IntervalSeconds} {topK : TopK}
    {by_ : Uuid}
    (hx : s.txns n = some ⟨now, .updatePolicy p.tenantId p.datasetName interval topK by_⟩)
    (hp : s.policies.get p.id = some p) : SchedulerMove env s (.update n p.id) { s with
        locks := Function.update s.locks p.id
          (some ⟨n, some (.edited now interval topK by_), none⟩) }
  | commit {n : Nat} {db : Store}
    (hrun : db.run.rows = s.db.run.rows ++ (s.createdBy n).map Prod.fst)
    (houtbox : db.outbox.rows = s.db.outbox.rows ++ (s.createdBy n).map Prod.snd) :
    SchedulerMove env s (.commit n) (s.committed n db)
  | abort {n : Nat} :
    SchedulerMove env s (.abort n)
      { s with txns := Function.update s.txns n none, locks := s.unlocked n }

theorem schedulerStep_move {env : ScheduleEnv} {s t : SchedulerState} {a : SchedulerAct}
    (h : schedulerStep env s a = some t) : SchedulerMove env s a t := by
  cases a with
  | tick now =>
    simp only [schedulerStep] at h
    split at h
    · cases h
      exact .tick ‹_›
    · cases h
  | enqueue release trace q runId outboxId =>
    simp only [schedulerStep] at h
    split at h
    · obtain ⟨⟨db, id, created⟩, hrun, rfl⟩ := Option.map_eq_some_iff.mp h
      exact .enqueue ‹_› hrun
    · cases h
  | save id tenantId datasetName interval topK by_ =>
    simp only [schedulerStep] at h
    split at h
    · rename_i hfree
      obtain ⟨policies, hsave, rfl⟩ := Option.map_eq_some_iff.mp h
      unfold savePolicy at hsave
      split at hsave
      · exact .inserted hsave
      · rename_i p hp
        cases hsave
        exact .savedAgain (by simpa [hp] using hfree)
    · cases h
  | begin n call =>
    simp only [schedulerStep] at h
    split at h
    · rename_i hfree
      cases h
      exact .begin hfree.1
    · cases h
  | lock n policyId =>
    simp only [schedulerStep] at h
    split at h
    · rename_i now left release p hx hp
      split at h
      · rename_i hfree
        cases h
        obtain ⟨-, rfl⟩ := Table.get_eq_some.mp hp
        exact .lock hx hp hfree.2
      · cases h
    · cases h
  | serve n policyId sha runId correlationId outboxId =>
    simp only [schedulerStep] at h
    split at h
    · rename_i now left release p holder created hx hp hheld
      split at h
      · cases h
        obtain ⟨-, rfl⟩ := Table.get_eq_some.mp hp
        obtain ⟨hl, rfl⟩ := heldBy_eq_some.mp hheld
        exact .serve hx hp hl
      · cases h
    · cases h
  | update n policyId =>
    simp only [schedulerStep] at h
    split at h
    · rename_i now tenantId datasetName interval topK by_ p hx hp
      split at h
      · rename_i hrow
        cases h
        obtain ⟨-, rfl⟩ := Table.get_eq_some.mp hp
        obtain ⟨-, rfl, rfl⟩ := hrow
        exact .update hx hp
      · cases h
    · cases h
  | commit n =>
    obtain ⟨x, -, h⟩ := Option.bind_eq_some_iff.mp h
    obtain ⟨run, hrun, h⟩ := Option.bind_eq_some_iff.mp h
    obtain ⟨outbox, houtbox, h⟩ := Option.bind_eq_some_iff.mp h
    cases h
    exact .commit (Table.tryInsertAll_eq_some hrun) (Table.tryInsertAll_eq_some houtbox)
  | abort n =>
    obtain ⟨x, -, ht⟩ := Option.bind_eq_some_iff.mp h
    cases ht
    exact .abort

theorem schedulerInv_step {env : ScheduleEnv} {s t : SchedulerState} {a : SchedulerAct}
    (henv : env.Faithful) (h : SchedulerInv env s) (hstep : schedulerStep env s a = some t) :
    SchedulerInv env t := by
  cases schedulerStep_move hstep with
  | tick hnow => exact schedulerInv_tick h hnow
  | enqueue hfree hrun => exact schedulerInv_enqueue h hfree hrun
  | inserted hins => exact schedulerInv_inserted h hins
  | savedAgain hfree => exact schedulerInv_savedAgain h hfree
  | begin hn => exact schedulerInv_begin h hn
  | @lock n p now left release hx hp hdue =>
    refine schedulerInv_setLock h hp ?_ ?_ (lockOk_locked hx hdue)
    · intro m x hm
      rcases update_eq_some hm with ⟨rfl, rfl⟩ | ⟨-, hm⟩
      · exact ⟨_, hx, rfl⟩
      · exact ⟨x, hm, rfl⟩
    · intro m x hm
      by_cases hmn : m = n
      · subst hmn
        cases hx.symm.trans hm
        exact ⟨_, Function.update_self .., rfl⟩
      · exact ⟨x, (Function.update_of_ne hmn _ s.txns).trans hm, rfl⟩
  | @serve n p now left release sha runId correlationId outboxId created hx hp hl =>
    obtain ⟨⟨x, hx', hdue⟩, -, -⟩ := h.lock p (Table.get_eq_some.mp hp).1 _ hl
    cases hx.symm.trans hx'
    have hwrite := servePolicy_write env s.db now release p sha runId correlationId outboxId
    refine schedulerInv_putLock h hp ?_
    exact lockOk_written hx (WriteOk.of_serves hwrite (hdue rfl) (h.started n _ hx))
      (fun _ hc => servePolicy_created hc)
  | update hx hp =>
    exact schedulerInv_putLock h hp (lockOk_written hx trivial (fun _ hc => by cases hc))
  | commit hrun houtbox => exact schedulerInv_commit henv h hrun houtbox
  | abort => exact schedulerInv_abort h

theorem schedulerInv_reaches {env : ScheduleEnv} {clock : Time} {policies : PolicyTable}
    {acts : List SchedulerAct} {s : SchedulerState} (henv : env.Faithful)
    (h : Reaches (schedulerStep env) (.initial clock policies) acts s) : SchedulerInv env s :=
  h.invariant (fun _ _ _ hs ht => schedulerInv_step henv hs ht)
    (schedulerInv_initial env clock policies)

end AgenticPlatform.Governance
