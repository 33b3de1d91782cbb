import AgenticPlatform.Correctness.Relay

/-!
# Admission under concurrent transactions

Callers run `enqueue_run` inside transactions of their own, any number of calls in
each, and the relays drain what has been committed. A statement sees the committed
rows and the rows of its own transaction. The unique index on (tenant_id,
idempotency_key) also meets the uncommitted rows of others: an INSERT whose key another
open transaction has inserted waits, and goes on when that one ends. A transaction may
be rolled back at any point, and a relay pass may see `publish` raise or crash.
-/
namespace AgenticPlatform.Correctness
open AgenticPlatform.Foundation AgenticPlatform.Identity AgenticPlatform.Db

/-- A run inserted by a transaction still open, and its outbox row once that is sent. -/
structure Pending where
  txn : Nat
  run : RunRow
  outbox : Option OutboxRow
deriving DecidableEq

/-- What one call of `enqueue_run` returned, with the tenant and key it was made for. -/
structure Caller where
  tenantId : Uuid
  key : Option String
  runId : Uuid
  created : Bool
deriving DecidableEq

def EnqueueRequest.caller (q : EnqueueRequest) (runId : Uuid) (created : Bool) : Caller :=
  ⟨q.ctx.tenant.id, q.key, runId, created⟩

/-- Where a transaction stands in its current call: between calls, after a fast path
that found nothing, or between the two INSERTs. -/
inductive CallPos where
  | ready
  | missed (q : EnqueueRequest)
  | inserted (q : EnqueueRequest) (runId : Uuid)

inductive TxnState where
  | unused
  | opened (now : Time) (pos : CallPos) (results : List Caller)
  | committed
  | rolledBack

structure AdmissionState where
  relay : RelayState
  pending : List Pending
  txns : Nat → TxnState
  /-- The calls made by the transactions that committed. -/
  callers : List Caller

def AdmissionState.initial : AdmissionState :=
  ⟨RelayState.initial Store.empty, [], fun _ => .unused, []⟩

inductive AdmissionAct where
  | openTxn (n : Nat) (now : Time)
  | select (n : Nat) (q : EnqueueRequest)
  | insertRun (n : Nat) (release : String) (runId : Uuid)
  | insertOutbox (n : Nat) (trace : Json) (outboxId : Nat)
  | commit (n : Nat)
  | rollback (n : Nat)
  | relay (a : RelayAct)

/-- The uncommitted run under this key, if one is there. -/
def pendingWithKey (pending : List Pending) (tenantId : Uuid) (key : Option String) :
    Option Pending :=
  pending.find? (fun p => p.run.tenantId = tenantId ∧ key ≠ none ∧ p.run.idempotencyKey = key)

/-- What the unique index answers an INSERT of transaction `n`. -/
inductive KeyCheck where
  | free
  | taken (runId : Uuid)
  | wait

def keyCheck (s : AdmissionState) (n : Nat) (q : EnqueueRequest) : KeyCheck :=
  match runWithKey s.relay.db.run q.ctx.tenant.id q.key with
  | some r => .taken r.id
  | none =>
    match pendingWithKey s.pending q.ctx.tenant.id q.key with
    | some p => if p.txn = n then .taken p.run.id else .wait
    | none => .free

/-- What the fast-path SELECT of transaction `n` finds; an empty key skips it. -/
def fastPath (s : AdmissionState) (n : Nat) (q : EnqueueRequest) : Option Uuid :=
  if q.key = some "" then none
  else
    match runWithKey s.relay.db.run q.ctx.tenant.id q.key with
    | some r => some r.id
    | none =>
      ((pendingWithKey s.pending q.ctx.tenant.id q.key).filter (fun p => p.txn = n)).map
        (fun p => p.run.id)

/-- The run an open transaction has just inserted. -/
def newPending (n : Nat) (now : Time) (release : String) (q : EnqueueRequest) (runId : Uuid) :
    Pending :=
  ⟨n, newRun now release q runId, none⟩

/-- The pending row of a run once its outbox row is inserted. -/
def Pending.send (o : OutboxRow) (p : Pending) : Pending :=
  if p.run.id = o.runId then { p with outbox := some o } else p

def admissionStep (s : AdmissionState) : AdmissionAct → Option AdmissionState
  | .openTxn n now =>
    match s.txns n with
    | .unused => some { s with txns := Function.update s.txns n (.opened now .ready []) }
    | _ => none
  | .select n q =>
    match s.txns n with
    | .opened now .ready results =>
      match fastPath s n q with
      | some id =>
        some { s with
          txns := Function.update s.txns n (.opened now .ready (results ++ [q.caller id false])) }
      | none => some { s with txns := Function.update s.txns n (.opened now (.missed q) results) }
    | _ => none
  | .insertRun n release runId =>
    match s.txns n with
    | .opened now (.missed q) results =>
      match keyCheck s n q with
      | .taken id =>
        some { s with
          txns := Function.update s.txns n (.opened now .ready (results ++ [q.caller id false])) }
      | .wait => none
      | .free =>
        if runId ∈ s.relay.db.run.keys ∨ runId ∈ s.pending.map (fun p => p.run.id) then none
        else
          some { s with
            pending := s.pending ++ [newPending n now release q runId]
            txns := Function.update s.txns n (.opened now (.inserted q runId) results) }
    | _ => none
  | .insertOutbox n trace outboxId =>
    match s.txns n with
    | .opened now (.inserted q runId) results =>
      if outboxId ∈ s.relay.db.outbox.keys ∨
          outboxId ∈ (s.pending.filterMap Pending.outbox).map OutboxRow.id then
        none
      else
        some { s with
          pending := s.pending.map (Pending.send (newOutbox now trace q runId outboxId))
          txns := Function.update s.txns n (.opened now .ready (results ++ [q.caller runId true])) }
    | _ => none
  | .commit n =>
    match s.txns n with
    | .opened _ .ready results => do
      let new := s.pending.filter (fun p => p.txn = n)
      let run' ← s.relay.db.run.tryInsertAll (new.map Pending.run)
      let outbox' ← s.relay.db.outbox.tryInsertAll (new.filterMap Pending.outbox)
      some { s with
        relay := { s.relay with db := ⟨run', outbox'⟩ }
        pending := s.pending.filter (fun p => p.txn ≠ n)
        txns := Function.update s.txns n .committed
        callers := s.callers ++ results }
    | _ => none
  | .rollback n =>
    match s.txns n with
    | .opened .. =>
      some { s with
        pending := s.pending.filter (fun p => p.txn ≠ n)
        txns := Function.update s.txns n .rolledBack }
    | _ => none
  | .relay a => (relayStep s.relay a).map (fun r => { s with relay := r })

/-! ## What is admitted and what is intended -/

/-- The columns of a run that its admission fixed. -/
structure Admitted where
  tenantId : Uuid
  key : Option String
  id : Uuid
  workload : String
  input : Json
deriving DecidableEq

def RunRow.admitted (r : RunRow) : Admitted :=
  ⟨r.tenantId, r.idempotencyKey, r.id, r.workload, r.input⟩

/-- Tenant, run, workload and payload of an intent to publish. -/
abbrev Intent := Uuid × Uuid × String × Json

def Admitted.intent (f : Admitted) : Intent := (f.tenantId, f.id, f.workload, f.input)

def OutboxRow.intent (o : OutboxRow) : Intent := (o.tenantId, o.runId, o.workload, o.payload)

/-- The tenant and key a run was asked for under, and the run. -/
abbrev Claim := Uuid × Option String × Uuid

def Admitted.claim (f : Admitted) : Claim := (f.tenantId, f.key, f.id)

def Caller.claim (c : Caller) : Claim := (c.tenantId, c.key, c.runId)

def AdmissionState.committed (s : AdmissionState) : List Admitted :=
  s.relay.db.run.rows.map RunRow.admitted

def Pending.admitted (p : Pending) : Admitted := RunRow.admitted p.run

def EnqueueRequest.admits (q : EnqueueRequest) (runId : Uuid) : Admitted :=
  ⟨q.ctx.tenant.id, q.key, runId, q.workload, q.payload⟩

/-- A row transaction `n` can see carries this claim. -/
def Found (s : AdmissionState) (n : Nat) (x : Claim) : Prop :=
  (∃ f ∈ s.committed, f.claim = x) ∨ ∃ p ∈ s.pending, p.txn = n ∧ p.admitted.claim = x

/-- The rows of transaction `n` whose outbox row is there. -/
def sentBy (pending : List Pending) (n : Nat) : List Pending :=
  pending.filter (fun p => p.txn = n ∧ p.outbox.isSome = true)

/-- The invariant of admission. Keys are unique over committed and uncommitted rows
alike; the committed intents are those of the committed runs, in order; the calls that
returned created=True are, up to order, the runs their transactions inserted. -/
structure AdmissionInv (s : AdmissionState) : Prop where
  relay : RelayInv Store.empty s.relay
  ids : ((s.committed ++ s.pending.map Pending.admitted).map Admitted.id).Nodup
  keys : ∀ f ∈ s.committed ++ s.pending.map Pending.admitted,
    ∀ g ∈ s.committed ++ s.pending.map Pending.admitted,
      f.tenantId = g.tenantId → f.key = g.key → f.key ≠ none → f.id = g.id
  intents : s.relay.db.outbox.rows.map OutboxRow.intent = s.committed.map Admitted.intent
  sent : ∀ p ∈ s.pending, ∀ o, p.outbox = some o →
    OutboxRow.intent o = p.admitted.intent ∧ o.publishedAt = none
  unsent : ∀ p ∈ s.pending, p.outbox = none →
    ∃ now q results, s.txns p.txn = .opened now (.inserted q p.run.id) results
  sending : ∀ n now q runId results, s.txns n = .opened now (.inserted q runId) results →
    ∃ p ∈ s.pending, p.txn = n ∧ p.outbox = none ∧ p.admitted = q.admits runId
  opened : ∀ p ∈ s.pending, ∃ now pos results, s.txns p.txn = .opened now pos results
  created : ∀ n now pos results, s.txns n = .opened now pos results →
    ((results.filter Caller.created).map Caller.claim).Perm
      ((sentBy s.pending n).map (fun p => p.admitted.claim))
  found : ∀ n now pos results, s.txns n = .opened now pos results → ∀ c ∈ results, Found s n c.claim
  callersCreated :
    ((s.callers.filter Caller.created).map Caller.claim).Perm (s.committed.map Admitted.claim)
  callersFound : ∀ c ∈ s.callers, ∃ f ∈ s.committed, f.claim = c.claim

theorem admissionInv_initial : AdmissionInv AdmissionState.initial := by
  refine ⟨relayInv_initial _, List.nodup_nil, ?_, rfl, ?_, ?_, ?_, ?_, ?_, ?_, List.Perm.nil, ?_⟩
  · intro f hf
    cases hf
  · intro p hp
    cases hp
  · intro p hp
    cases hp
  · intro n now q runId results h
    cases h
  · intro p hp
    cases hp
  · intro n now pos results h
    cases h
  · intro n now pos results h
    cases h
  · intro c hc
    cases hc

/-! ## What the index and the fast path say -/

theorem pendingWithKey_some {pending : List Pending} {tenantId : Uuid} {key : Option String}
    {p : Pending} (h : pendingWithKey pending tenantId key = some p) :
    p ∈ pending ∧ p.run.tenantId = tenantId ∧ key ≠ none ∧ p.run.idempotencyKey = key := by
  have hp := List.find?_some h
  simp only [decide_eq_true_eq] at hp
  exact ⟨List.mem_of_find?_eq_some h, hp⟩

theorem found_of_run {s : AdmissionState} {n : Nat} {q : EnqueueRequest} {r : RunRow}
    (h : runWithKey s.relay.db.run q.ctx.tenant.id q.key = some r) :
    Found s n (q.caller r.id false).claim := by
  obtain ⟨hr, ht, -, hk⟩ := runWithKey_some h
  refine Or.inl ⟨RunRow.admitted r, List.mem_map_of_mem hr, ?_⟩
  simp only [Admitted.claim, RunRow.admitted, Caller.claim, EnqueueRequest.caller, ht, hk]

theorem found_of_pending {s : AdmissionState} {n : Nat} {q : EnqueueRequest} {p : Pending}
    (h : pendingWithKey s.pending q.ctx.tenant.id q.key = some p) (hn : p.txn = n) :
    Found s n (q.caller p.run.id false).claim := by
  obtain ⟨hp, ht, -, hk⟩ := pendingWithKey_some h
  refine Or.inr ⟨p, hp, hn, ?_⟩
  simp only [Admitted.claim, Pending.admitted, RunRow.admitted, Caller.claim,
    EnqueueRequest.caller, ht, hk]

theorem found_of_fastPath {s : AdmissionState} {n : Nat} {q : EnqueueRequest} {id : Uuid}
    (h : fastPath s n q = some id) : Found s n (q.caller id false).claim := by
  unfold fastPath at h
  split at h
  · cases h
  · split at h
    · cases h
      exact found_of_run ‹_›
    · obtain ⟨p, hp, rfl⟩ := Option.map_eq_some_iff.mp h
      obtain ⟨hp, hn⟩ := Option.filter_eq_some_iff.mp hp
      exact found_of_pending hp (by simpa using hn)

theorem found_of_taken {s : AdmissionState} {n : Nat} {q : EnqueueRequest} {id : Uuid}
    (h : keyCheck s n q = .taken id) : Found s n (q.caller id false).claim := by
  unfold keyCheck at h
  split at h
  · cases h
    exact found_of_run ‹_›
  · split at h
    · split at h
      · cases h
        exact found_of_pending ‹_› ‹_›
      · cases h
    · cases h

/-- A free key is carried by no row, committed or not. -/
theorem unused_of_free {s : AdmissionState} {n : Nat} {q : EnqueueRequest}
    (h : keyCheck s n q = .free) :
    ∀ f ∈ s.committed ++ s.pending.map Pending.admitted, f.tenantId = q.ctx.tenant.id →
      q.key ≠ none → f.key ≠ q.key := by
  unfold keyCheck at h
  split at h
  · cases h
  · rename_i hrun
    split at h
    · split at h <;> cases h
    · rename_i hpend
      intro f hf ht hk he
      rcases List.mem_append.mp hf with hf | hf
      · obtain ⟨r, hr, rfl⟩ := List.mem_map.mp hf
        exact List.find?_eq_none.mp hrun r hr (decide_eq_true ⟨ht, hk, he⟩)
      · obtain ⟨p, hp, rfl⟩ := List.mem_map.mp hf
        exact List.find?_eq_none.mp hpend p hp (decide_eq_true ⟨ht, hk, he⟩)

/-! ## Each step keeps the invariant -/

/-- A step inside one transaction that inserts nothing. -/
theorem admissionInv_within {s : AdmissionState} {n : Nat} {now : Time} {pos : CallPos}
    {results : List Caller} (h : AdmissionInv s) (hpos : ∀ q runId, pos ≠ .inserted q runId)
    (hidle : ∀ now' q runId results', s.txns n ≠ .opened now' (.inserted q runId) results')
    (hcreated : ((results.filter Caller.created).map Caller.claim).Perm
      ((sentBy s.pending n).map (fun p => p.admitted.claim)))
    (hfound : ∀ c ∈ results, Found s n c.claim) :
    AdmissionInv { s with txns := Function.update s.txns n (.opened now pos results) } := by
  refine ⟨h.relay, h.ids, h.keys, h.intents, h.sent, ?_, ?_, ?_, ?_, ?_, h.callersCreated,
    h.callersFound⟩
  · intro p hp hnone
    obtain ⟨now', q, results', ho⟩ := h.unsent p hp hnone
    have hne : p.txn ≠ n := by
      intro he
      rw [he] at ho
      exact hidle now' q _ results' ho
    exact ⟨now', q, results', by simp [Function.update_of_ne hne, ho]⟩
  · intro m now' q runId results' hm
    rcases update_cases hm with ⟨-, he⟩ | ⟨-, hm⟩
    · simp only [TxnState.opened.injEq] at he
      exact absurd he.2.1 (hpos q runId)
    · exact h.sending m now' q runId results' hm
  · intro p hp
    by_cases he : p.txn = n
    · exact ⟨now, pos, results, by simp [he]⟩
    · obtain ⟨now', pos', results', ho⟩ := h.opened p hp
      exact ⟨now', pos', results', by simp [Function.update_of_ne he, ho]⟩
  · intro m now' pos' results' hm
    rcases update_cases hm with ⟨rfl, he⟩ | ⟨-, hm⟩
    · cases he
      exact hcreated
    · exact h.created m now' pos' results' hm
  · intro m now' pos' results' hm
    rcases update_cases hm with ⟨rfl, he⟩ | ⟨-, hm⟩
    · cases he
      exact hfound
    · exact h.found m now' pos' results' hm

/-- A call that resolves to a run already there. -/
theorem admissionInv_resolve {s : AdmissionState} {n : Nat} {now : Time} {pos : CallPos}
    {results : List Caller} {q : EnqueueRequest} {id : Uuid} (h : AdmissionInv s)
    (hpos : ∀ q runId, pos ≠ .inserted q runId) (hn : s.txns n = .opened now pos results)
    (hfound : Found s n (q.caller id false).claim) :
    AdmissionInv { s with
      txns := Function.update s.txns n (.opened now .ready (results ++ [q.caller id false])) } := by
  refine admissionInv_within h nofun ?_ ?_ ?_
  · intro now' q' runId results' he
    rw [hn] at he
    simp only [TxnState.opened.injEq] at he
    exact hpos q' runId he.2.1
  · rw [List.filter_append]
    simpa [EnqueueRequest.caller] using h.created n now pos results hn
  · intro c hc
    rcases List.mem_append.mp hc with hc | hc
    · exact h.found n now pos results hn c hc
    · rw [List.mem_singleton] at hc
      rw [hc]
      exact hfound

theorem admissionInv_openTxn {s : AdmissionState} {n : Nat} {now : Time} (h : AdmissionInv s)
    (hn : s.txns n = .unused) :
    AdmissionInv { s with txns := Function.update s.txns n (.opened now .ready []) } := by
  have hnone : sentBy s.pending n = [] := by
    rw [sentBy, List.filter_eq_nil_iff]
    intro p hp hcond
    obtain ⟨now', pos, results, ho⟩ := h.opened p hp
    simp only [decide_eq_true_eq] at hcond
    rw [hcond.1, hn] at ho
    cases ho
  refine admissionInv_within h nofun ?_ ?_ nofun
  · intro now' q runId results' he
    rw [hn] at he
    cases he
  · rw [hnone]
    exact List.Perm.nil

theorem sentBy_append_unsent (pending : List Pending) (n m : Nat) (now : Time) (release : String)
    (q : EnqueueRequest) (runId : Uuid) :
    sentBy (pending ++ [newPending n now release q runId]) m = sentBy pending m := by
  simp [sentBy, newPending]

theorem found_append {s : AdmissionState} {n : Nat} {x : Claim} {p : Pending}
    {txns : Nat → TxnState} (h : Found s n x) :
    Found { s with pending := s.pending ++ [p], txns := txns } n x := by
  rcases h with h | ⟨p', hp', hx⟩
  · exact Or.inl h
  · exact Or.inr ⟨p', List.mem_append_left _ hp', hx⟩

/-- The INSERT of a run under a free key. -/
theorem admissionInv_insertRun {s : AdmissionState} {n : Nat} {now : Time} {q : EnqueueRequest}
    {results : List Caller} {release : String} {runId : Uuid} (h : AdmissionInv s)
    (hn : s.txns n = .opened now (.missed q) results) (hfree : keyCheck s n q = .free)
    (hfresh : runId ∉ s.relay.db.run.keys ∧ runId ∉ s.pending.map (fun p => p.run.id)) :
    AdmissionInv { s with
      pending := s.pending ++ [newPending n now release q runId]
      txns := Function.update s.txns n (.opened now (.inserted q runId) results) } := by
  have hall : s.committed ++
      (s.pending ++ [newPending n now release q runId]).map Pending.admitted =
      (s.committed ++ s.pending.map Pending.admitted) ++ [q.admits runId] := by
    rw [List.map_append, List.append_assoc]
    rfl
  have hnew := unused_of_free hfree
  refine ⟨h.relay, ?_, ?_, h.intents, ?_, ?_, ?_, ?_, ?_, ?_, h.callersCreated, h.callersFound⟩
  · change ((s.committed ++ (s.pending ++ [newPending n now release q runId]).map
      Pending.admitted).map Admitted.id).Nodup
    rw [hall, List.map_append, List.nodup_append]
    refine ⟨h.ids, List.nodup_singleton _, ?_⟩
    intro a ha b hb hab
    have hb' : b = runId := by simpa [EnqueueRequest.admits] using hb
    rw [hab, hb', List.map_append, List.mem_append] at ha
    rcases ha with ha | ha
    · exact hfresh.1 (by simpa [AdmissionState.committed, RunRow.admitted, Table.keys] using ha)
    · exact hfresh.2 (by simpa [Pending.admitted, RunRow.admitted] using ha)
  · change ∀ f ∈ s.committed ++
      (s.pending ++ [newPending n now release q runId]).map Pending.admitted,
      ∀ g ∈ s.committed ++ (s.pending ++ [newPending n now release q runId]).map Pending.admitted, _
    rw [hall]
    intro f hf g hg ht hk hnone
    rw [List.mem_append, List.mem_singleton] at hf hg
    rcases hf with hf | rfl
    · rcases hg with hg | rfl
      · exact h.keys f hf g hg ht hk hnone
      · exact absurd hk (hnew f hf ht (fun hq => hnone (hk.trans hq)))
    · rcases hg with hg | rfl
      · exact absurd hk.symm (hnew g hg ht.symm hnone)
      · rfl
  · intro p hp o ho
    rcases List.mem_append.mp hp with hp | hp
    · exact h.sent p hp o ho
    · rw [List.mem_singleton] at hp
      rw [hp] at ho
      cases ho
  · intro p hp hnone
    rcases List.mem_append.mp hp with hp | hp
    · obtain ⟨now', q', results', ho⟩ := h.unsent p hp hnone
      have hne : p.txn ≠ n := by
        intro he
        rw [he, hn] at ho
        cases ho
      exact ⟨now', q', results', by simp [Function.update_of_ne hne, ho]⟩
    · rw [List.mem_singleton] at hp
      rw [hp]
      exact ⟨now, q, results, Function.update_self ..⟩
  · intro m now' q' runId' results' hm
    rcases update_cases hm with ⟨rfl, he⟩ | ⟨-, hm⟩
    · cases he
      exact ⟨_, List.mem_append_right _ List.mem_cons_self, rfl, rfl, rfl⟩
    · obtain ⟨p, hp, hrest⟩ := h.sending m now' q' runId' results' hm
      exact ⟨p, List.mem_append_left _ hp, hrest⟩
  · intro p hp
    rcases List.mem_append.mp hp with hp | hp
    · by_cases he : p.txn = n
      · exact ⟨now, _, results, by rw [he]; exact Function.update_self ..⟩
      · obtain ⟨now', pos', results', ho⟩ := h.opened p hp
        exact ⟨now', pos', results', by simp [Function.update_of_ne he, ho]⟩
    · rw [List.mem_singleton] at hp
      rw [hp]
      exact ⟨now, _, results, Function.update_self ..⟩
  · intro m now' pos' results' hm
    change List.Perm _ ((sentBy (s.pending ++ [newPending n now release q runId]) m).map _)
    rw [sentBy_append_unsent]
    rcases update_cases hm with ⟨rfl, he⟩ | ⟨-, hm⟩
    · cases he
      exact h.created m now _ results hn
    · exact h.created m now' pos' results' hm
  · intro m now' pos' results' hm c hc
    rcases update_cases hm with ⟨rfl, he⟩ | ⟨-, hm⟩
    · cases he
      exact found_append (h.found m now _ results hn c hc)
    · exact found_append (h.found m now' pos' results' hm c hc)

theorem send_run (o : OutboxRow) (p : Pending) : (p.send o).run = p.run := by
  unfold Pending.send
  split <;> rfl

theorem send_txn (o : OutboxRow) (p : Pending) : (p.send o).txn = p.txn := by
  unfold Pending.send
  split <;> rfl

theorem send_admitted (o : OutboxRow) (p : Pending) : (p.send o).admitted = p.admitted := by
  rw [Pending.admitted, send_run, Pending.admitted]

theorem map_send_admitted (o : OutboxRow) (pending : List Pending) :
    (pending.map (Pending.send o)).map Pending.admitted = pending.map Pending.admitted := by
  rw [List.map_map]
  exact List.map_congr_left (fun p _ => send_admitted o p)

theorem pending_ids_nodup {s : AdmissionState} (h : AdmissionInv s) :
    (s.pending.map (fun p => p.run.id)).Nodup := by
  have hids := h.ids
  rw [List.map_append, List.nodup_append] at hids
  simpa [List.map_map, Function.comp_def, Pending.admitted, RunRow.admitted] using hids.2.1

/-- A run identifier belongs to one uncommitted row. -/
theorem pending_eq {s : AdmissionState} (h : AdmissionInv s) {p p' : Pending} (hp : p ∈ s.pending)
    (hp' : p' ∈ s.pending) (hid : p.run.id = p'.run.id) : p = p' :=
  List.inj_on_of_nodup_map (pending_ids_nodup h) hp hp' hid

/-- Sending one unsent row adds it, and nothing else, to what its transaction sent. -/
theorem sentBy_send {s : AdmissionState} (h : AdmissionInv s) {p : Pending} (hp : p ∈ s.pending)
    (hnone : p.outbox = none) {o : OutboxRow} (ho : o.runId = p.run.id) (m : Nat) :
    ((sentBy (s.pending.map (Pending.send o)) m).map (fun p => p.admitted.claim)).Perm
      ((sentBy s.pending m).map (fun p => p.admitted.claim) ++
        if p.txn = m then [p.admitted.claim] else []) := by
  obtain ⟨l₁, l₂, hsplit⟩ := List.append_of_mem hp
  have hkeep : ∀ l : List Pending, (∀ x ∈ l, x.run.id ≠ p.run.id) → l.map (Pending.send o) = l := by
    intro l hl
    refine (List.map_congr_left ?_).trans (List.map_id l)
    intro x hx
    exact if_neg (fun he => hl x hx (he.trans ho))
  have hdist : ∀ x ∈ l₁ ++ l₂, x.run.id ≠ p.run.id := by
    intro x hx he
    have hnodup := pending_ids_nodup h
    rw [hsplit, (List.perm_middle.map _).nodup_iff, List.map_cons, List.nodup_cons] at hnodup
    exact hnodup.1 (he ▸ List.mem_map_of_mem hx)
  have hmap : s.pending.map (Pending.send o) = l₁ ++ { p with outbox := some o } :: l₂ := by
    rw [hsplit, List.map_append, List.map_cons,
      hkeep l₁ (fun x hx => hdist x (List.mem_append_left _ hx)),
      hkeep l₂ (fun x hx => hdist x (List.mem_append_right _ hx)), Pending.send, if_pos ho.symm]
  rw [hmap, hsplit]
  simp only [sentBy, List.filter_append, List.filter_cons, hnone,
    Option.isSome_none, Bool.false_eq_true,
    and_false, decide_false, if_false, Option.isSome_some, and_true, decide_eq_true_eq]
  by_cases hm : p.txn = m
  · rw [if_pos hm, if_pos hm]
    refine (List.perm_middle.map _).trans ?_
    exact (List.perm_append_singleton _ _).symm
  · rw [if_neg hm, if_neg hm, List.append_nil]

theorem found_send {s : AdmissionState} {n : Nat} {x : Claim} {o : OutboxRow}
    {txns : Nat → TxnState} (h : Found s n x) :
    Found { s with pending := s.pending.map (Pending.send o), txns := txns } n x := by
  rcases h with h | ⟨p, hp, hn, hx⟩
  · exact Or.inl h
  · exact Or.inr ⟨p.send o, List.mem_map_of_mem hp, by rw [send_txn, hn], by rw [send_admitted, hx]⟩

/-- The INSERT of the outbox row that follows. -/
theorem admissionInv_insertOutbox {s : AdmissionState} {n : Nat} {now : Time} {q : EnqueueRequest}
    {results : List Caller} {trace : Json} {runId : Uuid} {outboxId : Nat} (h : AdmissionInv s)
    (hn : s.txns n = .opened now (.inserted q runId) results) :
    AdmissionInv { s with
      pending := s.pending.map (Pending.send (newOutbox now trace q runId outboxId))
      txns := Function.update s.txns n
          (.opened now .ready (results ++ [q.caller runId true])) } := by
  obtain ⟨p₀, hp₀, htxn, hnone₀, hadm⟩ := h.sending n now q runId results hn
  have hid₀ : p₀.run.id = runId := congrArg Admitted.id hadm
  have hother : ∀ p ∈ s.pending, p.txn ≠ n → p.run.id ≠ runId := by
    intro p hp hne he
    have heq := pending_eq h hp hp₀ (he.trans hid₀.symm)
    exact hne (heq ▸ htxn)
  refine ⟨h.relay, ?_, ?_, h.intents, ?_, ?_, ?_, ?_, ?_, ?_, h.callersCreated, h.callersFound⟩
  · change ((s.committed ++ (s.pending.map (Pending.send _)).map Pending.admitted).map
      Admitted.id).Nodup
    rw [map_send_admitted]
    exact h.ids
  · change ∀ f ∈ s.committed ++ (s.pending.map (Pending.send _)).map Pending.admitted,
      ∀ g ∈ s.committed ++ (s.pending.map (Pending.send _)).map Pending.admitted, _
    rw [map_send_admitted]
    exact h.keys
  · intro p' hp' o ho
    obtain ⟨p, hp, rfl⟩ := List.mem_map.mp hp'
    rw [send_admitted]
    unfold Pending.send at ho
    split at ho
    · rename_i hid
      have heq : p = p₀ := pending_eq h hp hp₀ (hid.trans hid₀.symm)
      cases ho
      rw [heq, hadm]
      exact ⟨rfl, rfl⟩
    · exact h.sent p hp o ho
  · intro p' hp' hnone
    obtain ⟨p, hp, rfl⟩ := List.mem_map.mp hp'
    rw [send_txn, send_run]
    unfold Pending.send at hnone
    split at hnone
    · cases hnone
    · rename_i hid
      obtain ⟨now', q', results', ho⟩ := h.unsent p hp hnone
      have hne : p.txn ≠ n := by
        intro he
        rw [he, hn] at ho
        cases ho
        exact hid rfl
      exact ⟨now', q', results', by simp [Function.update_of_ne hne, ho]⟩
  · intro m now' q' runId' results' hm
    rcases update_cases hm with ⟨-, he⟩ | ⟨hne, hm⟩
    · cases he
    · obtain ⟨p, hp, hpm, hnone, hrest⟩ := h.sending m now' q' runId' results' hm
      refine ⟨p, List.mem_map.mpr ⟨p, hp, if_neg ?_⟩, hpm, hnone, hrest⟩
      exact hother p hp (hpm ▸ hne)
  · intro p' hp'
    obtain ⟨p, hp, rfl⟩ := List.mem_map.mp hp'
    rw [send_txn]
    by_cases he : p.txn = n
    · exact ⟨now, .ready, _, by rw [he]; exact Function.update_self ..⟩
    · obtain ⟨now', pos', results', ho⟩ := h.opened p hp
      exact ⟨now', pos', results', by simp [Function.update_of_ne he, ho]⟩
  · intro m now' pos' results' hm
    have hsend := sentBy_send h hp₀ hnone₀ (o := newOutbox now trace q runId outboxId) hid₀.symm m
    refine List.Perm.trans ?_ hsend.symm
    rcases update_cases hm with ⟨rfl, he⟩ | ⟨hne, hm⟩
    · cases he
      rw [if_pos htxn, hadm, List.filter_append, List.map_append]
      exact (h.created m now _ results hn).append_right _
    · rw [if_neg (fun he => hne (he.symm.trans htxn)), List.append_nil]
      exact h.created m now' pos' results' hm
  · intro m now' pos' results' hm c hc
    rcases update_cases hm with ⟨rfl, he⟩ | ⟨-, hm⟩
    · cases he
      rcases List.mem_append.mp hc with hc | hc
      · exact found_send (h.found m now _ results hn c hc)
      · rw [List.mem_singleton] at hc
        rw [hc]
        refine found_send (Or.inr ⟨p₀, hp₀, htxn, ?_⟩)
        rw [hadm]
        rfl
    · exact found_send (h.found m now' pos' results' hm c hc)

/-- What is pending of the other transactions. -/
theorem pending_of_others {pending : List Pending} {n : Nat} :
    ∀ p ∈ pending.filter (fun p => p.txn ≠ n), p ∈ pending ∧ p.txn ≠ n := by
  intro p hp
  obtain ⟨hp, hne⟩ := List.mem_filter.mp hp
  exact ⟨hp, by simpa using hne⟩

/-- Dropping the rows of an ended transaction leaves those of the others. -/
theorem sentBy_drop {pending : List Pending} {n m : Nat} (hne : m ≠ n) :
    sentBy (pending.filter (fun p => p.txn ≠ n)) m = sentBy pending m := by
  rw [sentBy, List.filter_filter, sentBy]
  refine List.filter_congr ?_
  intro p _
  by_cases hm : p.txn = m
  · simp [hm, hne]
  · simp [hm]

theorem admissionInv_rollback {s : AdmissionState} {n : Nat} (h : AdmissionInv s) :
    AdmissionInv { s with
      pending := s.pending.filter (fun p => p.txn ≠ n)
      txns := Function.update s.txns n .rolledBack } := by
  have hkept : ∀ p ∈ s.pending.filter (fun p => p.txn ≠ n), p ∈ s.pending ∧ p.txn ≠ n :=
    pending_of_others
  have hsub : (s.committed ++ (s.pending.filter (fun p => p.txn ≠ n)).map Pending.admitted).Sublist
      (s.committed ++ s.pending.map Pending.admitted) :=
    (List.Sublist.refl _).append (List.filter_sublist.map _)
  have hopened : ∀ m now pos results,
      Function.update s.txns n .rolledBack m = .opened now pos results → m ≠ n ∧
      s.txns m = .opened now pos results := by
    intro m now pos results hm
    rcases update_cases hm with ⟨-, he⟩ | hm
    · cases he
    · exact hm
  refine ⟨h.relay, h.ids.sublist (hsub.map _), ?_, h.intents, ?_, ?_, ?_, ?_, ?_, ?_,
    h.callersCreated, h.callersFound⟩
  · intro f hf g hg
    exact h.keys f (hsub.subset hf) g (hsub.subset hg)
  · intro p hp
    exact h.sent p (hkept p hp).1
  · intro p hp hnone
    obtain ⟨hp, hne⟩ := hkept p hp
    obtain ⟨now, q, results, ho⟩ := h.unsent p hp hnone
    exact ⟨now, q, results, by simp [Function.update_of_ne hne, ho]⟩
  · intro m now q runId results hm
    obtain ⟨hne, hm⟩ := hopened m now _ results hm
    obtain ⟨p, hp, hpm, hrest⟩ := h.sending m now q runId results hm
    exact ⟨p, List.mem_filter.mpr ⟨hp, by simpa [hpm] using hne⟩, hpm, hrest⟩
  · intro p hp
    obtain ⟨hp, hne⟩ := hkept p hp
    obtain ⟨now, pos, results, ho⟩ := h.opened p hp
    exact ⟨now, pos, results, by simp [Function.update_of_ne hne, ho]⟩
  · intro m now pos results hm
    obtain ⟨hne, hm⟩ := hopened m now pos results hm
    change List.Perm _ ((sentBy (s.pending.filter (fun p => p.txn ≠ n)) m).map _)
    rw [sentBy_drop hne]
    exact h.created m now pos results hm
  · intro m now pos results hm c hc
    obtain ⟨hne, hm⟩ := hopened m now pos results hm
    rcases h.found m now pos results hm c hc with hf | ⟨p, hp, hpm, hx⟩
    · exact Or.inl hf
    · exact Or.inr ⟨p, List.mem_filter.mpr ⟨hp, by simpa [hpm] using hne⟩, hpm, hx⟩

/-- New rows, none of them published, change nothing for the relays. -/
theorem relayInv_grow {s : RelayState} {db : Store} (h : RelayInv Store.empty s)
    (hkeys : ∀ id ∈ s.db.outbox.keys, id ∈ db.outbox.keys)
    (hpub : ∀ id, publishedIn db id ↔ publishedIn s.db id) :
    RelayInv Store.empty { s with db := db } := by
  refine ⟨h.locks, h.nodup, ?_, h.begun, h.marked, ?_⟩
  · intro k p id hp hid
    exact hkeys id (h.known k p id hp hid)
  · intro id
    rw [hpub id]
    exact h.published id

/-- The outbox rows a committing transaction brings carry the intents of its runs. -/
theorem intents_of_sent {new : List Pending}
    (hsent : ∀ p ∈ new, ∃ o, p.outbox = some o ∧ OutboxRow.intent o = p.admitted.intent) :
    (new.filterMap Pending.outbox).map OutboxRow.intent =
      (new.map Pending.admitted).map Admitted.intent := by
  induction new with
  | nil => rfl
  | cons p new ih =>
    obtain ⟨o, ho, hintent⟩ := hsent p List.mem_cons_self
    rw [List.filterMap_cons_some ho, List.map_cons, List.map_cons, List.map_cons, hintent,
      ih (fun p hp => hsent p (List.mem_cons_of_mem _ hp))]

theorem admissionInv_commit {s : AdmissionState} {n : Nat} {now : Time} {results : List Caller}
    {run' : RunTable} {outbox' : OutboxTable} (h : AdmissionInv s)
    (hn : s.txns n = .opened now .ready results)
    (hrun : run'.rows =
      s.relay.db.run.rows ++ (s.pending.filter (fun p => p.txn = n)).map Pending.run)
    (houtbox : outbox'.rows =
      s.relay.db.outbox.rows ++ (s.pending.filter (fun p => p.txn = n)).filterMap Pending.outbox) :
    AdmissionInv { s with
      relay := { s.relay with db := ⟨run', outbox'⟩ }
      pending := s.pending.filter (fun p => p.txn ≠ n)
      txns := Function.update s.txns n .committed
      callers := s.callers ++ results } := by
  -- between calls every row of the transaction has its outbox row
  have hmine : ∀ p ∈ s.pending.filter (fun p => p.txn = n), p ∈ s.pending ∧ p.txn = n ∧
      ∃ o, p.outbox = some o ∧ OutboxRow.intent o = p.admitted.intent ∧ o.publishedAt = none := by
    intro p hp
    obtain ⟨hp, htxn⟩ := List.mem_filter.mp hp
    have htxn : p.txn = n := by simpa using htxn
    refine ⟨hp, htxn, ?_⟩
    cases ho : p.outbox with
    | none =>
      obtain ⟨now', q, results', hopen⟩ := h.unsent p hp ho
      rw [htxn, hn] at hopen
      cases hopen
    | some o => exact ⟨o, rfl, h.sent p hp o ho⟩
  have hkept : ∀ p ∈ s.pending.filter (fun p => p.txn ≠ n), p ∈ s.pending ∧ p.txn ≠ n :=
    pending_of_others
  have hcommitted : run'.rows.map RunRow.admitted =
      s.committed ++ (s.pending.filter (fun p => p.txn = n)).map Pending.admitted := by
    rw [hrun, List.map_append, List.map_map]
    rfl
  have hperm : (run'.rows.map RunRow.admitted ++
      (s.pending.filter (fun p => p.txn ≠ n)).map Pending.admitted).Perm
      (s.committed ++ s.pending.map Pending.admitted) := by
    rw [hcommitted, List.append_assoc, ← List.map_append]
    refine List.Perm.append_left _ (List.Perm.map _ ?_)
    have hsplit := List.filter_append_perm (fun p : Pending => decide (p.txn = n)) s.pending
    simpa only [decide_not] using hsplit
  have hopened : ∀ m now pos results,
      Function.update s.txns n .committed m = .opened now pos results → m ≠ n ∧
      s.txns m = .opened now pos results := by
    intro m now pos results hm
    rcases update_cases hm with ⟨-, he⟩ | hm
    · cases he
    · exact hm
  refine ⟨?_, ?_, ?_, ?_, ?_, ?_, ?_, ?_, ?_, ?_, ?_, ?_⟩
  · refine relayInv_grow h.relay ?_ ?_
    · intro id hid
      rw [Table.keys, houtbox, List.map_append]
      exact List.mem_append_left _ hid
    · intro id
      constructor
      · rintro ⟨o, ho, hid, hpub⟩
        rw [houtbox, List.mem_append] at ho
        rcases ho with ho | ho
        · exact ⟨o, ho, hid, hpub⟩
        · obtain ⟨p, hp, hpo⟩ := List.mem_filterMap.mp ho
          obtain ⟨-, -, o', ho', -, hnone⟩ := hmine p hp
          rw [hpo] at ho'
          cases ho'
          exact absurd hnone hpub
      · rintro ⟨o, ho, hid, hpub⟩
        exact ⟨o, by rw [houtbox]; exact List.mem_append_left _ ho, hid, hpub⟩
  · exact (hperm.map Admitted.id).nodup_iff.mpr h.ids
  · intro f hf g hg
    exact h.keys f (hperm.mem_iff.mp hf) g (hperm.mem_iff.mp hg)
  · change outbox'.rows.map OutboxRow.intent = (run'.rows.map RunRow.admitted).map Admitted.intent
    rw [houtbox, hcommitted, List.map_append, List.map_append, h.intents, intents_of_sent]
    intro p hp
    obtain ⟨-, -, o, ho, hintent, -⟩ := hmine p hp
    exact ⟨o, ho, hintent⟩
  · intro p hp
    exact h.sent p (hkept p hp).1
  · intro p hp hnone
    obtain ⟨hp, hne⟩ := hkept p hp
    obtain ⟨now', q, results', ho⟩ := h.unsent p hp hnone
    exact ⟨now', q, results', by simp [Function.update_of_ne hne, ho]⟩
  · intro m now' q runId results' hm
    obtain ⟨hne, hm⟩ := hopened m now' _ results' hm
    obtain ⟨p, hp, hpm, hrest⟩ := h.sending m now' q runId results' hm
    exact ⟨p, List.mem_filter.mpr ⟨hp, by simpa [hpm] using hne⟩, hpm, hrest⟩
  · intro p hp
    obtain ⟨hp, hne⟩ := hkept p hp
    obtain ⟨now', pos, results', ho⟩ := h.opened p hp
    exact ⟨now', pos, results', by simp [Function.update_of_ne hne, ho]⟩
  · intro m now' pos results' hm
    obtain ⟨hne, hm⟩ := hopened m now' pos results' hm
    change List.Perm _ ((sentBy (s.pending.filter (fun p => p.txn ≠ n)) m).map _)
    rw [sentBy_drop hne]
    exact h.created m now' pos results' hm
  · intro m now' pos results' hm c hc
    obtain ⟨hne, hm⟩ := hopened m now' pos results' hm
    rcases h.found m now' pos results' hm c hc with ⟨f, hf, hx⟩ | ⟨p, hp, hpm, hx⟩
    · refine Or.inl ⟨f, ?_, hx⟩
      change f ∈ run'.rows.map RunRow.admitted
      rw [hcommitted]
      exact List.mem_append_left _ hf
    · exact Or.inr ⟨p, List.mem_filter.mpr ⟨hp, by simpa [hpm] using hne⟩, hpm, hx⟩
  · change List.Perm (((s.callers ++ results).filter Caller.created).map Caller.claim)
      ((run'.rows.map RunRow.admitted).map Admitted.claim)
    rw [List.filter_append, List.map_append, hcommitted, List.map_append]
    refine h.callersCreated.append ((h.created n now .ready results hn).trans ?_)
    have hall : sentBy s.pending n = s.pending.filter (fun p => p.txn = n) := by
      refine List.filter_congr ?_
      intro p hp
      by_cases htxn : p.txn = n
      · obtain ⟨-, -, o, ho, -⟩ := hmine p (List.mem_filter.mpr ⟨hp, by simpa using htxn⟩)
        simp [htxn, ho]
      · simp [htxn]
    rw [hall, List.map_map]
    rfl
  · intro c hc
    change ∃ f ∈ run'.rows.map RunRow.admitted, f.claim = c.claim
    rw [hcommitted]
    rcases List.mem_append.mp hc with hc | hc
    · obtain ⟨f, hf, hx⟩ := h.callersFound c hc
      exact ⟨f, List.mem_append_left _ hf, hx⟩
    · rcases h.found n now .ready results hn c hc with ⟨f, hf, hx⟩ | ⟨p, hp, hpn, hx⟩
      · exact ⟨f, List.mem_append_left _ hf, hx⟩
      · refine ⟨p.admitted, List.mem_append_right _ (List.mem_map_of_mem ?_), hx⟩
        exact List.mem_filter.mpr ⟨hp, by simpa using hpn⟩

/-- A relay step leaves what was admitted and what is intended alone. -/
theorem relayStep_admitted {s t : RelayState} {a : RelayAct} (h : relayStep s a = some t) :
    t.db.run.rows.map RunRow.admitted = s.db.run.rows.map RunRow.admitted ∧
    t.db.outbox.rows.map OutboxRow.intent = s.db.outbox.rows.map OutboxRow.intent := by
  cases a with
  | begin k now limit =>
    obtain ⟨-, rfl⟩ := relayStep_begin h
    exact ⟨rfl, rfl⟩
  | lock k =>
    obtain ⟨p, id, waiting, -, -, ⟨o, -, -, rfl⟩ | ⟨-, rfl⟩⟩ := relayStep_lock h
    · exact ⟨rfl, rfl⟩
    · exact ⟨rfl, rfl⟩
  | publish k error =>
    obtain ⟨p, o, locked, -, -, -, rfl⟩ := relayStep_publish h
    exact ⟨rfl, rfl⟩
  | commit k =>
    obtain ⟨p, -, -, -, rfl⟩ := relayStep_commit h
    constructor
    · change (s.db.run.rows.map _).map RunRow.admitted = _
      rw [List.map_map]
      refine List.map_congr_left ?_
      intro r _
      simp only [Function.comp_apply, Table.rewrite]
      split <;> rfl
    · change (s.db.outbox.rows.map p.markedOutbox).map OutboxRow.intent = _
      rw [List.map_map]
      refine List.map_congr_left ?_
      intro o _
      simp only [Function.comp_apply, Pass.markedOutbox]
      cases p.markOf o.id with
      | none => rfl
      | some m => cases m <;> rfl
  | crash k =>
    obtain ⟨p, -, rfl⟩ := relayStep_crash h
    exact ⟨rfl, rfl⟩

theorem admissionInv_relay {s : AdmissionState} {r : RelayState} {a : RelayAct} (h : AdmissionInv s)
    (hr : relayStep s.relay a = some r) : AdmissionInv { s with relay := r } := by
  obtain ⟨hrun, hout⟩ := relayStep_admitted hr
  have hcommitted : AdmissionState.committed { s with relay := r } = s.committed := hrun
  have hfound : ∀ n x, Found s n x → Found { s with relay := r } n x := by
    intro n x hx
    rcases hx with ⟨f, hf, hx⟩ | hx
    · exact Or.inl ⟨f, by rw [hcommitted]; exact hf, hx⟩
    · exact Or.inr hx
  refine ⟨relayInv_step h.relay hr, ?_, ?_, ?_, h.sent, h.unsent, h.sending, h.opened, h.created,
    ?_, ?_, ?_⟩
  · rw [hcommitted]
    exact h.ids
  · rw [hcommitted]
    exact h.keys
  · rw [hcommitted]
    exact hout.trans h.intents
  · intro n now pos results hn c hc
    exact hfound n c.claim (h.found n now pos results hn c hc)
  · rw [hcommitted]
    exact h.callersCreated
  · rw [hcommitted]
    exact h.callersFound

theorem admissionInv_step {s t : AdmissionState} {a : AdmissionAct} (h : AdmissionInv s)
    (hstep : admissionStep s a = some t) : AdmissionInv t := by
  cases a with
  | openTxn n now =>
    simp only [admissionStep] at hstep
    split at hstep
    · cases hstep
      exact admissionInv_openTxn h ‹_›
    · cases hstep
  | select n q =>
    simp only [admissionStep] at hstep
    split at hstep
    · rename_i now results hn
      split at hstep
      · cases hstep
        refine admissionInv_resolve h ?_ hn (found_of_fastPath ‹_›)
        intro q' runId he
        cases he
      · cases hstep
        refine admissionInv_within h nofun ?_ (h.created n now _ results hn)
          (h.found n now _ results hn)
        intro now' q' runId results' he
        rw [hn] at he
        cases he
    · cases hstep
  | insertRun n release runId =>
    simp only [admissionStep] at hstep
    split at hstep
    · rename_i now q results hn
      split at hstep
      · cases hstep
        refine admissionInv_resolve h ?_ hn (found_of_taken ‹_›)
        intro q' runId he
        cases he
      · cases hstep
      · split at hstep
        · cases hstep
        · rename_i hfree hfresh
          cases hstep
          exact admissionInv_insertRun h hn hfree (not_or.mp hfresh)
    · cases hstep
  | insertOutbox n trace outboxId =>
    simp only [admissionStep] at hstep
    split at hstep
    · rename_i now q runId results hn
      split at hstep
      · cases hstep
      · cases hstep
        exact admissionInv_insertOutbox h hn
    · cases hstep
  | commit n =>
    simp only [admissionStep] at hstep
    split at hstep
    · rename_i now results hn
      obtain ⟨run', hrun, hstep⟩ := Option.bind_eq_some_iff.mp hstep
      obtain ⟨outbox', houtbox, hstep⟩ := Option.bind_eq_some_iff.mp hstep
      cases hstep
      exact admissionInv_commit h hn (Table.tryInsertAll_eq_some hrun)
        (Table.tryInsertAll_eq_some houtbox)
    · cases hstep
  | rollback n =>
    simp only [admissionStep] at hstep
    split at hstep
    · cases hstep
      exact admissionInv_rollback h
    · cases hstep
  | relay a =>
    obtain ⟨r, hr, rfl⟩ := Option.map_eq_some_iff.mp hstep
    exact admissionInv_relay h hr

theorem admissionInv_reaches {acts : List AdmissionAct} {s : AdmissionState}
    (h : Reaches admissionStep AdmissionState.initial acts s) : AdmissionInv s :=
  h.invariant (fun _ _ _ hs ht => admissionInv_step hs ht) admissionInv_initial

/-! ## What every committed state satisfies -/

theorem filter_eq_singleton {α : Type*} {l : List α} {p : α → Bool} {a : α} (hl : l.Nodup)
    (ha : a ∈ l) (hp : p a = true) (honly : ∀ b ∈ l, p b = true → b = a) : l.filter p = [a] := by
  refine List.perm_singleton.mp
    ((List.perm_ext_iff_of_nodup (hl.filter p) (List.nodup_singleton a)).mpr ?_)
  intro b
  rw [List.mem_filter, List.mem_singleton]
  constructor
  · rintro ⟨hb, hpb⟩
    exact honly b hb hpb
  · rintro rfl
    exact ⟨ha, hp⟩

theorem AdmissionInv.nodup_ids {s : AdmissionState} (h : AdmissionInv s) :
    (s.committed.map Admitted.id).Nodup := by
  have hids := h.ids
  rw [List.map_append] at hids
  exact hids.of_append_left

/-- Where the intents are those of the runs, in order, every run has one outbox row. -/
theorem outbox_of_intents {db : Store} {r : RunRow}
    (h : db.outbox.rows.map OutboxRow.intent =
      db.run.rows.map (fun r => (RunRow.admitted r).intent))
    (hr : r ∈ db.run.rows) :
    ∃ o, db.outbox.rows.filter (fun o => o.runId = r.id) = [o] ∧
      OutboxRow.intent o = (RunRow.admitted r).intent := by
  have hintent : (RunRow.admitted r).intent ∈ db.outbox.rows.map OutboxRow.intent := by
    rw [h]
    exact List.mem_map_of_mem hr
  obtain ⟨o, ho, he⟩ := List.mem_map.mp hintent
  have hrun : o.runId = r.id := congrArg (fun x : Intent => x.2.1) he
  -- the outbox rows name the runs in the order of the run table, each once
  have hruns : db.outbox.rows.map OutboxRow.runId = db.run.rows.map RunRow.id := by
    have hmap := congrArg (List.map (fun x : Intent => x.2.1)) h
    rw [List.map_map, List.map_map] at hmap
    exact hmap
  have hnodup : (db.outbox.rows.map OutboxRow.runId).Nodup := hruns ▸ db.run.nodup
  refine ⟨o, filter_eq_singleton hnodup.of_map ho (decide_eq_true hrun) ?_, he⟩
  intro b hb hpb
  exact List.inj_on_of_nodup_map hnodup hb ho ((of_decide_eq_true hpb).trans hrun.symm)

theorem AdmissionInv.outbox_of_run {s : AdmissionState} (h : AdmissionInv s) {r : RunRow}
    (hr : r ∈ s.relay.db.run.rows) :
    ∃ o, s.relay.db.outbox.rows.filter (fun o => o.runId = r.id) = [o] ∧
      OutboxRow.intent o = (RunRow.admitted r).intent :=
  outbox_of_intents (h.intents.trans List.map_map) hr

theorem AdmissionInv.run_of_outbox {s : AdmissionState} (h : AdmissionInv s) {o : OutboxRow}
    (ho : o ∈ s.relay.db.outbox.rows) :
    ∃ r ∈ s.relay.db.run.rows, OutboxRow.intent o = (RunRow.admitted r).intent := by
  have hintent : OutboxRow.intent o ∈ s.committed.map Admitted.intent := by
    rw [← h.intents]
    exact List.mem_map_of_mem ho
  obtain ⟨f, hf, he⟩ := List.mem_map.mp hintent
  obtain ⟨r, hr, rfl⟩ := List.mem_map.mp hf
  exact ⟨r, hr, he.symm⟩

/-- Two committed runs of one tenant under one key are the same run. -/
theorem AdmissionInv.committed_unique {s : AdmissionState} (h : AdmissionInv s) {f g : Admitted}
    (hf : f ∈ s.committed) (hg : g ∈ s.committed) (ht : f.tenantId = g.tenantId)
    (hk : f.key = g.key) (hnone : f.key ≠ none) : f = g :=
  List.inj_on_of_nodup_map h.nodup_ids hf hg
    (h.keys f (List.mem_append_left _ hf) g (List.mem_append_left _ hg) ht hk hnone)

/-- The calls of committed transactions for one tenant and key. -/
def callersOf (s : AdmissionState) (tenantId : Uuid) (key : String) : List Caller :=
  s.callers.filter (fun c => c.tenantId = tenantId ∧ c.key = some key)

/-- A claim made for this tenant and key. -/
def Claim.isFor (tenantId : Uuid) (key : String) (x : Claim) : Bool :=
  decide (x.1 = tenantId ∧ x.2.1 = some key)

/-- As many of these calls were told created=True as there are runs under the key. -/
theorem AdmissionInv.created_length {s : AdmissionState} (h : AdmissionInv s) (tenantId : Uuid)
    (key : String) :
    ((callersOf s tenantId key).filter Caller.created).length =
      (s.committed.filter (fun f => Claim.isFor tenantId key f.claim)).length := by
  have hperm := (h.callersCreated.filter (Claim.isFor tenantId key)).length_eq
  rw [List.filter_map, List.filter_map, List.length_map, List.length_map, List.filter_filter]
    at hperm
  rw [callersOf, List.filter_filter]
  refine Eq.trans (congrArg List.length (List.filter_congr ?_)) hperm
  intro c _
  exact Bool.and_comm _ _

theorem AdmissionInv.one_created {s : AdmissionState} (h : AdmissionInv s) {tenantId : Uuid}
    {key : String} (hsome : callersOf s tenantId key ≠ []) :
    ((callersOf s tenantId key).filter Caller.created).length = 1 ∧
      ∃ runId, ∀ c ∈ callersOf s tenantId key, c.runId = runId := by
  have hof : ∀ c ∈ callersOf s tenantId key, ∃ f ∈ s.committed,
      f.tenantId = tenantId ∧ f.key = some key ∧ f.id = c.runId := by
    intro c hc
    obtain ⟨hmem, hp⟩ := List.mem_filter.mp hc
    obtain ⟨ht, hk⟩ := of_decide_eq_true hp
    obtain ⟨f, hf, he⟩ := h.callersFound c hmem
    have hid := congrArg (fun x : Claim => x.2.2) he
    exact ⟨f, hf, (congrArg Prod.fst he).trans ht,
      (congrArg (fun x : Claim => x.2.1) he).trans hk, hid⟩
  obtain ⟨c, hc⟩ := List.exists_mem_of_ne_nil _ hsome
  obtain ⟨f, hf, ht, hk, -⟩ := hof c hc
  have honly : ∀ g ∈ s.committed, g.tenantId = tenantId → g.key = some key → g = f := by
    intro g hg htg hkg
    exact h.committed_unique hg hf (htg.trans ht.symm) (hkg.trans hk.symm) (by simp [hkg])
  constructor
  · rw [h.created_length tenantId key,
      filter_eq_singleton h.nodup_ids.of_map hf (decide_eq_true ⟨ht, hk⟩) ?_]
    · rfl
    · intro g hg hp
      obtain ⟨htg, hkg⟩ := of_decide_eq_true hp
      exact honly g hg htg hkg
  · refine ⟨f.id, ?_⟩
    intro d hd
    obtain ⟨g, hg, htg, hkg, hid⟩ := hof d hd
    rw [← hid, honly g hg htg hkg]

/-- A row is published exactly when a pass that committed had a `publish` of it return. -/
theorem AdmissionInv.published_iff {s : AdmissionState} (h : AdmissionInv s) {o : OutboxRow}
    (ho : o ∈ s.relay.db.outbox.rows) :
    o.publishedAt ≠ none ↔ ∃ k, s.relay.passes k = .committed ∧
      ⟨k, o.id, true⟩ ∈ s.relay.publishes := by
  have hpub : publishedIn s.relay.db o.id ↔ o.publishedAt ≠ none := by
    constructor
    · rintro ⟨o', ho', hid, hset⟩
      rw [Table.eq_of_key ho' ho hid] at hset
      exact hset
    · intro hset
      exact ⟨o, ho, rfl, hset⟩
  rw [← hpub, h.relay.published o.id]
  refine or_iff_right ?_
  rintro ⟨o', ho', -⟩
  exact Table.mem_empty ho'

/-- No intent is lost and none is invented. -/
structure OutboxContract (s : AdmissionState) : Prop where
  oneRunPerKey : ∀ a ∈ s.relay.db.run.rows, ∀ b ∈ s.relay.db.run.rows,
    a.tenantId = b.tenantId → a.idempotencyKey = b.idempotencyKey → a.idempotencyKey ≠ none → a = b
  oneIntentPerRun : ∀ r ∈ s.relay.db.run.rows,
    ∃ o, s.relay.db.outbox.rows.filter (fun o => o.runId = r.id) = [o] ∧
      o.tenantId = r.tenantId ∧ o.runId = r.id ∧ o.workload = r.workload ∧ o.payload = r.input
  noneInvented : ∀ o ∈ s.relay.db.outbox.rows, ∃ r ∈ s.relay.db.run.rows,
    o.tenantId = r.tenantId ∧ o.runId = r.id ∧ o.workload = r.workload ∧ o.payload = r.input
  oneCreator : ∀ tenantId key, callersOf s tenantId key ≠ [] →
    ((callersOf s tenantId key).filter Caller.created).length = 1 ∧
      ∃ runId, ∀ c ∈ callersOf s tenantId key, c.runId = runId
  publishedReturned : ∀ o ∈ s.relay.db.outbox.rows, o.publishedAt ≠ none →
    ∃ k, s.relay.passes k = .committed ∧ ⟨k, o.id, true⟩ ∈ s.relay.publishes
  failedRemains : ∀ o ∈ s.relay.db.outbox.rows,
    (∀ k, ⟨k, o.id, true⟩ ∈ s.relay.publishes → s.relay.passes k ≠ .committed) →
    o.publishedAt = none ∧ ∃ place, ∀ limit, place < limit →
    o.id ∈ candidates s.relay.db.outbox limit

/-- Every interleaving of admissions, rollbacks, drain passes, failed publishes and
relay crashes leaves the committed tables in order. -/
theorem transactional_outbox {acts : List AdmissionAct} {s : AdmissionState}
    (h : Reaches admissionStep AdmissionState.initial acts s) : OutboxContract s := by
  have hinv := admissionInv_reaches h
  refine ⟨?_, ?_, ?_, fun _ _ => hinv.one_created, fun o ho => (hinv.published_iff ho).mp, ?_⟩
  · intro a ha b hb ht hk hnone
    have he := hinv.committed_unique (List.mem_map_of_mem ha) (List.mem_map_of_mem hb) ht hk hnone
    exact Table.eq_of_key ha hb (congrArg Admitted.id he)
  · intro r hr
    obtain ⟨o, hfilter, he⟩ := hinv.outbox_of_run hr
    simp only [OutboxRow.intent, Admitted.intent, RunRow.admitted, Prod.mk.injEq] at he
    exact ⟨o, hfilter, he⟩
  · intro o ho
    obtain ⟨r, hr, he⟩ := hinv.run_of_outbox ho
    simp only [OutboxRow.intent, Admitted.intent, RunRow.admitted, Prod.mk.injEq] at he
    exact ⟨r, hr, he⟩
  · intro o ho hfailed
    have hnone : o.publishedAt = none := by
      by_contra hset
      obtain ⟨k, hk, hcall⟩ := (hinv.published_iff ho).mp hset
      exact hfailed k hcall hk
    exact ⟨hnone, unpublished_is_candidate ho hnone⟩

/-- The same request under an idempotency key. -/
def keyedRequest : EnqueueRequest := { sampleRequest with idempotencyKey := some "order-17" }

/-- Two transactions race on one key and a third inserts under it and is rolled back;
one pass sees `publish` raise, the next one returns. -/
def racingAdmissions : List AdmissionAct :=
  [.openTxn 0 0, .select 0 keyedRequest, .insertRun 0 "r1" 10, .rollback 0,
    .openTxn 1 1, .openTxn 2 1, .select 1 keyedRequest, .select 2 keyedRequest,
    .insertRun 1 "r1" 11, .insertOutbox 1 .emptyObj 1, .commit 1, .insertRun 2 "r1" 12, .commit 2,
    .relay (.begin 0 2 100), .relay (.lock 0),
    .relay (.publish 0 (some "broker down")), .relay (.commit 0),
    .relay (.begin 1 3 100), .relay (.lock 1), .relay (.publish 1 none), .relay (.commit 1)]

theorem racingAdmissions_run :
    (racingAdmissions.foldlM admissionStep AdmissionState.initial).isSome = true := by
  decide +kernel

/-- The result at that run: one run, one intent, one creator, published by the second pass. -/
theorem transactional_outbox_racingAdmissions :
    ∃ s, Reaches admissionStep AdmissionState.initial racingAdmissions s ∧ OutboxContract s ∧
      s.callers = [⟨1, some "order-17", 11, true⟩, ⟨1, some "order-17", 11, false⟩] ∧
      s.relay.db.outbox.rows.map OutboxRow.publishedAt = [some 3] :=
  ⟨_, reaches_get racingAdmissions_run, transactional_outbox (reaches_get racingAdmissions_run),
    by decide +kernel, by decide +kernel⟩

end AgenticPlatform.Correctness
