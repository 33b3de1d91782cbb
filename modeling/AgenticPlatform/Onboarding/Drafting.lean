import AgenticPlatform.Correctness.LeaseSystem
import AgenticPlatform.Onboarding.Transactions

/-!
# Drafting runs

A request to draft a taxonomy inserts a session and admits a run in one transaction. A
worker that leases the run executes it: the handler drafts, and what it returns or raises
decides how the worker ends its lease. Requests, users and workers interleave with the
reaper and with the workers of other runs. The values of `uuid4`, the documents, and what
the drafting agent does are arguments of the steps.
-/
namespace AgenticPlatform.Onboarding
open AgenticPlatform.Foundation AgenticPlatform.Identity AgenticPlatform.Db
  AgenticPlatform.Correctness

structure DraftingEnv extends OnboardingEnv where
  uuidText : Uuid → String
  parseUuid : String → Option Uuid
  tenant : Tenant
  retry : RetrySettings

/-- An identifier is read back from its text. -/
def DraftingEnv.Faithful (env : DraftingEnv) : Prop :=
  ∀ id, env.parseUuid (env.uuidText id) = some id

/-! ## The request -/

def domainStart (c : Char) : Bool := c.isDigit || c.isLower

/-- The pattern and the bounds of a domain; such a name is stripped and in lower case. -/
def isDomain (name : String) : Bool :=
  match name.toList with
  | [] => false
  | c :: cs => domainStart c && cs.all (fun c => domainStart c || c = '_' || c = '-') &&
    cs.length < 64

structure SessionCreate where
  domain : String
  collection : String
  sample : Number
  domain_valid : isDomain domain = true
  collection_valid : collection.toList.length ≤ 128
  sample_valid : ∃ n : Nat, 1 ≤ n ∧ n ≤ 1000 ∧ sample.text = n.repr

def workload : String := "onboarding"

def draftPayload (env : DraftingEnv) (sessionId : Uuid) (q : SessionCreate) : Json :=
  .obj [("session_id", .str (env.uuidText sessionId)), ("domain", .str q.domain),
    ("collection", .str q.collection), ("sample", .num q.sample)]

/-- The arguments of `enqueue_run`. -/
def draftRequest (env : DraftingEnv) (ctx : RequestContext) (sessionId : Uuid) (q : SessionCreate) :
    EnqueueRequest where
  ctx := ctx
  workload := workload
  payload := draftPayload env sessionId q
  idempotencyKey :=
    orText ctx.idempotencyKey (some ("onboard:" ++ q.domain ++ ":" ++ env.uuidText sessionId))
  maxAttempts := 3

/-- `uuid.UUID(str(payload["session_id"]))`. -/
def sessionIdOf (env : DraftingEnv) : Json → Option Uuid
  | .obj fields =>
    match fieldOf fields "session_id" with
    | none => none
    | some (.str text) => env.parseUuid text
    | some value => env.parseUuid (env.valueText value)
  | _ => none

/-- A draft of the domain is running. -/
def OnboardingDb.drafts (db : OnboardingDb) (domain : String) : Prop :=
  ∃ r ∈ db.sessions.rows, r.domain = domain ∧ r.status = .drafting

instance (db : OnboardingDb) (domain : String) : Decidable (db.drafts domain) :=
  inferInstanceAs (Decidable (∃ r ∈ db.sessions.rows, _))

def withRun (runId : Uuid) (r : SessionRow) : SessionRow := { r with runId := some runId }

/-! ## Executions -/

inductive FailureKind where
  | cancelled | needsReconciliation | transient (retryAfter : Option Time) | other
deriving DecidableEq

/-- An exception: what `except` clauses see of it. -/
structure Raised where
  kind : FailureKind
  typeName : String
  text : String
deriving DecidableEq

def Raised.described (e : Raised) : String := e.typeName ++ ": " ++ e.text

/-- Where an execution of an onboarding run stands. -/
inductive ExecPhase where
  | leased
  /-- The session was found drafting. -/
  | drafting (sessionId : Uuid)
  /-- In the `try` block of the handler. -/
  | trying (sessionId : Uuid)
  /-- The handler has marked the session failed and raises the exception again. -/
  | failing (sessionId : Uuid) (e : Raised)
  | raised (e : Raised)
  | returned (result : Json)

/-- How `_execute_leased_body` ends the lease after an exception. -/
def Raised.call (e : Raised) (u : Draw) : HolderCall :=
  match e.kind with
  | .cancelled => .acknowledgeCancellation
  | .needsReconciliation => .fail e.text false none u
  | .transient retryAfter => .fail e.text true retryAfter u
  | .other => .fail e.described false none u

def ExecPhase.call (u : Draw) : ExecPhase → Option HolderCall
  | .failing _ e | .raised e => some (e.call u)
  | .returned result => some (.complete (some result))
  | .leased | .drafting _ | .trying _ => none

structure Execution where
  lease : LeasedRun
  phase : ExecPhase

/-- A worker executes one run at a time. -/
def Execution.worker (x : Execution) : String := x.lease.leasedBy

def SessionStatus.text : SessionStatus → String
  | .drafting => "drafting"
  | .draftReady => "draft_ready"
  | .approved => "approved"
  | .published => "published"
  | .failed => "failed"
  | .cancelled => "cancelled"

def sessionGone : Json := .obj [("outcome", .str "session_gone")]

def alreadyDone (status : SessionStatus) : Json :=
  .obj [("outcome", .str "already_done"), ("status", .str status.text)]

def emptyCorpus : Json := .obj [("outcome", .str "empty_corpus")]

def draftReady (stats : List (String × Json)) : Json :=
  .obj (("outcome", .str "draft_ready") :: stats)

/-! ## What users do with a session -/

inductive Decision where
  | cancel
  | approve (by_ : Uuid)
  | publish

def Decision.applies : Decision → SessionRow → Prop
  | .cancel, r => cancellable r
  | .approve _, r => r.status = .draftReady
  | .publish, r => r.status = .approved

instance : (d : Decision) → DecidablePred d.applies
  | .cancel => inferInstanceAs (DecidablePred cancellable)
  | .approve _ => fun _ => inferInstanceAs (Decidable (_ = _))
  | .publish => fun _ => inferInstanceAs (Decidable (_ = _))

def Decision.apply (now : Time) : Decision → SessionRow → SessionRow
  | .cancel, r => asCancelled now r
  | .approve by_, r => (asApproved by_ now r).getD r
  | .publish, r => asPublished now r

theorem Decision.apply_id (now : Time) (d : Decision) (r : SessionRow) :
    (d.apply now r).id = r.id := by
  cases d with
  | cancel => rfl
  | approve by_ =>
    cases h : asApproved by_ now r with
    | none => simp [Decision.apply, h]
    | some r' => simpa [Decision.apply, h] using (asApproved_eq_some h).1
  | publish => rfl

/-- A publication demotes what was published before. -/
def OnboardingDb.demoted (db : OnboardingDb) (id : Uuid) (now : Time) : Decision → SessionTable
  | .publish =>
    match (db.sessions.get id).filter (fun r => r.status = .approved) with
    | some r => db.sessions.updateWhere (fun r' => r'.domain = r.domain ∧ r'.status = .published)
      (asDemoted now) (fun _ => rfl)
    | none => db.sessions
  | .cancel | .approve _ => db.sessions

def OnboardingDb.decide (db : OnboardingDb) (id : Uuid) (now : Time) (d : Decision) :
    OnboardingDb :=
  { db with
    sessions := (db.demoted id now d).updateWhere (fun r => r.id = id ∧ d.applies r) (d.apply now)
      (d.apply_id now) }

/-! ## The system -/

/-- What became of a session. -/
inductive DraftEvent where
  | ready (runId sessionId : Uuid)
  | emptied (runId sessionId : Uuid)
  | moved (sessionId : Uuid)
deriving DecidableEq

structure DraftingState where
  db : OnboardingDb
  store : Correctness.Store
  execs : Table Execution Execution.worker
  journal : List DraftEvent

def DraftingState.initial : DraftingState := ⟨.empty, .empty, Table.empty, []⟩

inductive DraftingAct where
  | start (ctx : RequestContext) (q : SessionCreate) (newId : Uuid) (now : Time) (release : String)
    (trace : Json) (runId : Uuid) (outboxId : Nat)
  | decide (id : Uuid) (now : Time) (d : Decision)
  /-- A relay, a reaper, a client that cancels, a heartbeat, or a worker of another workload. -/
  | work (now : Time) (op : LeaseOp)
  | acquire (now : Time) (op : LeaseOp)
  /-- The handler reads the session. -/
  | enter (worker : String)
  | raise (worker : String) (e : Raised)
  | empty (worker : String) (error : String) (now : Time)
  | progress (worker : String) (entry : Json) (now : Time)
  | except (worker : String) (e : Raised) (now : Time)
  | ready (worker : String) (stats : List (String × Json)) (now : Time)
  /-- The worker ends its lease. -/
  | settle (worker : String) (now : Time) (u : Draw)
  | crash (worker : String)

/-- Operations that are no part of an execution of an onboarding run. -/
def outside (run : RunTable) : LeaseOp → Prop
  | .enqueueRun _ _ q _ _ => q.workload ≠ workload
  | .acquire .. | .acquireSpecific .. => False
  | .call _ (.heartbeat _) => True
  | .call l _ => ∀ r ∈ run.rows, r.id = l.runId → r.workload ≠ workload
  | .reapExpired .. | .cancelRun .. => True

instance (run : RunTable) : DecidablePred (outside run)
  | .enqueueRun _ _ q _ _ => inferInstanceAs (Decidable (q.workload ≠ workload))
  | .acquire .. | .acquireSpecific .. => isFalse nofun
  | .call _ (.heartbeat _) | .reapExpired .. | .cancelRun .. => isTrue trivial
  | .call l (.complete _) | .call l (.fail ..) | .call l .acknowledgeCancellation =>
    inferInstanceAs (Decidable (∀ r ∈ run.rows, r.id = l.runId → r.workload ≠ workload))

def acquirer : LeaseOp → Option String
  | .acquire _ worker _ _ _ => some worker
  | .acquireSpecific _ _ worker _ => some worker
  | .enqueueRun .. | .call .. | .reapExpired .. | .cancelRun .. => none

/-- The identifier names nothing yet. -/
def DraftingState.unused (env : DraftingEnv) (s : DraftingState) (id : Uuid) : Prop :=
  id ∉ s.db.sessions.keys ∧ ∀ r ∈ s.store.run.rows, sessionIdOf env r.input ≠ some id

instance (env : DraftingEnv) (s : DraftingState) (id : Uuid) : Decidable (s.unused env id) :=
  inferInstanceAs (Decidable (_ ∧ _))

/-- `cancellation_point` raises. -/
def DraftingState.cancelSeen (s : DraftingState) (l : LeasedRun) : Prop :=
  ∃ r ∈ s.store.run.rows, r.id = l.runId ∧ (r.status = .cancelled ∨ r.cancelRequestedAt ≠ none)

instance (s : DraftingState) (l : LeasedRun) : Decidable (s.cancelSeen l) :=
  inferInstanceAs (Decidable (∃ r ∈ s.store.run.rows, _))

def DraftingState.moveTo (s : DraftingState) (worker : String) (phase : ExecPhase) :
    DraftingState :=
  { s with
    execs := s.execs.updateWhere (fun x => x.worker = worker) (fun x => { x with phase := phase })
      (fun _ => rfl) }

def DraftingState.without (s : DraftingState) (worker : String) :
    Table Execution Execution.worker :=
  s.execs.deleteWhere (fun x => x.worker = worker)

/-- The transaction of `start_session`; a running draft of the domain is a conflict. -/
def startSession (env : DraftingEnv) (s : DraftingState) (ctx : RequestContext) (q : SessionCreate)
    (newId : Uuid) (now : Time) (release : String) (trace : Json) (runId : Uuid) (outboxId : Nat) :
    Option DraftingState :=
  if s.db.drafts q.domain then some s
  else do
    let sessions ← s.db.sessions.tryInsert
      (newSession newId q.domain q.collection none ctx.principal.id now)
    let (store, id, _) ← enqueueRun s.store now release trace (draftRequest env ctx newId q)
      runId outboxId
    some
      { s with
        db := { s.db with
          sessions := sessions.updateWhere (fun r => r.id = newId) (withRun id) (fun _ => rfl) }
        store := store }

/-- A lease on an onboarding run starts an execution. -/
def DraftingState.leased (s : DraftingState) (store : Correctness.Store) :
    LeaseEvent → Option DraftingState
  | .acquired l =>
    if l.workload = workload then
      (s.execs.tryInsert ⟨l, .leased⟩).map (fun execs => { s with store := store, execs := execs })
    else some { s with store := store }
  | _ => some { s with store := store }

def draftingStep (env : DraftingEnv) (s : DraftingState) : DraftingAct → Option DraftingState
  | .start ctx q newId now release trace runId outboxId =>
    if ctx.tenant = env.tenant ∧ s.unused env newId then
      startSession env s ctx q newId now release trace runId outboxId
    else none
  | .decide id now d =>
    some
      { s with
        db := s.db.decide id now d
        journal := if ∃ r ∈ s.db.sessions.rows, r.id = id ∧
          d.applies r then .moved id :: s.journal else s.journal }
  | .work now op =>
    if outside s.store.run op then (exec env.retry s.store now op).map
      (fun (store, _) => { s with store := store })
    else none
  | .acquire now op =>
    match acquirer op with
    | none => none
    | some worker =>
      if worker ∉ s.execs.keys then (exec env.retry s.store now op).bind
        (fun (store, e) => s.leased store e) else none
  | .enter worker =>
    match s.execs.get worker with
    | some ⟨l, .leased⟩ =>
      match sessionIdOf env l.input with
      | none => none
      | some sessionId =>
        match s.db.sessions.get sessionId with
        | none => some (s.moveTo worker (.returned sessionGone))
        | some r =>
          if r.status = .drafting then some (s.moveTo worker (.drafting sessionId))
          else some (s.moveTo worker (.returned (alreadyDone r.status)))
    | _ => none
  | .raise worker e =>
    match s.execs.get worker with
    | none => none
    | some x =>
      if e.kind = .cancelled → s.cancelSeen x.lease then
        match x.phase with
        | .failing _ _ | .raised _ => none
        | _ => some (s.moveTo worker (.raised e))
      else none
  | .empty worker error now =>
    match s.execs.get worker with
    | some ⟨l, .drafting sessionId⟩ =>
      some
        { s.moveTo worker (.returned emptyCorpus) with
          db := s.db.setStatus sessionId .failed (some error) none now
          journal := .emptied l.runId sessionId :: s.journal }
    | _ => none
  | .progress worker entry now =>
    match s.execs.get worker with
    | some ⟨_, .drafting sessionId⟩ | some ⟨_, .trying sessionId⟩ =>
      some { s.moveTo worker (.trying sessionId) with
        db := s.db.appendProgress sessionId entry now }
    | _ => none
  | .except worker e now =>
    match s.execs.get worker with
    | some ⟨l, .trying sessionId⟩ =>
      if e.kind = .cancelled → s.cancelSeen l then
        some
          { s.moveTo worker (.failing sessionId e) with
            db := s.db.setStatus sessionId .failed (some (clip 2000 e.described)) none now }
      else none
    | _ => none
  | .ready worker stats now =>
    match s.execs.get worker with
    | some ⟨l, .trying sessionId⟩ =>
      some
        { s.moveTo worker (.returned (draftReady stats)) with
          db := s.db.setStatus sessionId .draftReady none (some (.obj stats)) now
          journal := .ready l.runId sessionId :: s.journal }
    | _ => none
  | .settle worker now u =>
    match s.execs.get worker with
    | none => none
    | some x =>
      (x.phase.call u).bind fun call =>
        (exec env.retry s.store now (.call x.lease call)).map
          (fun (store, _) => { s with store := store, execs := s.without worker })
  | .crash worker => some { s with execs := s.without worker }

/-! ## What a step can do -/

section
variable {env : DraftingEnv} {s t : DraftingState} {a : DraftingAct}

/-- The session a new run is for. -/
theorem sessionIdOf_draftPayload (hf : env.Faithful) (id : Uuid) (q : SessionCreate) :
    sessionIdOf env (draftPayload env id q) = some id := hf id

/-- A request answered, or a conflict. -/
theorem startSession_eq_some {ctx : RequestContext} {q : SessionCreate} {newId : Uuid} {now : Time}
    {release : String} {trace : Json} {runId : Uuid} {outboxId : Nat}
    (h : startSession env s ctx q newId now release trace runId outboxId = some t) :
    (s.db.drafts q.domain ∧ t = s) ∨ ¬ s.db.drafts q.domain ∧ ∃ sessions store id created,
      enqueueRun s.store now release trace (draftRequest env ctx newId q) runId outboxId =
      some (store, id, created) ∧
      sessions.rows = s.db.sessions.rows ++
      [withRun id (newSession newId q.domain q.collection none ctx.principal.id now)] ∧
      t = { s with db := { s.db with sessions := sessions }, store := store } := by
  unfold startSession at h
  split at h
  · cases h
    exact Or.inl ⟨‹_›, rfl⟩
  · rename_i hdrafts
    obtain ⟨sessions, hinsert, h⟩ := Option.bind_eq_some_iff.mp h
    obtain ⟨⟨store, id, created⟩, henqueue, h⟩ := Option.bind_eq_some_iff.mp h
    cases h
    obtain ⟨hfresh, hrows⟩ := Table.tryInsert_eq_some hinsert
    refine Or.inr ⟨hdrafts, _, store, id, created, henqueue, ?_, rfl⟩
    -- the UPDATE of the run id finds the row just inserted
    have hothers : s.db.sessions.rows.map (Table.rewrite (fun r => r.id = newId) (withRun id)) =
        s.db.sessions.rows := by
      refine (List.map_congr_left ?_).trans (List.map_id' _)
      intro r hr
      refine if_neg ?_
      rintro rfl
      have hkey := Table.key_mem_keys hr
      exact hfresh hkey
    change sessions.rows.map (Table.rewrite (fun r => r.id = newId) (withRun id)) = _
    rw [hrows, List.map_append, hothers]
    exact congrArg (fun r => s.db.sessions.rows ++ [r]) (if_pos rfl)

theorem leased_eq_some {store : Correctness.Store} {e : LeaseEvent}
    (h : s.leased store e = some t) :
    ∃ execs, t = { s with store := store, execs := execs } ∧
      (execs = s.execs ∨ ∃ l, e = .acquired l ∧ l.workload = workload ∧
        execs.rows = s.execs.rows ++ [⟨l, .leased⟩]) := by
  cases e with
  | acquired l =>
    simp only [DraftingState.leased] at h
    split at h
    · obtain ⟨execs, hinsert, rfl⟩ := Option.map_eq_some_iff.mp h
      exact ⟨execs, rfl, Or.inr ⟨l, rfl, ‹_›, (Table.tryInsert_eq_some hinsert).2⟩⟩
    · cases h
      exact ⟨s.execs, rfl, Or.inl rfl⟩
  | admitted | notAvailable | answered | reaped | cancelled =>
    cases h
    exact ⟨s.execs, rfl, Or.inl rfl⟩

/-- What a step may do. -/
inductive DraftingMove (env : DraftingEnv) (s : DraftingState) : DraftingAct → DraftingState → Prop
  | conflict (ctx : RequestContext) (q : SessionCreate) (newId : Uuid) (now : Time)
    (release : String) (trace : Json) (runId : Uuid) (outboxId : Nat) :
    DraftingMove env s (.start ctx q newId now release trace runId outboxId) s
  | start (ctx : RequestContext) (q : SessionCreate) (newId : Uuid) (now : Time) (release : String)
    (trace : Json) (runId : Uuid) (outboxId : Nat) (sessions : SessionTable)
    (store : Correctness.Store) (id : Uuid) (created : Bool) (ht : ctx.tenant = env.tenant)
    (hunused : s.unused env newId) (hdrafts : ¬ s.db.drafts q.domain)
    (henqueue : enqueueRun s.store now release trace (draftRequest env ctx newId q) runId outboxId =
      some (store, id, created))
    (hrows : sessions.rows = s.db.sessions.rows ++
      [withRun id (newSession newId q.domain q.collection none ctx.principal.id now)]) :
    DraftingMove env s (.start ctx q newId now release trace runId outboxId)
      { s with db := { s.db with sessions := sessions }, store := store }
  | decide (id : Uuid) (now : Time) (d : Decision) :
    DraftingMove env s (.decide id now d)
      { s with
        db := s.db.decide id now d
        journal := if ∃ r ∈ s.db.sessions.rows, r.id = id ∧
          d.applies r then .moved id :: s.journal else s.journal }
  | work (now : Time) (op : LeaseOp) (store : Correctness.Store) (e : LeaseEvent)
    (hout : outside s.store.run op) (hexec : exec env.retry s.store now op = some (store, e)) :
    DraftingMove env s (.work now op) { s with store := store }
  | acquire (now : Time) (op : LeaseOp) (worker : String) (store : Correctness.Store)
    (e : LeaseEvent) (execs : Table Execution Execution.worker) (hop : acquirer op = some worker)
    (hfree : worker ∉ s.execs.keys) (hexec : exec env.retry s.store now op = some (store, e))
    (hexecs : execs = s.execs ∨ ∃ l, e = .acquired l ∧ l.workload = workload ∧
      execs.rows = s.execs.rows ++ [⟨l, .leased⟩]) :
    DraftingMove env s (.acquire now op) { s with store := store, execs := execs }
  | enter (x : Execution) (sessionId : Uuid) (phase : ExecPhase) (hx : x ∈ s.execs.rows)
    (hleased : x.phase = .leased) (hinput : sessionIdOf env x.lease.input = some sessionId)
    (hphase : (phase = .drafting sessionId ∧ s.db.statusOf sessionId = some .drafting) ∨
      ∃ result, phase = .returned result ∧ s.db.statusOf sessionId ≠ some .drafting) :
    DraftingMove env s (.enter x.worker) (s.moveTo x.worker phase)
  | raise (x : Execution) (e : Raised) (hx : x ∈ s.execs.rows)
    (hcancel : e.kind = .cancelled → s.cancelSeen x.lease)
    (hphase : ∀ id e, x.phase ≠ .failing id e) :
    DraftingMove env s (.raise x.worker e) (s.moveTo x.worker (.raised e))
  | empty (x : Execution) (sessionId : Uuid) (error : String) (now : Time) (hx : x ∈ s.execs.rows)
    (hphase : x.phase = .drafting sessionId) :
    DraftingMove env s (.empty x.worker error now)
      { s.moveTo x.worker (.returned emptyCorpus) with
        db := s.db.setStatus sessionId .failed (some error) none now
        journal := .emptied x.lease.runId sessionId :: s.journal }
  | progress (x : Execution) (sessionId : Uuid) (entry : Json) (now : Time) (hx : x ∈ s.execs.rows)
    (hphase : x.phase = .drafting sessionId ∨ x.phase = .trying sessionId) :
    DraftingMove env s (.progress x.worker entry now)
      { s.moveTo x.worker (.trying sessionId) with db := s.db.appendProgress sessionId entry now }
  | except (x : Execution) (sessionId : Uuid) (e : Raised) (now : Time) (hx : x ∈ s.execs.rows)
    (hphase : x.phase = .trying sessionId) (hcancel : e.kind = .cancelled → s.cancelSeen x.lease) :
    DraftingMove env s (.except x.worker e now)
      { s.moveTo x.worker (.failing sessionId e) with
        db := s.db.setStatus sessionId .failed (some (clip 2000 e.described)) none now }
  | ready (x : Execution) (sessionId : Uuid) (stats : List (String × Json)) (now : Time)
    (hx : x ∈ s.execs.rows) (hphase : x.phase = .trying sessionId) :
    DraftingMove env s (.ready x.worker stats now)
      { s.moveTo x.worker (.returned (draftReady stats)) with
        db := s.db.setStatus sessionId .draftReady none (some (.obj stats)) now
        journal := .ready x.lease.runId sessionId :: s.journal }
  | settle (x : Execution) (now : Time) (u : Draw) (call : HolderCall) (store : Correctness.Store)
    (e : LeaseEvent) (hx : x ∈ s.execs.rows) (hcall : x.phase.call u = some call)
    (hexec : exec env.retry s.store now (.call x.lease call) = some (store, e)) :
    DraftingMove env s (.settle x.worker now u)
      { s with store := store, execs := s.without x.worker }
  | crash (worker : String) :
    DraftingMove env s (.crash worker) { s with execs := s.without worker }

theorem draftingStep_move (h : draftingStep env s a = some t) : DraftingMove env s a t := by
  cases a with
  | start ctx q newId now release trace runId outboxId =>
    simp only [draftingStep] at h
    split at h
    · rename_i hguard
      rcases startSession_eq_some h with ⟨-, rfl⟩ |
        ⟨hdrafts, sessions, store, id, created, henqueue, hrows, rfl⟩
      · exact .conflict ctx q newId now release trace runId outboxId
      · exact .start ctx q newId now release trace runId outboxId sessions store id created hguard.1
          hguard.2 hdrafts henqueue hrows
    · cases h
  | decide id now d =>
    cases h
    exact .decide id now d
  | work now op =>
    simp only [draftingStep] at h
    split at h
    · obtain ⟨⟨store, e⟩, hexec, rfl⟩ := Option.map_eq_some_iff.mp h
      exact .work now op store e ‹_› hexec
    · cases h
  | acquire now op =>
    simp only [draftingStep] at h
    split at h
    · cases h
    · rename_i worker hop
      split at h
      · rename_i hfree
        obtain ⟨⟨store, e⟩, hexec, h⟩ := Option.bind_eq_some_iff.mp h
        obtain ⟨execs, rfl, hexecs⟩ := leased_eq_some h
        exact .acquire now op worker store e execs hop hfree hexec hexecs
      · cases h
  | enter worker =>
    simp only [draftingStep] at h
    split at h
    · rename_i l hget
      obtain ⟨hx, rfl⟩ := Table.get_eq_some.mp hget
      split at h
      · cases h
      · rename_i sessionId hinput
        split at h
        · rename_i hnone
          cases h
          refine .enter _ sessionId _ hx rfl hinput (Or.inr ⟨_, rfl, ?_⟩)
          simp [OnboardingDb.statusOf, hnone]
        · rename_i r hr
          split at h
          · rename_i hdrafting
            cases h
            refine .enter _ sessionId _ hx rfl hinput (Or.inl ⟨rfl, ?_⟩)
            simp [OnboardingDb.statusOf, hr, hdrafting]
          · rename_i hdrafting
            cases h
            refine .enter _ sessionId _ hx rfl hinput (Or.inr ⟨_, rfl, ?_⟩)
            simpa [OnboardingDb.statusOf, hr] using hdrafting
    · cases h
  | raise worker e =>
    simp only [draftingStep] at h
    split at h
    · cases h
    · rename_i x hget
      obtain ⟨hx, rfl⟩ := Table.get_eq_some.mp hget
      split at h
      · rename_i hcancel
        split at h
        · cases h
        · cases h
        · rename_i hfailing _
          cases h
          exact .raise x e hx hcancel hfailing
      · cases h
  | empty worker error now =>
    simp only [draftingStep] at h
    split at h
    · rename_i l sessionId hget
      obtain ⟨hx, rfl⟩ := Table.get_eq_some.mp hget
      cases h
      exact .empty _ sessionId error now hx rfl
    · cases h
  | progress worker entry now =>
    simp only [draftingStep] at h
    split at h
    · rename_i l sessionId hget
      obtain ⟨hx, rfl⟩ := Table.get_eq_some.mp hget
      cases h
      exact .progress _ sessionId entry now hx (Or.inl rfl)
    · rename_i l sessionId hget
      obtain ⟨hx, rfl⟩ := Table.get_eq_some.mp hget
      cases h
      exact .progress _ sessionId entry now hx (Or.inr rfl)
    · cases h
  | except worker e now =>
    simp only [draftingStep] at h
    split at h
    · rename_i l sessionId hget
      obtain ⟨hx, rfl⟩ := Table.get_eq_some.mp hget
      split at h
      · cases h
        exact .except _ sessionId e now hx rfl ‹_›
      · cases h
    · cases h
  | ready worker stats now =>
    simp only [draftingStep] at h
    split at h
    · rename_i l sessionId hget
      obtain ⟨hx, rfl⟩ := Table.get_eq_some.mp hget
      cases h
      exact .ready _ sessionId stats now hx rfl
    · cases h
  | settle worker now u =>
    simp only [draftingStep] at h
    split at h
    · cases h
    · rename_i x hget
      obtain ⟨hx, rfl⟩ := Table.get_eq_some.mp hget
      obtain ⟨call, hcall, h⟩ := Option.bind_eq_some_iff.mp h
      obtain ⟨⟨store, e⟩, hexec, rfl⟩ := Option.map_eq_some_iff.mp h
      exact .settle x now u call store e hx hcall hexec
  | crash worker =>
    cases h
    exact .crash worker

end

/-- Identifiers written in unary. -/
def unaryEnv : DraftingEnv where
  valueText := fun _ => ""
  uuidText := fun id => String.ofList (List.replicate id 'a')
  parseUuid := fun text => some text.toList.length
  tenant := sampleTenant
  retry := .default

def lowestDraw : Draw := ⟨0, zero_isDraw⟩

theorem unaryEnv_faithful : unaryEnv.Faithful := by
  intro id
  simp [unaryEnv]

end AgenticPlatform.Onboarding
