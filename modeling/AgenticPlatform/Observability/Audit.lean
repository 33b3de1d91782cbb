import AgenticPlatform.Db.Models
import AgenticPlatform.Foundation.HashChain
import AgenticPlatform.Foundation.JsonAscii
import AgenticPlatform.Foundation.Transition
import Mathlib.Data.List.Dedup
import Mathlib.Logic.Function.Basic

/-!
# The audit log

Events of every tenant in one table, chained per tenant, with the anchor that retention
keeps of what it deleted. Appends and retention passes run concurrently, statement by
statement. An append takes the advisory lock of its tenant, reads the hash it has to
name, and inserts; all of it belongs to a transaction that may have begun long before,
may append again, and may roll back. A retention pass computes its boundaries in one
query, then writes an anchor and deletes for each, and commits all of them together.
SHA-256 and the texts of instants and identifiers are parameters.
-/
namespace AgenticPlatform.Observability
open AgenticPlatform.Foundation AgenticPlatform.Identity AgenticPlatform.Db

/-! ## Events and digests -/

inductive Outcome where
  | allowed | denied | succeeded | failed
deriving DecidableEq

def Outcome.text : Outcome → String
  | .allowed => "allowed"
  | .denied => "denied"
  | .succeeded => "succeeded"
  | .failed => "failed"

structure AuditEnv where
  sha256 : String → String
  isoformat : Time → String
  uuidText : Uuid → String
  release : String

/-- The columns a digest covers, next to the link. -/
structure Payload where
  tenantId : Uuid
  actorSubject : String
  action : String
  resourceType : Option String
  resourceId : Option String
  outcome : Outcome
  detail : Json
  /-- The column `at`. -/
  recordedAt : Time
deriving DecidableEq

structure AuditRow extends Payload where
  id : Nat
  principalId : Option Uuid
  requestId : Option Uuid
  runId : Option Uuid
  release : Option String
  prevHash : Option String
  hash : String
deriving DecidableEq

def jsonOfOption : Option String → Json
  | none => .null
  | some text => .str text

def payloadJson (env : AuditEnv) (p : Payload) (prevHash : Option String) : Json :=
  .obj [("tenant_id", .str (env.uuidText p.tenantId)), ("actor_subject", .str p.actorSubject),
    ("action", .str p.action), ("resource_type", jsonOfOption p.resourceType),
    ("resource_id", jsonOfOption p.resourceId),
    ("outcome", .str p.outcome.text), ("detail", p.detail),
    ("at", .str (env.isoformat p.recordedAt)), ("prev_hash", jsonOfOption prevHash)]

def digest (env : AuditEnv) (p : Payload) (prevHash : Option String) : String :=
  env.sha256 (payloadJson env p prevHash).dumpsAscii

/-! ## Verification -/

structure Anchor where
  throughEventId : Nat
  throughHash : String
  eventsAnchored : Nat
deriving DecidableEq

/-- WHERE tenant_id = :t ORDER BY id. -/
def auditRows (events : List AuditRow) (tenant : Uuid) : List AuditRow :=
  (events.filter (fun e => e.tenantId = tenant)).insertionSort (fun a b => a.id ≤ b.id)

/-- `repr` of a hash or of `None`. -/
def hashRepr : Option String → String
  | none => "None"
  | some hash => "'" ++ hash ++ "'"

/-- The loop of `verify_chain`: the first row that breaks the chain, and why. -/
def firstBreak (env : AuditEnv) (anchorId : Option Nat) :
    Option String → List AuditRow → Option (Nat × String)
  | _, [] => none
  | expected, row :: rows =>
    if anchorId.any (fun a => row.id ≤ a) then
      some (row.id, "event " ++ toString row.id ++ " is at or before retention anchor " ++
        toString (anchorId.getD 0))
    else if row.prevHash ≠ expected then
      some (row.id, "event " ++ toString row.id ++ " claims predecessor " ++
        hashRepr row.prevHash ++ " but the previous event hashed to " ++ hashRepr expected ++
        " — a row was inserted, removed or reordered")
    else if digest env row.toPayload row.prevHash ≠ row.hash then
      some (row.id, "event " ++ toString row.id ++
        " content does not match its stored digest — the row was altered after it was written")
    else firstBreak env anchorId (some row.hash) rows

structure ChainVerification where
  eventsChecked : Nat
  intact : Bool
  firstBreakId : Option Nat
  reason : Option String
  anchorEventId : Option Nat
  eventsAnchored : Nat
deriving DecidableEq

def verifyChain (env : AuditEnv) (anchor : Option Anchor) (rows : List AuditRow) :
    ChainVerification :=
  let broken :=
    firstBreak env (anchor.map Anchor.throughEventId) (anchor.map Anchor.throughHash) rows
  { eventsChecked := rows.length
    intact := broken.isNone
    firstBreakId := broken.map Prod.fst
    reason := broken.map Prod.snd
    anchorEventId := anchor.map Anchor.throughEventId
    eventsAnchored := (anchor.map Anchor.eventsAnchored).getD 0 }

/-! ## Appending -/

structure AppendRequest where
  principalId : Uuid
  actorSubject : String
  action : String
  resourceType : Option String
  resourceId : Option String
  outcome : Outcome
  detail : Option Json
  requestId : Option Uuid
  runId : Option Uuid

/-- The hash a new event has to name. -/
def lastHash (events : List AuditRow) (anchor : Option Anchor) (tenant : Uuid) : Option String :=
  ((auditRows events tenant).getLast?.map AuditRow.hash).or (anchor.map Anchor.throughHash)

def newEvent (env : AuditEnv) (tenant : Uuid) (now : Time) (id : Nat) (prevHash : Option String)
    (q : AppendRequest) : AuditRow :=
  let p : Payload :=
    { tenantId := tenant
      actorSubject := q.actorSubject
      action := q.action
      resourceType := q.resourceType
      resourceId := q.resourceId
      outcome := q.outcome
      detail := q.detail.getD .emptyObj
      recordedAt := now }
  { p with
    id := id
    principalId := some q.principalId
    requestId := q.requestId
    runId := q.runId
    release := some env.release
    prevHash := prevHash
    hash := digest env p prevHash }

/-! ## Retention -/

/-- One row of the loop query, with the ids of the candidates it counted. -/
structure Boundary where
  tenantId : Uuid
  id : Nat
  hash : String
  counted : List Nat
deriving DecidableEq

def Boundary.pos (b : Boundary) : Nat := b.counted.length

/-- The candidates of a tenant: the oldest ids among the events before the cutoff. -/
def candidates (events : List AuditRow) (cutoff : Time) (batch : Nat) (tenant : Uuid) :
    List AuditRow :=
  ((auditRows events tenant).filter (fun e => e.recordedAt < cutoff)).take batch

def boundary (events : List AuditRow) (cutoff : Time) (batch : Nat) (tenant : Uuid) :
    Option Boundary :=
  let counted := candidates events cutoff batch tenant
  counted.getLast?.map (fun e => ⟨tenant, e.id, e.hash, counted.map AuditRow.id⟩)

/-- The loop query. -/
def boundaries (events : List AuditRow) (cutoff : Time) (batch : Nat) : List Boundary :=
  ((events.map (fun e => e.tenantId)).dedup.insertionSort (fun a b => a ≤ b)).filterMap
    (boundary events cutoff batch)

/-- INSERT … ON CONFLICT DO UPDATE. -/
def upsertAnchor (old : Option Anchor) (b : Boundary) : Anchor :=
  ⟨b.id, b.hash, (old.map Anchor.eventsAnchored).getD 0 + b.pos⟩

/-- The ids DELETE … WHERE tenant_id = :t AND id <= :boundary removes. -/
def deletable (events : List AuditRow) (b : Boundary) : List Nat :=
  (events.filter (fun e => e.tenantId = b.tenantId ∧ e.id ≤ b.id)).map AuditRow.id

/-! ## Transactions -/

inductive AppendTxn where
  | unused
  | active (tenant : Uuid) (now : Time) (pending : List AuditRow) (prev : Option (Option String))
  | ended

/-- A pass: the boundaries it has still to write, and those it has written, each with the
ids it deleted. -/
inductive Pass where
  | unused
  | looping (todo : List Boundary) (done : List (Boundary × List Nat))
  | ended (removed : Option Nat)

structure AuditState where
  events : List AuditRow
  anchors : Uuid → Option Anchor
  /-- The next value of the identity column. -/
  nextId : Nat
  /-- The transaction that holds the advisory lock of a tenant. -/
  locks : Uuid → Option Nat
  txns : Nat → AppendTxn
  passes : Nat → Pass
  /-- The pass that has written the anchor of a tenant and not yet committed. -/
  anchorLocks : Uuid → Option Nat
  /-- The passes under way. -/
  running : List Nat
  /-- How many events of a tenant retention has deleted. -/
  deleted : Uuid → Nat

def AuditState.initial : AuditState where
  events := []
  anchors := fun _ => none
  nextId := 1
  locks := fun _ => none
  txns := fun _ => .unused
  passes := fun _ => .unused
  anchorLocks := fun _ => none
  running := []
  deleted := fun _ => 0

inductive AuditAct where
  | begin (n : Nat) (tenant : Uuid) (now : Time)
  | lock (n : Nat)
  | readPrev (n : Nat)
  | insert (n : Nat) (q : AppendRequest)
  | commit (n : Nat)
  | rollback (n : Nat)
  | startPass (p : Nat) (cutoff : Time) (batch : Nat)
  | anchor (p : Nat)
  | commitPass (p : Nat)
  | abortPass (p : Nat)

/-- A transaction ends and gives its lock back. -/
def AuditState.endTxn (s : AuditState) (n : Nat) : AuditState :=
  { s with
    txns := Function.update s.txns n .ended
    locks := fun tenant => (s.locks tenant).filter (fun m => m ≠ n) }

/-- A pass ends and gives its locks back. -/
def AuditState.endPass (s : AuditState) (p : Nat) (removed : Option Nat) : AuditState :=
  { s with
    passes := Function.update s.passes p (.ended removed)
    anchorLocks := fun tenant => (s.anchorLocks tenant).filter (fun q => q ≠ p)
    running := s.running.filter (fun q => q ≠ p) }

/-- What the commit of a pass makes of one boundary. -/
def AuditState.applyBoundary (s : AuditState) (d : Boundary × List Nat) : AuditState :=
  { s with
    events := s.events.filter (fun e => ¬ (e.tenantId = d.1.tenantId ∧ e.id ∈ d.2))
    anchors := Function.update s.anchors d.1.tenantId
      (some (upsertAnchor (s.anchors d.1.tenantId) d.1))
    deleted := Function.update s.deleted d.1.tenantId (s.deleted d.1.tenantId + d.2.length) }

def auditStep (env : AuditEnv) (s : AuditState) : AuditAct → Option AuditState
  | .begin n tenant now =>
    match s.txns n with
    | .unused => some { s with txns := Function.update s.txns n (.active tenant now [] none) }
    | _ => none
  | .lock n =>
    match s.txns n with
    | .active tenant _ _ _ =>
      if s.locks tenant = none ∨ s.locks tenant = some n then
        some { s with locks := Function.update s.locks tenant (some n) }
      else none
    | _ => none
  | .readPrev n =>
    match s.txns n with
    | .active tenant now pending _ =>
      if s.locks tenant = some n then
        some { s with
          txns := Function.update s.txns n (.active tenant now pending
            (some (lastHash (s.events ++ pending) (s.anchors tenant) tenant))) }
      else none
    | _ => none
  | .insert n q =>
    match s.txns n with
    | .active tenant now pending (some prev) =>
      some { s with
        nextId := s.nextId + 1
        txns := Function.update s.txns n
          (.active tenant now (pending ++ [newEvent env tenant now s.nextId prev q]) none) }
    | _ => none
  | .commit n =>
    match s.txns n with
    | .active _ _ pending _ => some { s.endTxn n with events := s.events ++ pending }
    | _ => none
  | .rollback n =>
    match s.txns n with
    | .active _ _ _ _ => some (s.endTxn n)
    | _ => none
  | .startPass p cutoff batch =>
    match s.passes p with
    | .unused =>
      if 1 ≤ batch ∧ batch ≤ 1000 then
        some { s with
          passes := Function.update s.passes p (.looping (boundaries s.events cutoff batch) [])
          running := p :: s.running }
      else some { s with passes := Function.update s.passes p (.ended none) }
    | _ => none
  | .anchor p =>
    match s.passes p with
    | .looping (b :: todo) done =>
      -- the upsert waits for another pass that has written this anchor
      if s.anchorLocks b.tenantId = none then
        some { s with
          passes := Function.update s.passes p (.looping todo (done ++ [(b, deletable s.events b)]))
          anchorLocks := Function.update s.anchorLocks b.tenantId (some p) }
      else none
    | _ => none
  | .commitPass p =>
    match s.passes p with
    | .looping [] done =>
      some ((done.foldl AuditState.applyBoundary s).endPass p
        (some (done.map (fun d => d.2.length)).sum))
    | _ => none
  | .abortPass p =>
    match s.passes p with
    | .looping _ _ => some (s.endPass p none)
    | _ => none

end AgenticPlatform.Observability
