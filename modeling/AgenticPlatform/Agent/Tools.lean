import AgenticPlatform.Db.Models
import AgenticPlatform.Foundation.JsonText
import AgenticPlatform.Identity.Capabilities

/-!
# Governed tools: the registry, the checks and the statements

The parts of `invoke` that are one computation or one statement each. A tool
specification carries what its constructor checks, so that a write tool without an
approval gate cannot be built. The handler is not part of it: what a handler does is
an outcome the callers are given. SHA-256 and the tool settings are parameters.
-/
namespace AgenticPlatform.Agent
open AgenticPlatform.Foundation AgenticPlatform.Identity AgenticPlatform.Db

/-! ## Registry -/

inductive SideEffect where
  | none | write
deriving DecidableEq

/-- `[a-z][a-z0-9_.-]{1,127}`, the whole of the name. -/
def isToolName (name : String) : Bool :=
  let lower := fun c : Char => decide ('a' ≤ c ∧ c ≤ 'z')
  let other := fun c : Char => lower c || c.isDigit || c = '_' || c = '.' || c = '-'
  match name.toList with
  | [] => false
  | c :: cs => lower c && 1 ≤ cs.length && cs.length ≤ 127 && cs.all other

structure ToolSpec where
  name : String
  sideEffect : SideEffect
  capability : Capability
  requiresApproval : Bool
  validateArguments : Option (Json → Except String Json)
  name_valid : isToolName name = true
  write_gated : sideEffect = .write → requiresApproval = true

abbrev ToolRegistry := Table ToolSpec ToolSpec.name

structure ToolSettings where
  toolMaxArgumentsBytes : Nat
  toolApprovalTtlSeconds : Nat
  checkpointMaxStateBytes : Nat
  arguments_bounds : 1024 ≤ toolMaxArgumentsBytes
  ttl_bounds : 60 ≤ toolApprovalTtlSeconds ∧ toolApprovalTtlSeconds ≤ 86400
  state_bounds : 1024 ≤ checkpointMaxStateBytes

/-- The values the field declarations default to. -/
def ToolSettings.default : ToolSettings where
  toolMaxArgumentsBytes := 64 * 1024
  toolApprovalTtlSeconds := 3600
  checkpointMaxStateBytes := 1024 * 1024
  arguments_bounds := by decide
  ttl_bounds := by decide
  state_bounds := by decide

/-- What the calls of one tenant share. -/
structure ToolEnv where
  tenant : Tenant
  registry : ToolRegistry
  settings : ToolSettings
  sha256 : String → String

/-! ## The two tables -/

inductive ApprovalStatus where
  | pending | approved | rejected | expired
deriving DecidableEq

structure ApprovalRow where
  id : Uuid
  runId : Uuid
  toolName : String
  sideEffect : SideEffect
  arguments : Json
  argumentsSha256 : String
  status : ApprovalStatus
  requestedBy : Uuid
  requestedAt : Time
  decidedBy : Option Uuid
  decidedAt : Option Time
  decisionNote : Option String
  expiresAt : Time
  consumedAt : Option Time
deriving DecidableEq

abbrev ApprovalTable := Table ApprovalRow ApprovalRow.id

inductive ExecutionStatus where
  | started | succeeded | failed | needsReconciliation
deriving DecidableEq

structure ExecutionRow where
  id : Uuid
  runId : Uuid
  approvalId : Option Uuid
  toolName : String
  sideEffect : SideEffect
  argumentsSha256 : String
  idempotencyKey : String
  requestedBy : Uuid
  status : ExecutionStatus
  result : Option Json
  resultSha256 : Option String
  error : Option String
  startedAt : Time
  finishedAt : Option Time
deriving DecidableEq

abbrev ExecutionTable := Table ExecutionRow ExecutionRow.id

/-! ## What a call ends with -/

inductive ToolError where
  | runCancelled
  | unknownTool (name : String)
  | notAuthorized (capability : Capability) (resource : String) (reason : AccessReason)
  | conflict (text : String)
  | value (text : String)
  | approvalRequired (id : Uuid)
  | approvalInvalid
  | unavailable (text : String)
  | database
  | interrupted
deriving DecidableEq

structure ToolInvocation where
  executionId : Uuid
  toolName : String
  status : ExecutionStatus
  result : Option Json
  replayed : Bool
deriving DecidableEq

abbrev ToolResult := Except ToolError ToolInvocation

/-! ## Before the first write -/

structure InvokeRequest where
  ctx : RequestContext
  toolName : String
  arguments : Json
  runId : Uuid
  idempotencyKey : String
  approvalId : Option Uuid

/-- A call that has passed every check. -/
structure Prepared where
  ctx : RequestContext
  spec : ToolSpec
  runId : Uuid
  approvalId : Option Uuid
  arguments : Json
  argumentsSha : String
  idempotencyKey : String

def canonical (v : Json) : String := v.dumps

def durableKey (env : ToolEnv) (idempotencyKey : String) : String :=
  "invoke:v1:" ++ env.sha256 idempotencyKey

def Prepared.key (env : ToolEnv) (p : Prepared) : String := durableKey env p.idempotencyKey

/-- The checks of `invoke`, in order. `cancelled` is what the run row says at the
cancellation point, `hasGrant` what the grants table says. -/
def prepare (env : ToolEnv) (q : InvokeRequest) (cancelled hasGrant : Bool) :
    Except ToolError Prepared :=
  do
  if q.ctx.runId.isSome && cancelled then throw .runCancelled
  let spec ← (env.registry.get q.toolName).elim (throw (.unknownTool q.toolName)) pure
  let (allowed, reason) := allows q.ctx.principal spec.capability (some q.toolName) none hasGrant
  if !allowed then throw (.notAuthorized spec.capability q.toolName reason)
  if q.ctx.runId ≠ none ∧ q.ctx.runId ≠ some q.runId then
    throw (.conflict "invocation run does not match request context")
  if ¬ (1 ≤ q.idempotencyKey.length ∧ q.idempotencyKey.length ≤ 160) then
    throw (.value "idempotency_key must contain 1-160 characters")
  let validated ← match spec.validateArguments with
    | none => pure q.arguments
    | some validate => (validate q.arguments).mapError .value
  let encoded := canonical validated
  if env.settings.toolMaxArgumentsBytes < encoded.utf8ByteSize then
    throw (.value "tool arguments exceed tool_max_arguments_bytes")
  return ⟨q.ctx, spec, q.runId, q.approvalId, validated, env.sha256 encoded, q.idempotencyKey⟩

/-- SELECT … WHERE idempotency_key = :key. -/
def existing (executions : ExecutionTable) (key : String) : Option ExecutionRow :=
  executions.rows.find? (fun e => e.idempotencyKey = key)

def ExecutionStatus.text : ExecutionStatus → String
  | .started => "started"
  | .succeeded => "succeeded"
  | .failed => "failed"
  | .needsReconciliation => "needs_reconciliation"

def resolveExisting (row : ExecutionRow) (toolName argumentsSha : String) : ToolResult :=
  if row.toolName ≠ toolName ∨ row.argumentsSha256 ≠ argumentsSha then
    .error (.conflict "idempotency key was already used for another tool invocation")
  else if row.status = .succeeded then .ok ⟨row.id, toolName, row.status, row.result, true⟩
  else
    .error (.unavailable ("existing execution " ++ toString row.id ++ " is " ++ row.status.text ++
      "; automatic replay is refused"))

/-! ## Requesting an approval -/

/-- WHERE of the SELECT in `_request_approval`. -/
def reusable (now : Time) (p : Prepared) (a : ApprovalRow) : Prop :=
  a.runId = p.runId ∧ a.toolName = p.spec.name ∧ a.argumentsSha256 = p.argumentsSha ∧
    a.requestedBy = p.ctx.principal.id ∧ (a.status = .pending ∨ a.status = .approved) ∧
    a.consumedAt = none ∧ now < a.expiresAt

instance (now : Time) (p : Prepared) (a : ApprovalRow) : Decidable (reusable now p a) :=
  inferInstanceAs (Decidable (_ ∧ _))

/-- ORDER BY requested_at DESC LIMIT 1. -/
def reusableApproval (approvals : ApprovalTable) (now : Time) (p : Prepared) : Option ApprovalRow :=
  ((approvals.rows.filter (fun a => reusable now p a)).insertionSort
    (fun a b => b.requestedAt ≤ a.requestedAt)).head?

def newApproval (env : ToolEnv) (now : Time) (p : Prepared) (approvalId : Uuid) : ApprovalRow where
  id := approvalId
  runId := p.runId
  toolName := p.spec.name
  sideEffect := p.spec.sideEffect
  arguments := p.arguments
  argumentsSha256 := p.argumentsSha
  status := .pending
  requestedBy := p.ctx.principal.id
  requestedAt := now
  decidedBy := none
  decidedAt := none
  decisionNote := none
  expiresAt := now + env.settings.toolApprovalTtlSeconds
  consumedAt := none

/-! ## Starting an execution -/

def newReceipt (env : ToolEnv) (now : Time) (p : Prepared) (executionId : Uuid) : ExecutionRow where
  id := executionId
  runId := p.runId
  approvalId := p.approvalId
  toolName := p.spec.name
  sideEffect := p.spec.sideEffect
  argumentsSha256 := p.argumentsSha
  idempotencyKey := p.key env
  requestedBy := p.ctx.principal.id
  status := .started
  result := none
  resultSha256 := none
  error := none
  startedAt := now
  finishedAt := none

/-- WHERE of the UPDATE that consumes an approval. -/
def consumable (now : Time) (p : Prepared) (a : ApprovalRow) : Prop :=
  p.approvalId = some a.id ∧ a.runId = p.runId ∧ a.toolName = p.spec.name ∧
    a.argumentsSha256 = p.argumentsSha ∧ a.status = .approved ∧ a.consumedAt = none ∧
    now < a.expiresAt

instance (now : Time) (p : Prepared) (a : ApprovalRow) : Decidable (consumable now p a) :=
  inferInstanceAs (Decidable (_ ∧ _))

def consumeRow (now : Time) (a : ApprovalRow) : ApprovalRow := { a with consumedAt := some now }

/-- The row the consuming UPDATE would write, as it stands before. -/
def consumableApproval (approvals : ApprovalTable) (now : Time) (p : Prepared) :
    Option ApprovalRow :=
  p.approvalId.bind (fun id => (approvals.get id).filter (fun a => consumable now p a))

/-! ## Deciding an approval -/

structure DecideRequest where
  ctx : RequestContext
  approvalId : Uuid
  approved : Bool
  note : Option String

inductive DecideError where
  | notFound
  | alreadyDecided (status : ApprovalStatus)
  | forbidden (reason : AccessReason)
  | expiredOrDecided
  | rolledBack
deriving DecidableEq

/-- What `decide` reads and checks before its UPDATE: the requester of the row. -/
def decideCheck (approvals : ApprovalTable) (q : DecideRequest) : Except DecideError Uuid :=
  match approvals.get q.approvalId with
  | none => .error .notFound
  | some a =>
    if a.status ≠ .pending then .error (.alreadyDecided a.status)
    else
      let (allowed, reason) := allows q.ctx.principal .toolApprove none (some a.requestedBy) false
      if allowed then .ok a.requestedBy else .error (.forbidden reason)

/-- WHERE of the deciding UPDATE. -/
def undecided (now : Time) (a : ApprovalRow) : Prop := a.status = .pending ∧ now < a.expiresAt

instance (now : Time) (a : ApprovalRow) : Decidable (undecided now a) :=
  inferInstanceAs (Decidable (_ ∧ _))

def decideRow (now : Time) (q : DecideRequest) (a : ApprovalRow) : ApprovalRow :=
  { a with
    status := if q.approved then .approved else .rejected
    decidedBy := some q.ctx.principal.id
    decidedAt := some now
    decisionNote := q.note }

/-- The deciding UPDATE: the row it wrote, if one matched. -/
def decideUpdate (approvals : ApprovalTable) (now : Time) (q : DecideRequest) :
    ApprovalTable × Option ApprovalRow :=
  approvals.updateKey q.approvalId (undecided now) (decideRow now q) (fun _ => rfl)

/-! ## After the handler -/

/-- What the handler did, as `invoke` sees it: it returned a JSON value, or a value that
has no JSON text, it raised, the wait for it ran out, or something that is no
`Exception` came out. -/
inductive HandlerOutcome where
  | returned (v : Json)
  | returnedForeign (isDict : Bool)
  | raised (text : String)
  | timedOut
  | escaped

/-- The UPDATE `invoke` attempts on the receipt, with what it raises afterwards: a
failure, a result, or none at all because an exception leaves `invoke` before. -/
inductive FinishWrite where
  | failure (status : ExecutionStatus) (error : String) (raises : String)
  | success (result : Json)
  | nothing (raises : ToolError)
deriving DecidableEq

/-- The status of the two `except` clauses. -/
def failureStatus : SideEffect → ExecutionStatus
  | .write => .needsReconciliation
  | .none => .failed

def notAnObject : String := "TypeError: tool handlers must return a JSON object"

def resultTooLarge : String := "tool result exceeds retained result limit"

def notFinite : ToolError := .value "tool values must be finite JSON"

def toolText (spec : ToolSpec) (what : String) : String := "tool '" ++ spec.name ++ "' " ++ what

def finishWrite (env : ToolEnv) (spec : ToolSpec) : HandlerOutcome → FinishWrite
  | .timedOut => .failure (failureStatus spec.sideEffect) "tool timeout" (toolText spec "timed out")
  | .raised text => .failure (failureStatus spec.sideEffect) text (toolText spec "failed")
  | .escaped => .nothing .interrupted
  | .returnedForeign isDict =>
    if isDict then .nothing notFinite
    else .failure (failureStatus spec.sideEffect) notAnObject (toolText spec "failed")
  | .returned v =>
    if !v.isObj then .failure (failureStatus spec.sideEffect) notAnObject (toolText spec "failed")
    else if env.settings.checkpointMaxStateBytes < (canonical v).utf8ByteSize then
      .failure .failed resultTooLarge resultTooLarge
    else .success v

mutual

/-- No string of the document holds the character zero, which `jsonb` cannot store. -/
def storable : Json → Bool
  | .str s => !s.toList.contains (Char.ofNat 0)
  | .arr items => storableItems items
  | .obj fields => storableFields fields
  | .null | .bool _ | .num _ => true

def storableItems : List Json → Bool
  | [] => true
  | v :: vs => storable v && storableItems vs

def storableFields : List (String × Json) → Bool
  | [] => true
  | (k, v) :: fs => !k.toList.contains (Char.ofNat 0) && storable v && storableFields fs

end

/-- `CAST(:text AS jsonb)`; `none` where it raises. -/
def castJsonb (text : String) : Option Json := (Json.loads text).filter storable

def failRow (now : Time) (status : ExecutionStatus) (error : String) (e : ExecutionRow) :
    ExecutionRow :=
  { e with status := status, error := some (clip 2000 error), finishedAt := some now }

def succeedRow (now : Time) (result : Json) (sha : String) (e : ExecutionRow) : ExecutionRow :=
  { e with
    status := .succeeded, result := some result, resultSha256 := some sha,
    finishedAt := some now }

/-- The SET list of the UPDATE; a result `jsonb` refuses makes the UPDATE raise. -/
def FinishWrite.set (env : ToolEnv) (now : Time) : FinishWrite → ExecutionRow → ExecutionRow
  | .failure status error _, e => failRow now status error e
  | .success v, e =>
    (castJsonb (canonical v)).elim e
      (fun stored => succeedRow now stored (env.sha256 (canonical v)) e)
  | .nothing _, e => e

theorem FinishWrite.set_id (env : ToolEnv) (now : Time) (w : FinishWrite) (e : ExecutionRow) :
    (w.set env now e).id = e.id := by
  cases w with
  | failure status error raises => rfl
  | success v =>
    simp only [FinishWrite.set]
    cases castJsonb (canonical v) <;> rfl
  | nothing raises => rfl

/-- The UPDATE touches a receipt that is still `started`. -/
def finishReceipt (env : ToolEnv) (executions : ExecutionTable) (now : Time) (executionId : Uuid)
    (w : FinishWrite) : ExecutionTable :=
  executions.updateWhere (fun e => e.id = executionId ∧ e.status = .started) (w.set env now)
    (w.set_id env now)

/-- Whether the UPDATE went through: the database took it and, for a result, `jsonb`
could store it and the receipt was still `started`. -/
def FinishWrite.saved (executions : ExecutionTable) (executionId : Uuid) (written : Bool) :
    FinishWrite → Bool
  | .success v =>
    written && (castJsonb (canonical v)).isSome &&
      (executions.get executionId).any (fun e => e.status = .started)
  | .failure .. | .nothing _ => written

/-- What the caller of `invoke` gets. -/
def FinishWrite.result (spec : ToolSpec) (executionId : Uuid) (saved : Bool) :
    FinishWrite → ToolResult
  | .failure _ _ raises => .error (if saved then .unavailable raises else .database)
  | .success v =>
    if saved then .ok ⟨executionId, spec.name, .succeeded, some v, false⟩
    else .error (.unavailable (toolText spec "completed but its result could not be committed"))
  | .nothing raises => .error raises

end AgenticPlatform.Agent
