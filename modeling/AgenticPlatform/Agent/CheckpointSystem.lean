import AgenticPlatform.Agent.Tools
import AgenticPlatform.Foundation.JsonValue
import AgenticPlatform.Foundation.Transition
import Mathlib.Logic.Function.Basic

/-!
# The checkpoint store

`append`, `save` and `load`, by any number of calls of any tenants, interleaved
statement by statement. `append` holds an advisory lock from its first statement to the
end of its transaction, `save` takes none. A row that a transaction has inserted is seen
by no other one before the commit, but an INSERT under the same key waits for it.
SHA-256, the hash of the advisory lock and the way `numeric` writes a number are
parameters.
-/
namespace AgenticPlatform.Agent
open AgenticPlatform.Foundation AgenticPlatform.Identity AgenticPlatform.Db

/-! ## Rows and checkpoints -/

structure CheckpointRow where
  tenantId : Uuid
  threadId : String
  step : Int
  runId : Option Uuid
  state : Json
  stateSha256 : String
  awaiting : Option String
  createdBy : Uuid
  createdAt : Time
deriving DecidableEq

/-- The unique constraint of the table. -/
abbrev ThreadStep := Uuid × String × Int

def CheckpointRow.key (row : CheckpointRow) : ThreadStep := (row.tenantId, row.threadId, row.step)

abbrev CheckpointTable := Table CheckpointRow CheckpointRow.key

structure Checkpoint where
  threadId : String
  tenantId : Uuid
  step : Int
  state : Json
  createdAt : Time
  awaiting : Option String
deriving DecidableEq

inductive CheckpointError where
  | value (text : String)
  /-- `CheckpointConflict`: the thread and the step its text names. -/
  | conflict (threadId : String) (step : Int)
  | noResultFound
  | database
  | interrupted
deriving DecidableEq

structure CheckpointEnv where
  settings : ToolSettings
  sha256 : String → String
  uuidText : Uuid → String
  hashtextextended : String → Int
  /-- How `numeric` writes a number. -/
  numeric : Number → Number

/-- Texts with one digest are one text; `numeric` is exact. -/
structure CheckpointEnv.Faithful (env : CheckpointEnv) : Prop where
  sha256 : Function.Injective env.sha256
  numeric : ∀ n, (env.numeric n).value = n.value

/-! ## Before the transaction -/

def validateMetadata (threadId : String) (awaiting : Option String) : Except CheckpointError Unit :=
  do
  if threadId.length = 0 ∨ 200 < threadId.length then
    throw (.value "checkpoint thread_id must contain 1-200 characters")
  if awaiting.any (fun a => a.length = 0 ∨ 128 < a.length) then
    throw (.value "checkpoint awaiting must contain 1-128 characters")

/-- `_canonical` and the bound on what it returns. -/
def encodeState (env : CheckpointEnv) (state : Json) : Except CheckpointError String := do
  if !state.isObj then throw (.value "checkpoint state must be a JSON object")
  let encoded := canonical state
  if env.settings.checkpointMaxStateBytes < encoded.utf8ByteSize then
    throw (.value "checkpoint state exceeds checkpoint_max_state_bytes")
  return encoded

/-- What a call writes, with the digest of the state. -/
structure Write where
  ctx : RequestContext
  threadId : String
  state : Json
  awaiting : Option String
  digest : String
deriving DecidableEq

def checkSave (env : CheckpointEnv) (ctx : RequestContext) (cp : Checkpoint) :
    Except CheckpointError Write :=
  do
  if cp.tenantId ≠
    ctx.tenant.id then throw (.value "checkpoint tenant does not match request context")
  validateMetadata cp.threadId cp.awaiting
  if cp.step < 0 then throw (.value "checkpoint step cannot be negative")
  let encoded ← encodeState env cp.state
  return ⟨ctx, cp.threadId, cp.state, cp.awaiting, env.sha256 encoded⟩

def checkAppend (env : CheckpointEnv) (ctx : RequestContext) (threadId : String) (state : Json)
    (awaiting : Option String) : Except CheckpointError Write := do
  validateMetadata threadId awaiting
  let encoded ← encodeState env state
  return ⟨ctx, threadId, state, awaiting, env.sha256 encoded⟩

/-! ## Statements -/

/-- A text column holds no character zero. -/
def textFits (s : String) : Bool := !s.toList.contains (Char.ofNat 0)

def maxBigint : Int := 2 ^ 63 - 1

/-- `json.loads` of the canonical text. -/
def normalizedState (state : Json) : Json := (Json.loads (canonical state)).getD .null

/-- `CAST(:state AS jsonb)`; `none` where it raises. -/
def castState (env : CheckpointEnv) (text : String) : Option Json :=
  ((Json.asciiCodec.loads text).filter storable).map (Json.mapNumbers env.numeric)

/-- The row of the INSERT; `none` where a column refuses its value. -/
def newCheckpoint (env : CheckpointEnv) (w : Write) (step : Int) (createdAt : Time) :
    Option CheckpointRow :=
  if textFits w.threadId ∧ w.awaiting.all textFits ∧ step ≤ maxBigint then
    (castState env (Json.asciiCodec.dumps (normalizedState w.state))).map (fun stored =>
      { tenantId := w.ctx.tenant.id
        threadId := w.threadId
        step := step
        runId := w.ctx.runId
        state := stored
        stateSha256 := w.digest
        awaiting := w.awaiting
        createdBy := w.ctx.principal.id
        createdAt := createdAt })
  else none

/-- The rows of a thread that the policy of its tenant shows. -/
def threadRows (table : CheckpointTable) (tenantId : Uuid) (threadId : String) :
    List CheckpointRow :=
  table.rows.filter (fun row => row.tenantId = tenantId ∧ row.threadId = threadId)

/-- `coalesce(max(step), -1) + 1`. -/
def nextStep (table : CheckpointTable) (tenantId : Uuid) (threadId : String) : Int :=
  ((threadRows table tenantId threadId).map CheckpointRow.step).max?.getD (-1) + 1

/-- The comparison of `save` with the row it found. -/
def differs (w : Write) (row : CheckpointRow) : Prop :=
  row.stateSha256 ≠ w.digest ∨ row.awaiting ≠ w.awaiting ∨ row.runId ≠ w.ctx.runId

instance (w : Write) (row : CheckpointRow) : Decidable (differs w row) :=
  inferInstanceAs (Decidable (_ ∨ _))

def checkpoint (row : CheckpointRow) : Checkpoint :=
  ⟨row.threadId, row.tenantId, row.step, row.state, row.createdAt, row.awaiting⟩

/-- ORDER BY step DESC LIMIT 1, or the row of one step. -/
def loadRow (rows : List CheckpointRow) : Option Int → Option CheckpointRow
  | some k => (rows.filter (fun row => row.step = k)).head?
  | none => (rows.insertionSort (fun a b => b.step ≤ a.step)).head?

def load (table : CheckpointTable) (ctx : RequestContext) (threadId : String) (step : Option Int) :
    Except CheckpointError (Option Checkpoint) :=
  if textFits threadId then .ok
    ((loadRow (threadRows table ctx.tenant.id threadId) step).map checkpoint)
  else .error .database

/-! ## The system -/

inductive CheckpointResult where
  | saved
  | appended (c : Checkpoint)
  | failed (e : CheckpointError)
deriving DecidableEq

/-- Where a call stands. `existing` is a save whose INSERT inserted nothing. -/
inductive CheckpointCall where
  | unused
  | saving (w : Write) (step : Int) (createdAt : Time)
  | existing (w : Write) (step : Int)
  | appending (w : Write)
  | locked (w : Write)
  | stepRead (w : Write) (step : Int)
  | inserted (w : Write) (row : CheckpointRow) (appends : Bool)
  | ended (r : CheckpointResult)

/-- A committed INSERT. -/
structure Committed where
  call : Nat
  write : Write
  row : CheckpointRow
  appends : Bool

structure CheckpointState where
  table : CheckpointTable
  calls : Nat → CheckpointCall
  /-- The call that holds an advisory lock. -/
  locks : Int → Option Nat
  /-- The call whose open transaction has inserted a row under this key. -/
  pending : ThreadStep → Option Nat
  log : List Committed

def CheckpointState.initial : CheckpointState :=
  ⟨Table.empty, fun _ => .unused, fun _ => none, fun _ => none, []⟩

def CheckpointState.setCall (s : CheckpointState) (n : Nat) (c : CheckpointCall) :
    CheckpointState :=
  { s with calls := Function.update s.calls n c }

/-- The end of a call, and of its transaction. -/
def CheckpointState.finish (s : CheckpointState) (n : Nat) (r : CheckpointResult) :
    CheckpointState :=
  { s with
    calls := Function.update s.calls n (.ended r)
    locks := fun l => (s.locks l).filter (fun m => m ≠ n)
    pending := fun k => (s.pending k).filter (fun m => m ≠ n) }

def CheckpointState.fail (s : CheckpointState) (n : Nat) (e : CheckpointError) : CheckpointState :=
  s.finish n (.failed e)

inductive CheckpointAct where
  | save (n : Nat) (ctx : RequestContext) (cp : Checkpoint)
  | append (n : Nat) (ctx : RequestContext) (threadId : String) (state : Json)
    (awaiting : Option String)
  | lock (n : Nat)
  | readStep (n : Nat)
  | insert (n : Nat) (now : Time)
  | compare (n : Nat)
  | commit (n : Nat) (heard : Bool)
  | abort (n : Nat)

def Write.lock (env : CheckpointEnv) (w : Write) : Int :=
  env.hashtextextended (env.uuidText w.ctx.tenant.id ++ ":" ++ w.threadId)

def Write.key (w : Write) (step : Int) : ThreadStep := (w.ctx.tenant.id, w.threadId, step)

/-- The row is in, for its own transaction only. -/
def insertCheckpoint (s : CheckpointState) (n : Nat) (w : Write) (row : CheckpointRow)
    (appends : Bool) : Option CheckpointState :=
  if s.pending row.key ≠ none then none
  else
    some { s.setCall n (.inserted w row appends) with
      pending := Function.update s.pending row.key (some n) }

def checkpointStep (env : CheckpointEnv) (s : CheckpointState) :
    CheckpointAct → Option CheckpointState
  | .save n ctx cp =>
    match s.calls n with
    | .unused =>
      match checkSave env ctx cp with
      | .ok w => some (s.setCall n (.saving w cp.step cp.createdAt))
      | .error e => some (s.fail n e)
    | _ => none
  | .append n ctx threadId state awaiting =>
    match s.calls n with
    | .unused =>
      match checkAppend env ctx threadId state awaiting with
      | .ok w => some (s.setCall n (.appending w))
      | .error e => some (s.fail n e)
    | _ => none
  | .lock n =>
    match s.calls n with
    | .appending w =>
      if !textFits w.threadId then some (s.fail n .database)
      else if s.locks (w.lock env) ≠ none then none
      else some { s.setCall n (.locked w) with
        locks := Function.update s.locks (w.lock env) (some n) }
    | _ => none
  | .readStep n =>
    match s.calls n with
    | .locked w =>
      let step := nextStep s.table w.ctx.tenant.id w.threadId
      if step ≤ maxBigint then some (s.setCall n (.stepRead w step)) else some (s.fail n .database)
    | _ => none
  | .insert n now =>
    match s.calls n with
    | .saving w step createdAt =>
      match newCheckpoint env w step createdAt with
      | none => some (s.fail n .database)
      | some row =>
        if row.key ∈ s.table.keys then some (s.setCall n (.existing w step))
        else insertCheckpoint s n w row false
    | .stepRead w step =>
      match newCheckpoint env w step now with
      | none => some (s.fail n .database)
      | some row =>
        if row.key ∈ s.table.keys then some (s.fail n .database)
        else insertCheckpoint s n w row true
    | _ => none
  | .compare n =>
    match s.calls n with
    | .existing w step =>
      match s.table.get (w.key step) with
      | none => some (s.fail n .noResultFound)
      | some row =>
        if differs w row then some (s.fail n (.conflict w.threadId step))
        else some (s.finish n .saved)
    | _ => none
  | .commit n heard =>
    match s.calls n with
    | .inserted w row appends =>
      (s.table.tryInsert row).map (fun table' =>
        let result : CheckpointResult :=
          if !heard then .failed .interrupted
          else if appends then .appended { checkpoint row with state := normalizedState w.state }
          else .saved
        { s.finish n result with table := table', log := s.log ++ [⟨n, w, row, appends⟩] })
    | _ => none
  | .abort n =>
    match s.calls n with
    | .unused | .ended _ => none
    | _ => some (s.fail n .interrupted)

end AgenticPlatform.Agent
