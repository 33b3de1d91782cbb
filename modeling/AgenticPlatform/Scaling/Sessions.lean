import AgenticPlatform.Foundation.Dict
import AgenticPlatform.Foundation.Json
import AgenticPlatform.Foundation.Table
import AgenticPlatform.Foundation.Transition
import AgenticPlatform.Identity.Principal
import AgenticPlatform.Settings

/-!
# Conversations

The rows of `session`, and calls of `append_turn` that run side by side. A call locks the
row with its UPDATE, which computes the new row from the latest committed one, and holds it
until it commits. What `jsonb` makes of a turn is a parameter, which may refuse it.
-/
namespace AgenticPlatform.Scaling
open AgenticPlatform.Foundation AgenticPlatform.Identity

structure SessionRow where
  id : String
  tenantId : Uuid
  principalId : Uuid
  workload : String
  /-- A `jsonb` object. -/
  state : List (String × Json)
  turnCount : Nat
  updatedAt : Time
  expiresAt : Time
deriving DecidableEq

abbrev SessionTable := Table SessionRow SessionRow.id

/-! ## The UPDATE -/

/-- `jsonb_array_elements(coalesce(state->'turns', '[]'))`, which raises where the value is
no array. -/
def turnsOf (state : List (String × Json)) : Option (List Json) :=
  match state.lookup "turns" with
  | none => some []
  | some (.arr turns) => some turns
  | some _ => none

/-- The turns after the OFFSET. -/
def trimmed (maxTurns : Int) (turns : List Json) (turn : Json) : List Json :=
  (turns ++ [turn]).drop (max 0 ((turns.length : Int) + 1 - maxTurns)).toNat

/-- The new row. `array_agg` over no rows is NULL, which the column does not take. -/
def appended (maxTurns : Int) (now : Time) (turn : Json) (r : SessionRow) : Option SessionRow :=
  match turnsOf r.state with
  | none => none
  | some turns =>
    if trimmed maxTurns turns turn = [] then none
    else
      some { r with
        state := Dict.setItem r.state "turns" (.arr (trimmed maxTurns turns turn))
        turnCount := r.turnCount + 1
        updatedAt := now }

/-- WHERE id = :id AND principal_id = :p AND expires_at > now(), under the policy of the
table. -/
def SessionRow.opensTo (r : SessionRow) (ctx : RequestContext) (now : Time) : Prop :=
  r.tenantId = ctx.tenant.id ∧ r.principalId = ctx.principal.id ∧ now < r.expiresAt

instance (r : SessionRow) (ctx : RequestContext) (now : Time) : Decidable (r.opensTo ctx now) :=
  inferInstanceAs (Decidable (_ ∧ _))

/-! ## Calls side by side -/

/-- A call of `append_turn`, with the `now()` of its transaction. -/
structure AppendCall where
  ctx : RequestContext
  sessionId : String
  turn : Json
  now : Time

inductive AppendPhase where
  | idle
  | begun (c : AppendCall)
  /-- The row is locked; what is to be committed, and the turn in it. -/
  | updated (c : AppendCall) (row : SessionRow) (turn : Json)
  | returned (row : SessionRow)
  | sessionNotFound
  | raised

structure SessionsState where
  sessions : SessionTable
  calls : Nat → AppendPhase
  /-- The call that holds the lock of a row. -/
  locks : String → Option Nat
  /-- The row a session started with; not stored. -/
  started : String → Option SessionRow
  /-- The turns committed to it since, in their order; not stored. -/
  history : String → List Json

def SessionsState.initial (db : SessionTable) : SessionsState :=
  ⟨db, fun _ => .idle, fun _ => none, db.get, fun _ => []⟩

inductive SessionsAct where
  | create (ctx : RequestContext) (sessionId workload : String) (now expiresAt : Time)
  | begin (k : Nat) (c : AppendCall)
  | update (k : Nat)
  | commit (k : Nat)
  /-- The connection is lost, or the process. -/
  | abort (k : Nat)
  | delete (ctx : RequestContext) (sessionId : String)
  | purge (now : Time)

def newSession (ctx : RequestContext) (sessionId workload : String) (now expiresAt : Time) :
    SessionRow where
  id := sessionId
  tenantId := ctx.tenant.id
  principalId := ctx.principal.id
  workload := workload
  state := []
  turnCount := 0
  updatedAt := now
  expiresAt := expiresAt

def replaced (new r : SessionRow) : SessionRow := if r.id = new.id then new else r

theorem replaced_id (new r : SessionRow) : (replaced new r).id = r.id := by
  unfold replaced
  split
  · exact Eq.symm ‹_›
  · rfl

section
variable (cast : Json → Option Json) (maxTurns : Int)

def sessionsStep (s : SessionsState) : SessionsAct → Option SessionsState
  | .create ctx sessionId workload now expiresAt =>
    match s.sessions.tryInsert (newSession ctx sessionId workload now expiresAt) with
    | none => some s
    | some sessions =>
      some { s with
        sessions := sessions
        started := Function.update s.started sessionId
          (some (newSession ctx sessionId workload now expiresAt))
        history := Function.update s.history sessionId [] }
  | .begin k c =>
    match s.calls k with
    | .idle => some { s with calls := Function.update s.calls k (.begun c) }
    | _ => none
  | .update k =>
    match s.calls k with
    | .begun c =>
      match (s.sessions.get c.sessionId).filter (fun r => r.opensTo c.ctx c.now) with
      | none => some { s with calls := Function.update s.calls k .sessionNotFound }
      | some r =>
        match s.locks c.sessionId with
        -- It waits, and looks at the row again afterwards.
        | some _ => none
        | none =>
          match cast c.turn with
          | none => some { s with calls := Function.update s.calls k .raised }
          | some turn =>
            match appended maxTurns c.now turn r with
            | none => some { s with calls := Function.update s.calls k .raised }
            | some row =>
              some { s with
                calls := Function.update s.calls k (.updated c row turn)
                locks := Function.update s.locks c.sessionId (some k) }
    | _ => none
  | .commit k =>
    match s.calls k with
    | .updated c row turn =>
      some { s with
        sessions := s.sessions.update (replaced row) (replaced_id row)
        calls := Function.update s.calls k (.returned row)
        locks := Function.update s.locks c.sessionId none
        history := Function.update s.history c.sessionId (s.history c.sessionId ++ [turn]) }
    | _ => none
  | .abort k =>
    match s.calls k with
    | .begun _ => some { s with calls := Function.update s.calls k .raised }
    | .updated c _ _ =>
      some { s with
        calls := Function.update s.calls k .raised
        locks := Function.update s.locks c.sessionId none }
    | _ => none
  | .delete ctx sessionId =>
    match (s.sessions.get sessionId).filter
        (fun r => r.tenantId = ctx.tenant.id ∧ r.principalId = ctx.principal.id) with
    | none => some s
    | some _ =>
      match s.locks sessionId with
      | some _ => none
      | none => some { s with sessions := s.sessions.deleteWhere (fun r => r.id = sessionId) }
  | .purge now =>
    if ∃ r ∈ s.sessions.rows, r.expiresAt ≤ now ∧ (s.locks r.id).isSome then none
    else some { s with sessions := s.sessions.deleteWhere (fun r => r.expiresAt ≤ now) }

end

end AgenticPlatform.Scaling
