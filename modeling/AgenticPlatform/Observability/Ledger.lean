import AgenticPlatform.Db.Models
import AgenticPlatform.Foundation.Aggregate
import AgenticPlatform.Foundation.Calendar
import AgenticPlatform.Foundation.Transition
import Mathlib.Logic.Function.Basic

/-!
# The ledger of one tenant

`reserve`, `settle` and `release`, statement by statement, for any number of concurrent
callers. `now()` is the start of the transaction, which is before it has waited for the
advisory lock, so it may lie in the past by the time the transaction reads or commits.
What a transaction has written stays with it until it commits, and the rows it has
written make a concurrent `release` of them wait. A transaction may fail at any
statement, which drops what it wrote. Amounts are exact.
-/
namespace AgenticPlatform.Observability
open AgenticPlatform.Foundation AgenticPlatform.Identity AgenticPlatform.Db

/-! ## Settings and caps -/

structure BudgetSettings where
  dailyTokenCap : Int
  monthlyCostCapUsd : ℚ
  budgetFailClosed : Bool
  budgetReservationTtlSeconds : Nat
  release : String
  ttl_bounds : 30 ≤ budgetReservationTtlSeconds ∧ budgetReservationTtlSeconds ≤ 3600

/-- The two nullable columns of the tenant row. -/
structure TenantCaps where
  dailyTokenCap : Option Int
  monthlyCostCapUsd : Option ℚ

/-- What the calls of one tenant share. -/
structure LedgerEnv where
  tenant : Tenant
  caps : Option TenantCaps
  settings : BudgetSettings
  calendar : Calendar

def dailyCap (env : LedgerEnv) : Int :=
  (env.caps.bind TenantCaps.dailyTokenCap).getD env.settings.dailyTokenCap

def monthlyCap (env : LedgerEnv) : ℚ :=
  (env.caps.bind TenantCaps.monthlyCostCapUsd).getD env.settings.monthlyCostCapUsd

def interactiveTasks : List String := ["chat", "query"]

def failsOpen (task : String) : Bool := interactiveTasks.contains task

/-! ## The two tables -/

structure UsageRecord where
  principalId : Uuid
  runId : Option Uuid
  workload : String
  task : String
  model : String
  inputTokens : Int
  outputTokens : Int
  costUsd : ℚ
  cacheHit : Bool
  usageReported : Bool
deriving DecidableEq

/-- A row of `llm_usage`; the last two fields are its CHECK constraints. -/
structure UsageRow extends UsageRecord where
  release : String
  /-- The column `at`. -/
  recordedAt : Time
  tokens_nonneg : 0 ≤ inputTokens ∧ 0 ≤ outputTokens
  cost_nonneg : 0 ≤ costUsd
deriving DecidableEq

def UsageRecord.tokens (record : UsageRecord) : Int := record.inputTokens + record.outputTokens

/-- The computed column `total_tokens`. -/
def UsageRow.totalTokens (u : UsageRow) : Int := u.inputTokens + u.outputTokens

inductive ReservationStatus where
  | reserved | settled | released | expired
deriving DecidableEq

/-- A row of `budget_reservation`; the last two fields are its CHECK constraints. -/
structure ReservationRow where
  id : Uuid
  principalId : Uuid
  requestId : Uuid
  task : String
  model : String
  estimatedTokens : Int
  estimatedCostUsd : ℚ
  actualTokens : Option Int
  actualCostUsd : Option ℚ
  status : ReservationStatus
  releaseReason : Option String
  createdAt : Time
  expiresAt : Time
  settledAt : Option Time
  estimate_nonneg : 0 ≤ estimatedTokens ∧ 0 ≤ estimatedCostUsd
  actual_nonneg : (∀ n ∈ actualTokens, 0 ≤ n) ∧ ∀ c ∈ actualCostUsd, 0 ≤ c
deriving DecidableEq

abbrev ReservationTable := Table ReservationRow ReservationRow.id

/-! ## Reserving -/

structure ReserveRequest where
  ctx : RequestContext
  task : String
  model : String
  estimatedTokens : Int
  estimatedCostUsd : ℚ

/-- A request whose estimates have passed the sign check. -/
structure Hold extends ReserveRequest where
  nonneg : 0 ≤ estimatedTokens ∧ 0 ≤ estimatedCostUsd

def ReserveRequest.hold (q : ReserveRequest) : Option Hold :=
  if h : 0 ≤ q.estimatedTokens ∧ 0 ≤ q.estimatedCostUsd then some { q with nonneg := h } else none

/-- What a caller holds; without an id it is unmetered. -/
structure BudgetReservation where
  id : Option Uuid
  tenantId : Uuid
  estimatedTokens : Int
  estimatedCostUsd : ℚ
  metered : Bool
deriving DecidableEq

inductive ReserveError where
  | negativeEstimate
  | exceeded (projectedTokens dailyCap : Int) (projectedCost monthlyCap : ℚ)
  | unavailable (task : String)
deriving DecidableEq

abbrev ReserveResult := Except ReserveError BudgetReservation

/-- WHERE of the UPDATE that expires reservations. -/
def expirable (now : Time) (r : ReservationRow) : Prop := r.status = .reserved ∧ r.expiresAt ≤ now

instance (now : Time) (r : ReservationRow) : Decidable (expirable now r) :=
  inferInstanceAs (Decidable (_ ∧ _))

def expireRow (r : ReservationRow) : ReservationRow :=
  { r with status := .expired, releaseReason := some "reservation TTL elapsed" }

/-- The rows the expiring UPDATE writes. -/
def expirableIds (reservations : ReservationTable) (now : Time) : List Uuid :=
  (reservations.rows.filter (fun r => expirable now r)).map ReservationRow.id

/-- The table with these rows expired. -/
def markExpired (reservations : ReservationTable) (ids : List Uuid) : ReservationTable :=
  reservations.updateWhere (fun r => r.id ∈ ids) expireRow (fun _ => rfl)

/-- A reservation that counts. -/
def live (now : Time) (r : ReservationRow) : Prop := r.status = .reserved ∧ now < r.expiresAt

instance (now : Time) (r : ReservationRow) : Decidable (live now r) :=
  inferInstanceAs (Decidable (_ ∧ _))

structure Totals where
  tokensToday : Int
  costMonth : ℚ
  reservedTokens : Int
  reservedCost : ℚ
deriving DecidableEq

def totals (env : LedgerEnv) (reservations : ReservationTable) (usage : List UsageRow)
    (now : Time) : Totals where
  tokensToday :=
    sumWhere (fun u => env.calendar.dayStart now ≤ u.recordedAt) UsageRow.totalTokens usage
  costMonth := sumWhere (fun u => env.calendar.monthStart now ≤ u.recordedAt)
    (fun u => u.costUsd) usage
  reservedTokens := sumWhere (live now) ReservationRow.estimatedTokens reservations.rows
  reservedCost := sumWhere (live now) ReservationRow.estimatedCostUsd reservations.rows

def projectedTokens (t : Totals) (h : Hold) : Int :=
  t.tokensToday + t.reservedTokens + h.estimatedTokens

def projectedCost (t : Totals) (h : Hold) : ℚ := t.costMonth + t.reservedCost + h.estimatedCostUsd

def newReservation (env : LedgerEnv) (now : Time) (h : Hold) (id : Uuid) : ReservationRow where
  id := id
  principalId := h.ctx.principal.id
  requestId := h.ctx.requestId
  task := if h.task = "" then "unknown" else h.task
  model := h.model
  estimatedTokens := h.estimatedTokens
  estimatedCostUsd := h.estimatedCostUsd
  actualTokens := none
  actualCostUsd := none
  status := .reserved
  releaseReason := none
  createdAt := now
  expiresAt := now + env.settings.budgetReservationTtlSeconds
  settledAt := none
  estimate_nonneg := h.nonneg
  actual_nonneg := ⟨nofun, nofun⟩

/-- The reservation `reserve` returns after its commit. -/
def granted (env : LedgerEnv) (h : Hold) (id : Uuid) : BudgetReservation :=
  ⟨some id, env.tenant.id, h.estimatedTokens, h.estimatedCostUsd, true⟩

/-- What `reserve` does when the database fails it. -/
def unavailable (env : LedgerEnv) (h : Hold) : ReserveResult :=
  if failsOpen h.task && !env.settings.budgetFailClosed then
    .ok ⟨none, env.tenant.id, h.estimatedTokens, h.estimatedCostUsd, false⟩
  else .error (.unavailable h.task)

/-! ## Settling and releasing -/

/-- The amounts a settlement writes on its reservation. -/
structure Charge where
  tokens : Int
  costUsd : ℚ
  nonneg : 0 ≤ tokens ∧ 0 ≤ costUsd
deriving DecidableEq

/-- `none` where the CHECK constraints refuse the amounts. -/
def UsageRecord.charge (record : UsageRecord) : Option Charge :=
  if h : 0 ≤ record.tokens ∧
    0 ≤ record.costUsd then some ⟨record.tokens, record.costUsd, h⟩ else none

/-- WHERE of the UPDATE in `settle`. -/
def settleable (r : ReservationRow) : Prop := r.status = .reserved ∨ r.status = .expired

instance (r : ReservationRow) : Decidable (settleable r) := inferInstanceAs (Decidable (_ ∨ _))

def settleRow (now : Time) (c : Charge) (r : ReservationRow) : ReservationRow :=
  { r with
    status := .settled
    actualTokens := some c.tokens
    actualCostUsd := some c.costUsd
    settledAt := some now
    actual_nonneg := by simpa using c.nonneg }

/-- `_insert_usage`; `none` where a CHECK constraint refuses the row. -/
def usageRow (env : LedgerEnv) (now : Time) (record : UsageRecord) : Option UsageRow :=
  if h : (0 ≤ record.inputTokens ∧ 0 ≤ record.outputTokens) ∧ 0 ≤ record.costUsd then
    some { record with
      release := env.settings.release, recordedAt := now, tokens_nonneg := h.1,
      cost_nonneg := h.2 }
  else none

inductive SettleOutcome where
  | succeeded | idempotent | failed
deriving DecidableEq

/-- What `settle` makes of a reservation its UPDATE did not match. -/
def unsettled (reservations : ReservationTable) (id : Uuid) : SettleOutcome :=
  if (reservations.get id).map ReservationRow.status = some .settled then .idempotent else .failed

def releaseRow (now : Time) (reason : String) (r : ReservationRow) : ReservationRow :=
  { r with status := .released, releaseReason := some (clip 200 reason), settledAt := some now }

def release (reservations : ReservationTable) (now : Time) (id : Uuid) (reason : String) :
    ReservationTable :=
  reservations.updateWhere (fun r => r.id = id ∧ r.status = .reserved) (releaseRow now reason)
    (fun _ => rfl)

/-! ## Transactions -/

/-- Where a call stands; `now` is the start of its transaction. -/
inductive Txn where
  | unused
  | reserveBegun (now : Time) (h : Hold)
  | reserveLocked (now : Time) (h : Hold)
  | expired (now : Time) (h : Hold) (ids : List Uuid)
  | reserved (now : Time) (h : Hold) (ids : List Uuid) (row : ReservationRow)
  | reserveEnded (r : ReserveResult)
  | settleBegun (now : Time) (id : Uuid) (record : UsageRecord)
  | settleLocked (now : Time) (id : Uuid) (record : UsageRecord)
  | settled (now : Time) (id : Uuid) (record : UsageRecord) (c : Charge)
  | settleEnded (outcome : SettleOutcome)

/-- The rows an open transaction has written. -/
def Txn.written : Txn → List Uuid
  | .expired _ _ ids => ids
  | .reserved _ _ ids _ => ids
  | .settled _ id _ _ => [id]
  | _ => []

structure LedgerState where
  clock : Time
  reservations : ReservationTable
  usage : List UsageRow
  /-- The call that holds the advisory lock. -/
  holder : Option Nat
  txns : Nat → Txn
  /-- The usage rows settlements inserted, each with its reservation. -/
  settlements : List (Uuid × UsageRow)

def LedgerState.initial (clock : Time) : LedgerState :=
  ⟨clock, Table.empty, [], none, fun _ => .unused, []⟩

def LedgerState.setTxn (s : LedgerState) (n : Nat) (x : Txn) : LedgerState :=
  { s with txns := Function.update s.txns n x }

/-- The end of a call: its lock, if it has it, goes. -/
def LedgerState.endTxn (s : LedgerState) (n : Nat) (x : Txn) : LedgerState :=
  { s.setTxn n x with holder := s.holder.filter (fun m => m ≠ n) }

inductive LedgerAct where
  | tick (now : Time)
  | beginReserve (n : Nat) (q : ReserveRequest)
  | beginSettle (n : Nat) (reservation : BudgetReservation) (record : UsageRecord)
  | lock (n : Nat)
  | expire (n : Nat)
  | check (n : Nat) (id : Uuid)
  | transition (n : Nat)
  | commit (n : Nat)
  | abort (n : Nat)
  | release (reservation : BudgetReservation) (reason : String) (now : Time)

/-- The totals, the decision and the INSERT of `reserve`. -/
def checkHold (env : LedgerEnv) (s : LedgerState) (n : Nat) (now : Time) (h : Hold)
    (ids : List Uuid) (id : Uuid) : LedgerState :=
  let t := totals env (markExpired s.reservations ids) s.usage now
  if dailyCap env ≤ projectedTokens t h ∨ monthlyCap env ≤ projectedCost t h then
    s.endTxn n (.reserveEnded (.error
      (.exceeded (projectedTokens t h) (dailyCap env) (projectedCost t h) (monthlyCap env))))
  else s.setTxn n (.reserved now h ids (newReservation env now h id))

/-- The UPDATE of `settle`, and the end of a call whose UPDATE matches nothing. -/
def transitionRow (s : LedgerState) (n : Nat) (now : Time) (id : Uuid) (record : UsageRecord) :
    LedgerState :=
  match (s.reservations.get id).filter (fun r => settleable r) with
  | none => s.endTxn n (.settleEnded (unsettled s.reservations id))
  | some _ =>
    match record.charge with
    | none => s.endTxn n (.settleEnded .failed)
    | some c => s.setTxn n (.settled now id record c)

/-- COMMIT of `reserve`. -/
def commitReserve (env : LedgerEnv) (s : LedgerState) (n : Nat) (h : Hold) (ids : List Uuid)
    (row : ReservationRow) : Option LedgerState :=
  ((markExpired s.reservations ids).tryInsert row).map (fun reservations' =>
    { s.endTxn n (.reserveEnded (.ok (granted env h row.id))) with reservations := reservations' })

/-- The INSERT and the COMMIT of `settle`. -/
def commitSettle (env : LedgerEnv) (s : LedgerState) (n : Nat) (now : Time) (id : Uuid)
    (record : UsageRecord) (c : Charge) : LedgerState :=
  match usageRow env now record with
  | none => s.endTxn n (.settleEnded .failed)
  | some u =>
    { s.endTxn n (.settleEnded .succeeded) with
      reservations :=
        s.reservations.updateWhere (fun r => r.id = id) (settleRow now c) (fun _ => rfl)
      usage := s.usage ++ [u]
      settlements := s.settlements ++ [(id, u)] }

def ledgerStep (env : LedgerEnv) (s : LedgerState) : LedgerAct → Option LedgerState
  | .tick now => if s.clock ≤ now then some { s with clock := now } else none
  | .beginReserve n q =>
    match s.txns n with
    | .unused =>
      match q.hold with
      | none => some (s.endTxn n (.reserveEnded (.error .negativeEstimate)))
      | some h => some (s.setTxn n (.reserveBegun s.clock h))
    | _ => none
  | .beginSettle n reservation record =>
    -- without an id, `settle` is `record`, which is no part of this
    match s.txns n, reservation.id with
    | .unused, some id => some (s.setTxn n (.settleBegun s.clock id record))
    | _, _ => none
  | .lock n =>
    match s.holder, s.txns n with
    | none, .reserveBegun now h => some { s.setTxn n (.reserveLocked now h) with holder := some n }
    | none, .settleBegun now id record =>
      some { s.setTxn n (.settleLocked now id record) with holder := some n }
    | _, _ => none
  | .expire n =>
    match s.txns n with
    | .reserveLocked now h => some (s.setTxn n (.expired now h (expirableIds s.reservations now)))
    | _ => none
  | .check n id =>
    match s.txns n with
    | .expired now h ids => some (checkHold env s n now h ids id)
    | _ => none
  | .transition n =>
    match s.txns n with
    | .settleLocked now id record => some (transitionRow s n now id record)
    | _ => none
  | .commit n =>
    match s.txns n with
    | .reserved _ h ids row => commitReserve env s n h ids row
    | .settled now id record c => some (commitSettle env s n now id record c)
    | _ => none
  | .abort n =>
    match s.txns n with
    | .reserveBegun _ h | .reserveLocked _ h | .expired _ h _ | .reserved _ h _ _ =>
      some (s.endTxn n (.reserveEnded (unavailable env h)))
    | .settleBegun _ _ _ | .settleLocked _ _ _ | .settled _ _ _ _ =>
      some (s.endTxn n (.settleEnded .failed))
    | .unused | .reserveEnded _ | .settleEnded _ => none
  | .release reservation reason now =>
    match reservation.id with
    | none => some s
    | some id =>
      if s.clock < now ∨ ∃ n ∈ s.holder, id ∈ (s.txns n).written then none
      else some { s with reservations := release s.reservations now id reason }

end AgenticPlatform.Observability
