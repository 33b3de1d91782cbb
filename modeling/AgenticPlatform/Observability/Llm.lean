import AgenticPlatform.Observability.LedgerCalls

/-!
# Chat calls and the ledger

The chain around a chat completion: the reservation, the cache, up to three dispatches,
the reading of the response, the settlement. Any number of calls of one tenant run
concurrently, their ledger transactions statement by statement. The provider's answers and
the cache's are arguments. No statement of the ledger fails of itself.
-/
namespace AgenticPlatform.Observability
open AgenticPlatform.Foundation AgenticPlatform.Identity AgenticPlatform.Db

/-! ## Prices -/

def modelPricing : List (String × ℚ × ℚ) :=
  [("gpt-4o", 0.0025, 0.01), ("gpt-4o-mini", 0.00015, 0.0006), ("gpt-4.1", 0.002, 0.008),
    ("gpt-4.1-mini", 0.0004, 0.0016), ("gpt-4.1-nano", 0.0001, 0.0004), ("gpt-5", 0.00125, 0.01),
    ("gpt-5-mini", 0.00025, 0.002), ("o3-mini", 0.0011, 0.0044),
    ("text-embedding-3-small", 0.00002, 0), ("text-embedding-3-large", 0.00013, 0)]

def unknownModelPricing : ℚ × ℚ := (0.0025, 0.01)

def rates (model : String) : ℚ × ℚ := (modelPricing.lookup model).getD unknownModelPricing

def price (model : String) (inputTokens outputTokens : Int) : ℚ :=
  (inputTokens * (rates model).1 + outputTokens * (rates model).2) / 1000

/-! ## Requests and responses -/

/-- What of a request the chain looks at; the rest goes to the provider as it is. -/
structure ChatRequest where
  model : String
  /-- `str(m.get("content", ""))` of every message. -/
  contents : List String
  maxTokens : Option Int
  cacheable : Bool
deriving DecidableEq

structure ChatCall where
  ctx : RequestContext
  /-- The labels `workload` and `task`, where the context has them. -/
  workload : Option String
  task : Option String
  request : ChatRequest
deriving DecidableEq

/-- A reported count: missing, null or zero, an integer, or something `int()` raises on. -/
inductive Count where
  | missing
  | int (n : Int)
  | unreadable
deriving DecidableEq

/-- `int(… or 0)`. -/
def Count.value : Count → Option Int
  | .missing => some 0
  | .int n => some n
  | .unreadable => none

structure ReportedUsage where
  promptTokens : Count
  completionTokens : Count
deriving DecidableEq

structure ProviderMessage where
  content : Option String
  /-- `none` where a tool call cannot be turned into a dictionary. -/
  toolCalls : Option (List Json)
deriving DecidableEq

/-- Without a message the choice has no content to read. -/
structure Choice where
  message : Option ProviderMessage
  finishReason : Option String
deriving DecidableEq

/-- An object that a dispatch returned; `choices` may be something without a first item. -/
structure ProviderResponse where
  usage : Option ReportedUsage
  choices : Option (List Choice)
deriving DecidableEq

/-- What is read of a response before it is metered. -/
structure ResponseData where
  inputTokens : Int
  outputTokens : Int
  content : String
  usageReported : Bool
deriving DecidableEq

def ProviderResponse.counts (r : ProviderResponse) : Option (Int × Int) :=
  match r.usage with
  | none => some (0, 0)
  | some u => u.promptTokens.value.bind
    (fun input => u.completionTokens.value.map (fun output => (input, output)))

def ProviderResponse.firstChoice (r : ProviderResponse) : Option Choice := r.choices.bind List.head?

/-- `none` where reading the counts, the first choice or its message raises. -/
def ProviderResponse.read (r : ProviderResponse) : Option ResponseData :=
  r.counts.bind (fun counts => (r.firstChoice.bind Choice.message).map (fun message =>
    { inputTokens := counts.1
      outputTokens := counts.2
      content := message.content.getD ""
      usageReported := r.usage.isSome }))

/-- What `chat` returns; the latency is not kept. -/
structure ChatResponse where
  content : String
  model : String
  inputTokens : Int
  outputTokens : Int
  usageReported : Bool
  costUsd : ℚ
  finishReason : String
  toolCalls : List Json
  attempts : Nat
deriving DecidableEq

/-- An empty text counts as none. -/
def orDefault (text : Option String) (default : String) : String :=
  (text.filter (fun t => t ≠ "")).getD default

/-- `none` where the tool calls raise, which is after the metering. -/
def chatResponse (model : String) (r : ProviderResponse) (d : ResponseData) (attempts : Nat) :
    Option ChatResponse :=
  r.firstChoice.bind
      (fun choice => (choice.message.bind ProviderMessage.toolCalls).map (fun toolCalls =>
    { content := d.content
      model := model
      inputTokens := d.inputTokens
      outputTokens := d.outputTokens
      usageReported := d.usageReported
      costUsd := price model d.inputTokens d.outputTokens
      finishReason := orDefault choice.finishReason "stop"
      toolCalls := toolCalls
      attempts := attempts }))

/-- 429, or from 500 on. -/
def transient (statusCode : Option Int) : Bool :=
  statusCode.any (fun status => status = 429 || 500 ≤ status)

structure LlmEnv where
  ledger : LedgerEnv
  tokenCount : String → String → Nat
  llmDefaultMaxOutputTokens : Int
  /-- The client was built with a cache. -/
  hasCache : Bool

def ChatCall.reserveRequest (env : LlmEnv) (q : ChatCall) : ReserveRequest :=
  let estimatedInput : Int :=
    (q.request.contents.map (fun text => (env.tokenCount text q.request.model : Int))).sum
  let estimatedOutput := q.request.maxTokens.getD env.llmDefaultMaxOutputTokens
  { ctx := q.ctx
    task := q.task.getD ""
    model := q.request.model
    estimatedTokens := estimatedInput + estimatedOutput
    estimatedCostUsd := price q.request.model estimatedInput estimatedOutput }

/-- The record that `_record` makes. -/
def ChatCall.usageRecord (q : ChatCall) (inputTokens outputTokens : Int)
    (cacheHit usageReported : Bool) : UsageRecord where
  principalId := q.ctx.principal.id
  runId := q.ctx.runId
  workload := q.workload.getD "unknown"
  task := q.task.getD "unknown"
  model := q.request.model
  inputTokens := inputTokens
  outputTokens := outputTokens
  costUsd := price q.request.model inputTokens outputTokens
  cacheHit := cacheHit
  usageReported := usageReported

def ChatCall.metered (q : ChatCall) (d : ResponseData) : UsageRecord :=
  q.usageRecord d.inputTokens d.outputTokens false d.usageReported

def ChatCall.cacheRecord (q : ChatCall) : UsageRecord := q.usageRecord 0 0 true true

/-! ## Calls -/

/-- How a call has ended. -/
inductive ChatEnd where
  /-- Cancelled before the reservation, or refused by it. -/
  | unreserved
  | cached (b : BudgetReservation)
  /-- Cancelled, or every dispatch raised. -/
  | undelivered (b : BudgetReservation)
  /-- Reading the response raised. -/
  | malformed (b : BudgetReservation) (r : ProviderResponse)
  /-- Returned, or raised over the tool calls. -/
  | answered (b : BudgetReservation) (r : ProviderResponse) (d : ResponseData)
    (response : Option ChatResponse)
deriving DecidableEq

/-- Where a call stands; the numbers are those of its ledger transactions. -/
inductive ChatPhase where
  | called
  | reserving (n : Nat)
  | reserved (b : BudgetReservation)
  /-- The cache has an answer. -/
  | hit (b : BudgetReservation)
  | released (b : BudgetReservation)
  | dispatching (b : BudgetReservation) (attempt : Nat)
  | delivered (b : BudgetReservation) (r : ProviderResponse) (attempts : Nat)
  | read (b : BudgetReservation) (r : ProviderResponse) (d : ResponseData) (attempts : Nat)
  | settling (b : BudgetReservation) (r : ProviderResponse) (d : ResponseData) (attempts n : Nat)
  | ended (e : ChatEnd)
deriving DecidableEq

structure ChatRow where
  call : ChatCall
  phase : ChatPhase
deriving DecidableEq

structure ChatState where
  ledger : LedgerState
  calls : Nat → Option ChatRow
  /-- The usage rows written without a reservation, each with its call. They count nothing. -/
  recorded : List (Nat × UsageRow)

inductive DispatchOutcome where
  | returned (r : ProviderResponse)
  | raised (statusCode : Option Int)
deriving DecidableEq

/-- What a call does next. -/
inductive ChatStep where
  | reserve (n : Nat)
  | reserved
  | lookup (hit : Bool)
  | release (now : Time)
  | record
  | dispatch (outcome : DispatchOutcome)
  | read
  | settle (n : Nat)
  | settled
  /-- A cancellation point raises. -/
  | cancel

inductive ChatAct where
  | call (i : Nat) (q : ChatCall)
  | step (i : Nat) (a : ChatStep)
  /-- A statement, or the clock. -/
  | ledger (a : LedgerAct)

def ChatState.initial (clock : Time) : ChatState := ⟨.initial clock, fun _ => none, []⟩

def ChatState.move (s : ChatState) (i : Nat) (q : ChatCall) (p : ChatPhase) : ChatState :=
  { s with calls := Function.update s.calls i (some ⟨q, p⟩) }

def cacheHitReason : String := "cache hit; no provider dispatch"

section
variable (env : LlmEnv)

def callStep (s : ChatState) (i : Nat) (q : ChatCall) : ChatPhase → ChatStep → Option ChatState
  | .called, .cancel => some (s.move i q (.ended .unreserved))
  | .called, .reserve n =>
    (ledgerStep env.ledger s.ledger (.beginReserve n (q.reserveRequest env))).map
      (fun ledger => { s with ledger := ledger }.move i q (.reserving n))
  | .reserving n, .reserved =>
    match s.ledger.txns n with
    | .reserveEnded (.ok b) => some (s.move i q (.reserved b))
    | .reserveEnded (.error _) => some (s.move i q (.ended .unreserved))
    | _ => none
  | .reserved b, .lookup hit =>
    if hit then if q.request.cacheable && env.hasCache then some (s.move i q (.hit b)) else none
    else some (s.move i q (.dispatching b 1))
  | .hit b, .release now =>
    (ledgerStep env.ledger s.ledger (.release b cacheHitReason now)).map
      (fun ledger => { s with ledger := ledger }.move i q (.released b))
  | .released b, .record =>
    -- A row that a CHECK refuses is logged and dropped.
    some ({ s with recorded := s.recorded ++
      ((usageRow env.ledger s.ledger.clock q.cacheRecord).toList.map (fun u => (i, u))) }.move
      i q (.ended (.cached b)))
  | .dispatching b _, .cancel => some (s.move i q (.ended (.undelivered b)))
  | .dispatching b attempt, .dispatch (.returned r) => some (s.move i q (.delivered b r attempt))
  | .dispatching b attempt, .dispatch (.raised statusCode) =>
    if transient statusCode ∧ attempt < 3 then some (s.move i q (.dispatching b (attempt + 1)))
    else some (s.move i q (.ended (.undelivered b)))
  | .delivered b r attempts, .read =>
    match r.read with
    | some d => some (s.move i q (.read b r d attempts))
    | none => some (s.move i q (.ended (.malformed b r)))
  | .read b r d attempts, .settle n =>
    (ledgerStep env.ledger s.ledger (.beginSettle n b (q.metered d))).map
      (fun ledger => { s with ledger := ledger }.move i q (.settling b r d attempts n))
  | .settling b r d attempts n, .settled =>
    match s.ledger.txns n with
    | .settleEnded _ =>
      some (s.move i q (.ended (.answered b r d (chatResponse q.request.model r d attempts))))
    | _ => none
  | _, _ => none

def chatStep (s : ChatState) : ChatAct → Option ChatState
  | .call i q => if (s.calls i).isNone then some (s.move i q .called) else none
  | .step i a => (s.calls i).bind (fun c => callStep env s i c.call c.phase a)
  | .ledger a =>
    if a.internal then (ledgerStep env.ledger s.ledger a).map
      (fun ledger => { s with ledger := ledger }) else none

end

/-! ## What a call has written -/

/-- The reservation that a call holds or has held. -/
def ChatPhase.reservation : ChatPhase → Option BudgetReservation
  | .called | .reserving _ | .ended .unreserved => none
  | .reserved b | .hit b | .released b | .dispatching b _ | .delivered b _ _ | .read b _ _ _ |
    .settling b _ _ _ _ => some b
  | .ended (.cached b) | .ended (.undelivered b) | .ended (.malformed b _) |
    .ended (.answered b _ _ _) => some b

/-- The response that a dispatch of the call has returned. -/
def ChatPhase.response : ChatPhase → Option ProviderResponse
  | .delivered _ r _ | .read _ r _ _ | .settling _ r _ _ _ | .ended (.malformed _ r) |
    .ended (.answered _ r _ _) => some r
  | _ => none

def ChatPhase.isEnded : ChatPhase → Bool
  | .ended _ => true
  | _ => false

def ChatPhase.answeredFromCache : ChatPhase → Bool
  | .ended (.cached _) => true
  | _ => false

def ChatState.recordedBy (s : ChatState) (i : Nat) : List UsageRow :=
  (s.recorded.filter (fun p => p.1 = i)).map Prod.snd

end AgenticPlatform.Observability
