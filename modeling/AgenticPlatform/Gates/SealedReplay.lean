import AgenticPlatform.Gates.Cassette
import AgenticPlatform.Observability.LedgerAlone

/-!
# Calls in replay mode

A chat is answered from its recording and metered afterwards, without a reservation; an
embedding goes to the client that the cassette wraps, as in every mode. Calls come one
after the other; each leaves in the log what it did.
-/
namespace AgenticPlatform.Gates.Cassette
open AgenticPlatform.Foundation AgenticPlatform.Identity AgenticPlatform.Db AgenticPlatform.Ports
  AgenticPlatform.Observability

structure ReplayEnv where
  cassette : CassetteEnv
  directory : Directory
  caps : Tenant → Option TenantCaps
  settings : BudgetSettings
  calendar : Calendar
  tokenCount : String → String → Nat
  embeddingModel : String

def ReplayEnv.ledger (env : ReplayEnv) (tenant : Tenant) : LedgerEnv :=
  ⟨tenant, env.caps tenant, env.settings, env.calendar⟩

/-! ## Calls -/

/-- Who calls, with the labels of the context. -/
structure Caller where
  ctx : RequestContext
  workload : Option String
  task : Option String

structure EmbedCall where
  caller : Caller
  texts : List String
  model : Option String
  /-- The cancellation points before the reservation and before the dispatch raise. -/
  cancelled : Bool
  cancelledAgain : Bool
  /-- The database fails the reservation. -/
  down : Bool
  /-- The id that the INSERT of a reservation generates. -/
  reservationId : Uuid
  /-- The `usage` of the provider's response; `none` where the dispatch raises. -/
  provider : Option (Option Count)

inductive ReplayAct where
  | chat (now : Time) (caller : Caller) (request : Ports.ChatRequest)
  | embed (now : Time) (call : EmbedCall)

inductive CallResult where
  | returned
  | cassetteMiss
  | raised
deriving DecidableEq

/-- What a call did. -/
structure CallLog where
  tenantId : Uuid
  /-- The tenant had used up a cap when the call came. -/
  atCap : Bool
  /-- A chat whose request has no recording. -/
  missing : Bool
  reservation : Option BudgetReservation
  /-- The provider client was called. -/
  dispatched : Bool
  result : CallResult
deriving DecidableEq

structure ReplayState where
  tables : Tenant → LedgerTables
  log : List CallLog

/-- The record that `_record` makes. -/
def Caller.usageRecord (caller : Caller) (model : String) (inputTokens outputTokens : Int)
    (usageReported : Bool) : UsageRecord where
  principalId := caller.ctx.principal.id
  runId := caller.ctx.runId
  workload := caller.workload.getD "unknown"
  task := caller.task.getD "unknown"
  model := model
  inputTokens := inputTokens
  outputTokens := outputTokens
  costUsd := price model inputTokens outputTokens
  cacheHit := false
  usageReported := usageReported

section
variable (env : ReplayEnv)

def Caller.log (t : LedgerTables) (now : Time) (caller : Caller) (missing : Bool)
    (reservation : Option BudgetReservation) (dispatched : Bool) (result : CallResult) : CallLog :=
  ⟨caller.ctx.tenant.id, decide (AtCap (env.ledger caller.ctx.tenant) t now), missing, reservation,
    dispatched, result⟩

/-- `CassetteLLM.chat` in replay mode. -/
def replayChat (t : LedgerTables) (now : Time) (caller : Caller) (request : Ports.ChatRequest) :
    LedgerTables × CallLog :=
  let log := caller.log env t now
  match get env.cassette env.directory request with
  | .error .miss => (t, log true none false .cassetteMiss)
  | .error .unreadable => (t, log false none false .raised)
  | .ok i =>
    (recordAlone (env.ledger caller.ctx.tenant) t now
      (caller.usageRecord i.model i.inputTokens i.outputTokens true),
      log false none false .returned)

def EmbedCall.modelName (call : EmbedCall) : String := orDefault call.model env.embeddingModel

def EmbedCall.estimated (call : EmbedCall) : Int :=
  (call.texts.map (fun text => (env.tokenCount text (call.modelName env) : Int))).sum

def EmbedCall.reserveRequest (call : EmbedCall) : ReserveRequest where
  ctx := call.caller.ctx
  task := call.caller.task.getD ""
  model := call.modelName env
  estimatedTokens := call.estimated env
  estimatedCostUsd := price (call.modelName env) (call.estimated env) 0

def EmbedCall.reserve (t : LedgerTables) (now : Time) (call : EmbedCall) :
    LedgerTables × ReserveResult :=
  reserveAlone (env.ledger call.caller.ctx.tenant) t now call.reservationId call.down
    (call.reserveRequest env)

/-- `int(usage.prompt_tokens or estimated)`; `none` where it raises. -/
def EmbedCall.inputTokens (call : EmbedCall) (usage : Option Count) : Option Int :=
  match usage with
  | none | some .missing => some (call.estimated env)
  | some (.int n) => some (if n = 0 then call.estimated env else n)
  | some .unreadable => none

/-- `InstrumentedLLM.embed`, to which `CassetteLLM.embed` forwards. -/
def innerEmbed (t : LedgerTables) (now : Time) (call : EmbedCall) : LedgerTables × CallLog :=
  let log := call.caller.log env t now
  if call.cancelled then (t, log false none false .raised)
  else
    match call.reserve env t now with
    | (t, .error _) => (t, log false none false .raised)
    | (t, .ok b) =>
      if call.cancelledAgain then (t, log false (some b) false .raised)
      else
        match call.provider with
        | none => (t, log false (some b) true .raised)
        | some usage =>
          match call.inputTokens env usage with
          | none => (t, log false (some b) true .raised)
          | some n =>
            (settleAlone (env.ledger call.caller.ctx.tenant) t now b
              (call.caller.usageRecord (call.modelName env) n 0 usage.isSome),
              log false (some b) true .returned)

/-- The caller of a call, and what the call comes to on the tables of its tenant. -/
def ReplayAct.caller : ReplayAct → Caller
  | .chat _ caller _ => caller
  | .embed _ call => call.caller

def ReplayAct.perform (t : LedgerTables) : ReplayAct → LedgerTables × CallLog
  | .chat now caller request => replayChat env t now caller request
  | .embed now call => innerEmbed env t now call

def replayStep (s : ReplayState) (a : ReplayAct) : Option ReplayState :=
  let done := a.perform env (s.tables a.caller.ctx.tenant)
  some ⟨Function.update s.tables a.caller.ctx.tenant done.1, s.log ++ [done.2]⟩

end

/-! ## Sealed calls -/

/-- A call that stays off the network, misses loudly, and returns under a reservation only, so
never at a cap. -/
structure CallLog.Sealed (e : CallLog) : Prop where
  offline : e.dispatched = false
  missing : e.missing = true → e.result = .cassetteMiss
  reserved : e.result = .returned → ∃ b, e.reservation = some b ∧ b.tenantId = e.tenantId
  capped : e.atCap = true → e.result ≠ .returned

/-- The call does not get as far as an answer: a chat has no recording that can be read, an
embedding is cancelled or refused before its dispatch. -/
def ReplayAct.Stopped (env : ReplayEnv) (s : ReplayState) : ReplayAct → Prop
  | .chat _ _ request => (get env.cassette env.directory request).isOk = false
  | .embed now call =>
    call.cancelled = true ∨
      (call.reserve env (s.tables call.caller.ctx.tenant) now).2.isOk = false ∨
      call.cancelledAgain = true

instance (env : ReplayEnv) (s : ReplayState) : ∀ a : ReplayAct, Decidable (a.Stopped env s)
  | .chat _ _ _ => inferInstanceAs (Decidable (_ = _))
  | .embed _ _ => inferInstanceAs (Decidable (_ ∨ _ ∨ _))

variable {env : ReplayEnv} {s t : ReplayState}

/-- A call that raises before it is dispatched, or that misses, is sealed. -/
theorem sealed_log (tables : LedgerTables) (now : Time) (caller : Caller) {missing : Bool}
    {reservation : Option BudgetReservation} {result : CallResult}
    (hmissing : missing = true → result = .cassetteMiss) (hresult : result ≠ .returned) :
    (caller.log env tables now missing reservation false result).Sealed :=
  ⟨rfl, hmissing, fun h => absurd h hresult, fun _ => hresult⟩

theorem sealed_chat_iff (tables : LedgerTables) (now : Time) (caller : Caller)
    (request : Ports.ChatRequest) :
    (replayChat env tables now caller request).2.Sealed ↔
      (get env.cassette env.directory request).isOk = false := by
  unfold replayChat
  cases get env.cassette env.directory request with
  | error e =>
    refine iff_of_true ?_ rfl
    cases e with
    | miss => exact sealed_log tables now caller (fun _ => rfl) (by decide)
    | unreadable => exact sealed_log tables now caller (fun h => (by cases h)) (by decide)
  | ok i =>
    refine iff_of_false ?_ (fun h => (by cases h))
    intro hsealed
    obtain ⟨b, hb, -⟩ := hsealed.reserved rfl
    cases hb

theorem sealed_embed_iff (tables : LedgerTables) (now : Time) (call : EmbedCall) :
    (innerEmbed env tables now call).2.Sealed ↔ call.cancelled = true ∨
      (call.reserve env tables now).2.isOk = false ∨ call.cancelledAgain = true := by
  have hraised : ∀ {tables' reservation},
      (call.caller.log env tables' now false reservation false .raised).Sealed :=
    fun {tables' _} => sealed_log tables' now call.caller (fun h => (by cases h)) (by decide)
  have hdispatched : ∀ {tables' reservation result},
      ¬ (call.caller.log env tables' now false reservation true result).Sealed := by
    intro tables' reservation result hsealed
    cases hsealed.offline
  unfold innerEmbed
  cases hcancelled : call.cancelled with
  | true => exact iff_of_true hraised (Or.inl rfl)
  | false =>
    simp only [Bool.false_eq_true, if_false, false_or]
    cases call.reserve env tables now with
    | mk tables' result =>
      cases result with
      | error e => exact iff_of_true hraised (Or.inl rfl)
      | ok b =>
        cases hagain : call.cancelledAgain with
        | true => exact iff_of_true hraised (Or.inr rfl)
        | false =>
          refine iff_of_false ?_ (by rintro (h | h) <;> cases h)
          simp only [Bool.false_eq_true, if_false]
          split
          · exact hdispatched
          · split
            · exact hdispatched
            · exact hdispatched

/-- At a cap an embedding is refused, in replay mode as in any other. -/
theorem stopped_of_atCap {now : Time} {call : EmbedCall} (hup : call.down = false)
    (hcap : AtCap (env.ledger call.caller.ctx.tenant) (s.tables call.caller.ctx.tenant) now) :
    (ReplayAct.embed now call).Stopped env s := by
  refine Or.inr (Or.inl ?_)
  rw [EmbedCall.reserve, hup]
  exact refused_of_atCap hcap _ _

/-- One call. -/
theorem sealed_step_iff {a : ReplayAct} (h : replayStep env s a = some t) :
    (∀ e ∈ t.log, e.Sealed) ↔ (∀ e ∈ s.log, e.Sealed) ∧ a.Stopped env s := by
  cases h
  simp only [List.forall_mem_append, List.forall_mem_singleton]
  refine and_congr_right (fun _ => ?_)
  cases a with
  | chat now caller request => exact sealed_chat_iff _ now caller request
  | embed now call => exact sealed_embed_iff _ now call

/-- A replay is sealed and budgeted exactly where no call gets as far as an answer. -/
theorem replay_sealed_iff {acts : List ReplayAct} (hstart : s.log = [])
    (h : Reaches (replayStep env) s acts t) :
    (∀ e ∈ t.log, e.Sealed) ↔
      Reaches (restrict (fun s a => a.Stopped env s) (replayStep env)) s acts t := by
  have hrun : (∀ e ∈ t.log, e.Sealed) ↔ (∀ e ∈ s.log, e.Sealed) ∧
      Reaches (restrict (fun s a => a.Stopped env s) (replayStep env)) s acts t :=
    h.keeps_iff_restrict (I := fun _ => True) (P := fun s => ∀ e ∈ s.log, e.Sealed)
      (fun _ _ _ _ _ => trivial) (fun _ _ _ _ hstep => sealed_step_iff hstep) trivial
  rw [hrun, and_iff_right]
  intro e he
  rw [hstart] at he
  cases he

/-- A recorded chat is answered and metered, whatever the ledger says. -/
def ReplayState.answered (env : ReplayEnv) (s : ReplayState) (now : Time) (caller : Caller)
    (i : Interaction) : ReplayState where
  tables := Function.update s.tables caller.ctx.tenant
    (recordAlone (env.ledger caller.ctx.tenant) (s.tables caller.ctx.tenant) now
      (caller.usageRecord i.model i.inputTokens i.outputTokens true))
  log := s.log ++ [caller.log env (s.tables caller.ctx.tenant) now false none false .returned]

theorem replayStep_recorded {request : Ports.ChatRequest} {i : Interaction}
    (h : get env.cassette env.directory request = .ok i) (s : ReplayState) (now : Time)
    (caller : Caller) :
    replayStep env s (.chat now caller request) = some (s.answered env now caller i) := by
  simp only [replayStep, ReplayAct.perform, ReplayAct.caller, replayChat, h]
  rfl

/-! A cassette with one recording of twelve tokens, and a tenant with a cap of twelve a day. -/

def recordedTorque : Directory :=
  put plainCassette (fun _ => none) (torqueRequest none) (torqueResponse "stop" [])

def smallReplay : ReplayEnv where
  cassette := plainCassette
  directory := recordedTorque
  caps := fun _ => some ⟨some 12, none⟩
  settings :=
    { dailyTokenCap := 2000000
      monthlyCostCapUsd := 25
      budgetFailClosed := true
      budgetReservationTtlSeconds := 900
      release := "r1"
      ttl_bounds := smallTenant.settings.ttl_bounds }
  calendar := .gregorian
  tokenCount := fun text _ => text.length
  embeddingModel := "text-embedding-3-small"

def aliceCalls : Caller := ⟨aliceContext, none, some "eval"⟩

def unusedLedgers : ReplayState := ⟨fun _ => .empty, []⟩

/-- Three characters to embed. -/
def embedPump : EmbedCall :=
  ⟨aliceCalls, ["oil"], none, false, false, false, 1, some (some (.int 3))⟩

theorem replay_sealed_unrecorded :
    ∃ t, Reaches (replayStep smallReplay) unusedLedgers
      [.chat 10 aliceCalls (torqueRequest (some ⟨"5", by decide⟩))] t ∧
      ∀ e ∈ t.log, e.Sealed := by
  have hstopped : (ReplayAct.chat 10 aliceCalls (torqueRequest (some ⟨"5", by decide⟩))).Stopped
      smallReplay unusedLedgers := by
    decide +kernel
  have hrun : Reaches (restrict (fun s a => a.Stopped smallReplay s) (replayStep smallReplay))
      unusedLedgers [.chat 10 aliceCalls (torqueRequest (some ⟨"5", by decide⟩))] _ :=
    reaches_single.mpr (restrict_eq_some.mpr ⟨hstopped, rfl⟩)
  exact ⟨_, hrun.of_restrict, (replay_sealed_iff rfl hrun.of_restrict).mpr hrun⟩

def torqueInteraction : Interaction :=
  ⟨interactionKey plainKeys (torqueRequest none), "gpt-4o-mini", "5 Nm", 10, 2, "stop"⟩

theorem get_recordedTorque :
    get plainCassette recordedTorque (torqueRequest none) = .ok torqueInteraction := by
  have hempty : (fun _ => none : Directory)
      (interactionKey plainCassette.keys (torqueRequest none)) = none := rfl
  have hfile : put plainCassette (fun _ => none) (torqueRequest none) (torqueResponse "stop" []) _ =
      some _ := put_empty hempty
  exact get_entry hfile

/-- After a call. -/
def ReplayState.performed (env : ReplayEnv) (s : ReplayState) (a : ReplayAct) : ReplayState where
  tables := Function.update s.tables a.caller.ctx.tenant
    (a.perform env (s.tables a.caller.ctx.tenant)).1
  log := s.log ++ [(a.perform env (s.tables a.caller.ctx.tenant)).2]

theorem replayStep_performed (s : ReplayState) (a : ReplayAct) :
    replayStep env s a = some (s.performed env a) :=
  rfl

/-- After an embedding of three tokens. -/
def embedded : ReplayState := unusedLedgers.performed smallReplay (.embed 10 embedPump)

/-- An embedding reaches the provider, and a chat is answered without a reservation, and answered
again when the cap is used up. -/
theorem replay_answers_at_cap :
    ∃ t, Reaches (replayStep smallReplay) unusedLedgers [.embed 10 embedPump,
      .chat 20 aliceCalls (torqueRequest none), .chat 30 aliceCalls (torqueRequest none)] t ∧
      t.log.map (fun e => (e.atCap, e.reservation.isSome, e.dispatched, e.result)) =
      [(false, true, true, .returned), (false, false, false, .returned),
        (true, false, false, .returned)] ∧
      ¬ ∀ e ∈ t.log, e.Sealed := by
  have hrecorded : get smallReplay.cassette smallReplay.directory (torqueRequest none) =
      .ok torqueInteraction := by
    simp only [smallReplay, get_recordedTorque]
  have hembedded : replayStep smallReplay unusedLedgers (.embed 10 embedPump) = some embedded := by
    rw [replayStep_performed, embedded]
  have hfirst := replayStep_recorded hrecorded embedded 20 aliceCalls
  have hsecond :=
    replayStep_recorded hrecorded (embedded.answered smallReplay 20 aliceCalls torqueInteraction) 30
      aliceCalls
  have hlog : (((embedded.answered smallReplay 20 aliceCalls torqueInteraction).answered
      smallReplay 30 aliceCalls torqueInteraction).log.map
      (fun e => (e.atCap, e.reservation.isSome, e.dispatched, e.result))) =
      [(false, true, true, .returned), (false, false, false, .returned),
        (true, false, false, .returned)] := by
    decide +kernel
  refine ⟨_, reaches_cons.mpr
    ⟨_, hembedded, reaches_cons.mpr ⟨_, hfirst, reaches_single.mpr hsecond⟩⟩, hlog, ?_⟩
  intro hsealed
  have hdispatched := List.mem_cons_self (a := (false, true, true, CallResult.returned))
    (l := [(false, false, false, .returned), (true, false, false, .returned)])
  rw [← hlog] at hdispatched
  obtain ⟨e, he, hfields⟩ := List.mem_map.mp hdispatched
  have hoffline := (hsealed e he).offline
  rw [show e.dispatched = true from congrArg (fun x => x.2.2.1) hfields] at hoffline
  cases hoffline

end AgenticPlatform.Gates.Cassette
