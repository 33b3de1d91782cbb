import AgenticPlatform.Api.Policy
import AgenticPlatform.Api.RouteTable
import AgenticPlatform.Corpus.Documents
import AgenticPlatform.Foundation.Gate
import AgenticPlatform.Identity.Auth
import AgenticPlatform.Observability.Audit

/-!
# The authorisation of a request

`_authorize` runs before any handler. What the token library, the database, the limiter,
the grants table and the audit log answer during the request is given; each may refuse or
fail. The events of a gate are the rows it appended to the audit log.
-/
namespace AgenticPlatform.Api
open AgenticPlatform.Foundation AgenticPlatform.Identity AgenticPlatform.Observability
open AgenticPlatform.Corpus (Bytes)

/-! ## Requests and answers -/

/-- Header names are in lower case; the body is `none` where the client disconnects. -/
structure Request where
  method : String
  path : String
  headers : String → Option String
  cookies : String → Option String
  query : String → Option String
  body : Option Bytes

structure Refusal where
  status : Nat
  detail : String
  code : String
  headers : List (String × String) := []
deriving DecidableEq

inductive Exit where
  | respond (r : Refusal)
  /-- An exception, which the server answers with 500. -/
  | raised
deriving DecidableEq

structure ApiSettings where
  maxRequestBodyBytes : Nat
  authCookieName : String
  browserAllowedOrigins : List String
  rateLimitEnabled : Bool
  authenticatedRequestsPerMinute : Nat
  auditFailClosed : Bool
  body_bound : 1024 ≤ maxRequestBodyBytes
  rate_bound : 1 ≤ authenticatedRequestsPerMinute

def ApiSettings.default : ApiSettings where
  maxRequestBodyBytes := 72 * 1024 * 1024
  authCookieName := "platform_session"
  browserAllowedOrigins := ["http://127.0.0.1:3000", "http://localhost:3000"]
  rateLimitEnabled := true
  authenticatedRequestsPerMinute := 600
  auditFailClosed := true
  body_bound := by decide
  rate_bound := by decide

/-- What `request.json()` makes of the bytes. -/
inductive Loaded where
  | value (v : Json)
  /-- `UnicodeDecodeError` or `ValueError`. -/
  | invalid
  | raised

structure ApiEnv where
  auth : AuthEnv
  settings : ApiSettings
  parseInt : String → Option Int
  loads : Bytes → Loaded
  repr : Json → String
  uuidText : Uuid → String

structure LimitDecision where
  allowed : Bool
  limit : Nat
  remaining : Nat
  retryAfterSeconds : Nat
deriving DecidableEq

inductive LimitAnswer where
  | decided (d : LimitDecision)
  /-- `RateLimitUnavailable`. -/
  | unavailable
  | raised
deriving DecidableEq

/-- What the services answer during the request. A lookup of grants that fails answers no. -/
structure World where
  principals : Option PrincipalTable
  limiter : Uuid → Uuid → Nat → LimitAnswer
  grants : Principal → Capability → String → Bool
  auditUp : AppendRequest → Bool
  requestId : Uuid

/-- An appended row of the audit log, under its tenant. -/
abbrev Appended := Uuid × AppendRequest

abbrev Check := Gate Appended Exit

inductive Handed (η : Type) where
  /-- No entry: the router answers. -/
  | unmatched
  | publicRoute (entry : RouteEntry η)
  | guarded (entry : RouteEntry η) (ctx : RequestContext)

/-! ## The refusals -/

def invalidContentLength : Exit := .respond ⟨400, "Invalid Content-Length.", "invalid_request", []⟩
def bodyTooLarge : Exit := .respond ⟨413, "Request body is too large.", "body_too_large", []⟩

def identityUnavailable : Exit :=
  .respond ⟨503, "Identity verification is temporarily unavailable.", "identity_unavailable",
    [("Retry-After", "5")]⟩

def unauthenticated : Exit :=
  .respond ⟨401, "Authentication required.", "unauthenticated", [("WWW-Authenticate", "Bearer")]⟩

def csrfRefused (requestId : String) : Exit :=
  .respond ⟨403, "Cross-origin request refused.", "csrf_refused", [("X-Request-ID", requestId)]⟩

def admissionUnavailable : Exit :=
  .respond ⟨503, "Admission control is temporarily unavailable.", "admission_control_unavailable",
    [("Retry-After", "5")]⟩

def rateLimited (d : LimitDecision) (requestId : String) : Exit :=
  .respond ⟨429, "Request rate exceeded.", "rate_limited",
    [("Retry-After", toString d.retryAfterSeconds), ("RateLimit-Limit", toString d.limit),
      ("RateLimit-Remaining", "0"), ("X-Request-ID", requestId)]⟩

def undeclaredRoute : Exit :=
  .respond ⟨403, "This route has no authorisation policy and is refused.", "undeclared_route", []⟩

def forbidden (capability : Capability) (requestId : String) : Exit :=
  .respond ⟨403, "This action requires " ++ capability.text ++ ".", "forbidden",
    [("X-Request-ID", requestId)]⟩

def auditUnavailable (requestId : String) : Exit :=
  .respond ⟨503, "Mandatory audit logging is temporarily unavailable.", "audit_unavailable",
    [("Retry-After", "5"), ("X-Request-ID", requestId)]⟩

/-! ## The checks -/

def auditedCapabilities : List Capability :=
  [.documentIngest, .documentDelete, .dataErase, .runCancel, .evalRun, .schemaAuthor,
    .schemaApprove, .budgetManage, .memberManage, .releasePromote, .toolInvokeWrite, .toolApprove]

/-- Cookies carry no state change on these from elsewhere. -/
def safeMethods : List String := ["GET", "HEAD", "OPTIONS"]

section
variable (env : ApiEnv) (w : World) (req : Request)

def checkContentLength : Check Unit :=
  match req.headers "content-length" with
  | none => pure ()
  | some text =>
    if text = "" then pure ()
    else
      match env.parseInt text with
      | none => Gate.refuse invalidContentLength
      | some size => Gate.ensure (0 ≤ size ∧ size ≤ env.settings.maxRequestBodyBytes) bodyTooLarge

/-- The token, and whether it came in the cookie. -/
def requestToken : Option String × Bool :=
  match tokenFromHeader (req.headers "authorization") with
  | some token => (some token, false)
  | none => (req.cookies env.settings.authCookieName,
    (req.cookies env.settings.authCookieName).isSome)

def authenticate : Check Principal :=
  match (requestToken env req).1.filter (fun token => token ≠ "") with
  | none => Gate.refuse unauthenticated
  | some token =>
    match decodeToken env.auth w.principals token with
    | .ok principal => pure principal
    | .error (.authenticationError _) => Gate.refuse unauthenticated
    | .error .backendUnavailable => Gate.refuse identityUnavailable
    | .error .raised => Gate.refuse .raised

def decisionContext (principal : Principal) : RequestContext where
  principal := principal
  requestId := w.requestId
  runId := none
  idempotencyKey := req.headers "idempotency-key"
  correlationId := none

/-- What the middleware records of a request. -/
def routeEvent (ctx : RequestContext) (action : String) (outcome : Outcome) (template : String)
    (detail : List (String × Json)) : AppendRequest where
  principalId := ctx.principal.id
  actorSubject := ctx.principal.subject
  action := action
  resourceType := some "route"
  resourceId := some template
  outcome := outcome
  detail := some (.obj detail)
  requestId := some ctx.requestId
  runId := ctx.runId

/-- `audit.record`: whether the event could be written. -/
def record (ctx : RequestContext) (action : String) (outcome : Outcome) (template : String)
    (detail : List (String × Json)) : Check Bool :=
  if w.auditUp (routeEvent ctx action outcome template detail) then do
    Gate.emit (ctx.tenant.id, routeEvent ctx action outcome template detail)
    pure true
  else pure false

def checkOrigin (ctx : RequestContext) (template : String) : Check Unit :=
  if (requestToken env req).2 ∧ req.method ∉ safeMethods then
    if (req.headers "origin").any
      (fun origin => origin ∈ env.settings.browserAllowedOrigins) then pure ()
    else do
      let _ ← record w ctx "authorization.csrf" .denied template
        [("method", .str req.method), ("reason", .str "origin not allowed")]
      Gate.refuse (csrfRefused (env.uuidText ctx.requestId))
  else pure ()

def checkRateLimit (ctx : RequestContext) (template : String) : Check Unit :=
  if env.settings.rateLimitEnabled then
    match w.limiter ctx.tenant.id ctx.principal.id env.settings.authenticatedRequestsPerMinute with
    | .unavailable => Gate.refuse admissionUnavailable
    | .raised => Gate.refuse .raised
    | .decided d =>
      if d.allowed then pure ()
      else do
        let _ ← record w ctx "admission.rate_limit" .denied template [("method", .str req.method)]
        Gate.refuse (rateLimited d (env.uuidText ctx.requestId))
  else pure ()

def declaredPolicy (template : String) : Check RoutePolicy :=
  match policyFor req.method template with
  | none => Gate.refuse undeclaredRoute
  | some policy => pure policy

/-- `str` of a value that is not null. -/
def valueText (v : Json) : Option String :=
  match v with
  | .null => none
  | .str text => some text
  | v => some (env.repr v)

def bodyField (name : String) : Json → Option String
  | .obj fields => (fields.lookup name).bind (valueText env)
  | _ => none

def resourceInBody (name : String) : Check (Option String) :=
  match req.body with
  | none => Gate.refuse .raised
  | some bytes => do
    Gate.ensure (bytes.length ≤ env.settings.maxRequestBodyBytes) bodyTooLarge
    match env.loads bytes with
    | .raised => Gate.refuse .raised
    | .invalid => pure none
    | .value payload => pure (bodyField env name payload)

def resourceInPath (params : Params) (name : String) : Option String :=
  ((params.lookup name).filter (fun value => value ≠ "")).or (req.query name)

def resourceOf (policy : RoutePolicy) (params : Params) : Check (Option String) :=
  match policy.resourceParam.filter (fun name => name ≠ "") with
  | none => pure none
  | some name =>
    match policy.resourceLocation with
    | .body => resourceInBody env req name
    | .pathOrQuery => pure (resourceInPath req params name)

def decisionDetail (capability : Capability) (reason : AccessReason) (resource : Option String) :
    List (String × Json) :=
  [("method", .str req.method), ("capability", .str capability.text), ("reason", .str reason.text),
    ("resource", jsonOfOption resource)]

def World.allows (principal : Principal) (capability : Capability) (resource : Option String) :
    Bool × AccessReason :=
  Identity.allows principal capability resource none (resource.any (w.grants principal capability))

def requireAllowed (ctx : RequestContext) (template : String) (capability : Capability)
    (resource : Option String) : Check AccessReason :=
  let (permitted, reason) := w.allows ctx.principal capability resource
  if permitted then pure reason
  else do
    let _ ← record w ctx "authorization.decision" .denied template
      (decisionDetail req capability reason resource)
    Gate.refuse (forbidden capability (env.uuidText ctx.requestId))

def auditAllowed (ctx : RequestContext) (template : String) (capability : Capability)
    (reason : AccessReason) (resource : Option String) : Check Unit :=
  if capability ∈ auditedCapabilities then do
    let written ← record w ctx "authorization.decision" .allowed template
      (decisionDetail req capability reason resource)
    Gate.ensure (written = true ∨ env.settings.auditFailClosed = false)
      (auditUnavailable (env.uuidText ctx.requestId))
  else pure ()

variable {η : Type} (table : List (RouteEntry η))

/-- The checks of an entry that is not public. -/
def guardEntry (entry : RouteEntry η) (params : Params) : Check (Handed η) := do
  let principal ← authenticate env w req
  let ctx := decisionContext w req principal
  checkOrigin env w req ctx entry.template
  checkRateLimit env w req ctx entry.template
  let policy ← declaredPolicy req entry.template
  let resource ← resourceOf env req policy params
  let reason ← requireAllowed env w req ctx entry.template policy.capability resource
  auditAllowed env w req ctx entry.template policy.capability reason resource
  pure (.guarded entry ctx)

/-- `_authorize`, up to `call_next`. -/
def authorize : Check (Handed η) := do
  checkContentLength env req
  if req.method = "OPTIONS" then pure .unmatched
  else
    match selectEntry table req.method req.path with
    | none => pure .unmatched
    | some (entry, params) =>
      if isPublic entry.template then pure (.publicRoute entry)
      else guardEntry env w req entry params

end
end AgenticPlatform.Api
