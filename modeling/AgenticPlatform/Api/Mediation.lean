import AgenticPlatform.Api.Authorize

/-!
# Complete mediation

A request that reaches the handler of a guarded entry has passed every check of
`_authorize`, whatever the services answered.
-/
namespace AgenticPlatform.Api
open AgenticPlatform.Foundation AgenticPlatform.Identity AgenticPlatform.Observability

/-! ## What each check lets through -/

section
variable {env : ApiEnv} {w : World} {req : Request} {ctx : RequestContext} {template : String}
  {events events' : List Appended} {u : Unit}

theorem pure_ok {α : Type} {a b : α} :
    (pure a : Check α) events = (.ok b, events') ↔ a = b ∧ events = events' :=
  Gate.pass_ok

/-- The token that was presented, in the header or else in the cookie. -/
theorem authenticate_ok {principal : Principal}
    (h : authenticate env w req events = (.ok principal, events')) :
    ∃ token, (requestToken env req).1 = some token ∧
      decodeToken env.auth w.principals token = .ok principal := by
  unfold authenticate at h
  cases htoken : (requestToken env req).1.filter (fun token => token ≠ "") with
  | none =>
    rw [htoken] at h
    exact absurd h Gate.refuse_not_ok
  | some token =>
    rw [htoken] at h
    obtain ⟨htoken, -⟩ := Option.filter_eq_some_iff.mp htoken
    refine ⟨token, htoken, ?_⟩
    cases hdecode : decodeToken env.auth w.principals token with
    | ok p =>
      simp only [hdecode] at h
      rw [(pure_ok.mp h).1]
    | error failure =>
      simp only [hdecode] at h
      cases failure <;> exact absurd h Gate.refuse_not_ok

/-- A refusal that leaves an event behind is a refusal. -/
theorem record_refuse_not_ok {α : Type} {a : α} {x : Check Bool} {e : Exit} :
    ¬ (do let _ ← x; Gate.refuse e : Check α) events = (.ok a, events') := by
  intro h
  obtain ⟨_, _, -, hrefuse⟩ := Gate.bind_ok.mp h
  exact Gate.refuse_not_ok hrefuse

theorem checkOrigin_ok (h : checkOrigin env w req ctx template events = (.ok u, events'))
    (hcookie : (requestToken env req).2 = true) (hmethod : req.method ∉ safeMethods) :
    ∃ origin ∈ env.settings.browserAllowedOrigins, req.headers "origin" = some origin := by
  unfold checkOrigin at h
  rw [if_pos ⟨hcookie, hmethod⟩] at h
  by_cases horigin :
    (req.headers "origin").any (fun origin => origin ∈ env.settings.browserAllowedOrigins) = true
  · obtain ⟨origin, hheader, hallowed⟩ := (Option.any_eq_true _ _).mp horigin
    exact ⟨origin, of_decide_eq_true hallowed, hheader⟩
  · rw [if_neg horigin] at h
    exact absurd h record_refuse_not_ok

theorem checkRateLimit_ok (h : checkRateLimit env w req ctx template events = (.ok u, events'))
    (henabled : env.settings.rateLimitEnabled = true) :
    ∃ d, w.limiter ctx.tenant.id ctx.principal.id env.settings.authenticatedRequestsPerMinute =
      .decided d ∧
      d.allowed = true := by
  unfold checkRateLimit at h
  rw [if_pos henabled] at h
  cases hlimit :
      w.limiter ctx.tenant.id ctx.principal.id env.settings.authenticatedRequestsPerMinute with
  | unavailable | raised =>
    simp only [hlimit] at h
    exact absurd h Gate.refuse_not_ok
  | decided d =>
    simp only [hlimit] at h
    refine ⟨d, rfl, ?_⟩
    by_cases hallowed : d.allowed = true
    · exact hallowed
    · rw [if_neg hallowed] at h
      exact absurd h record_refuse_not_ok

theorem declaredPolicy_ok {policy : RoutePolicy}
    (h : declaredPolicy req template events = (.ok policy, events')) :
    policyFor req.method template = some policy := by
  unfold declaredPolicy at h
  cases hpolicy : policyFor req.method template with
  | none =>
    rw [hpolicy] at h
    exact absurd h Gate.refuse_not_ok
  | some declared =>
    rw [hpolicy] at h
    rw [(pure_ok.mp h).1]

/-- Where the resource of a request stands: in its declared place and nowhere else. -/
def ResourceDeclared (env : ApiEnv) (req : Request) (policy : RoutePolicy) (params : Params)
    (resource : Option String) : Prop :=
  match policy.resourceParam.filter (fun name => name ≠ "") with
  | none => resource = none
  | some name =>
    match policy.resourceLocation with
    | .body => ∃ bytes, req.body = some bytes ∧
        resource =
          match env.loads bytes with
          | .value payload => bodyField env name payload
          | _ => none
    | .pathOrQuery => resource = resourceInPath req params name

theorem resourceInBody_ok {name : String} {resource : Option String}
    (h : resourceInBody env req name events = (.ok resource, events')) :
    ∃ bytes, req.body = some bytes ∧
      resource =
        match env.loads bytes with
        | .value payload => bodyField env name payload
        | _ => none := by
  unfold resourceInBody at h
  cases hbody : req.body with
  | none =>
    rw [hbody] at h
    exact absurd h Gate.refuse_not_ok
  | some bytes =>
    rw [hbody] at h
    obtain ⟨_, _, -, h⟩ := Gate.bind_ok.mp h
    refine ⟨bytes, rfl, ?_⟩
    cases hloads : env.loads bytes with
    | raised =>
      simp only [hloads] at h
      exact absurd h Gate.refuse_not_ok
    | invalid | value payload =>
      simp only [hloads] at h
      exact (pure_ok.mp h).1.symm

theorem resourceOf_ok {policy : RoutePolicy} {params : Params} {resource : Option String}
    (h : resourceOf env req policy params events = (.ok resource, events')) :
    ResourceDeclared env req policy params resource := by
  unfold resourceOf at h
  unfold ResourceDeclared
  cases hname : policy.resourceParam.filter (fun name => name ≠ "") with
  | none =>
    rw [hname] at h
    exact (pure_ok.mp h).1.symm
  | some name =>
    cases hlocation : policy.resourceLocation with
    | body =>
      simp only [hname, hlocation] at h
      exact resourceInBody_ok h
    | pathOrQuery =>
      simp only [hname, hlocation] at h
      exact (pure_ok.mp h).1.symm

theorem requireAllowed_ok {capability : Capability} {resource : Option String}
    {reason : AccessReason}
    (h : requireAllowed env w req ctx template capability resource events = (.ok reason, events')) :
    w.allows ctx.principal capability resource = (true, reason) := by
  unfold requireAllowed at h
  cases hallows : w.allows ctx.principal capability resource with
  | mk permitted reason' =>
    simp only [hallows] at h
    by_cases hpermitted : permitted = true
    · rw [if_pos hpermitted] at h
      rw [hpermitted, (pure_ok.mp h).1]
    · rw [if_neg hpermitted] at h
      exact absurd h record_refuse_not_ok

theorem record_ok {action : String} {outcome : Outcome} {detail : List (String × Json)}
    {written : Bool}
    (h : record w ctx action outcome template detail events = (.ok written, events'))
    (hwritten : written = true) :
    (ctx.tenant.id, routeEvent ctx action outcome template detail) ∈ events' := by
  unfold record at h
  by_cases hup : w.auditUp (routeEvent ctx action outcome template detail) = true
  · rw [if_pos hup] at h
    obtain ⟨_, middle, hemit, hpure⟩ := Gate.bind_ok.mp h
    cases (pure_ok.mp hpure).2
    rw [Gate.emit_ok.mp hemit]
    exact List.mem_append_right _ List.mem_cons_self
  · rw [if_neg hup] at h
    rw [← (pure_ok.mp h).1] at hwritten
    cases hwritten

theorem auditAllowed_ok {capability : Capability} {reason : AccessReason} {resource : Option String}
    (h : auditAllowed env w req ctx template capability reason resource events = (.ok u, events'))
    (haudited : capability ∈ auditedCapabilities) (hclosed : env.settings.auditFailClosed = true) :
    (ctx.tenant.id, routeEvent ctx "authorization.decision" .allowed template
      (decisionDetail req capability reason resource)) ∈ events' := by
  unfold auditAllowed at h
  rw [if_pos haudited] at h
  obtain ⟨written, middle, hrecord, hensure⟩ := Gate.bind_ok.mp h
  obtain ⟨hwritten, rfl⟩ := Gate.ensure_ok.mp hensure
  refine record_ok hrecord (hwritten.resolve_right ?_)
  rw [hclosed]
  nofun

end

/-! ## The request that reaches its handler -/

/-- Everything that holds of a request in the handler of a guarded entry. -/
structure Mediated {η : Type} (env : ApiEnv) (w : World) (req : Request) (entry : RouteEntry η)
    (params : Params) (ctx : RequestContext) (events : List Appended) : Prop where
  authenticated : ∃ token, (requestToken env req).1 = some token ∧
    decodeToken env.auth w.principals token = .ok ctx.principal
  origin : (requestToken env req).2 = true → req.method ∉ safeMethods →
    ∃ origin ∈ env.settings.browserAllowedOrigins, req.headers "origin" = some origin
  admitted : env.settings.rateLimitEnabled = true →
    ∃ d, w.limiter ctx.tenant.id ctx.principal.id env.settings.authenticatedRequestsPerMinute =
    .decided d ∧
    d.allowed = true
  /-- Of exactly this method and template. -/
  allowed : ∃ policy resource reason, ((req.method, entry.template), policy) ∈ routeCapabilities ∧
    ResourceDeclared env req policy params resource ∧
    w.allows ctx.principal policy.capability resource = (true, reason) ∧
    (policy.capability ∈ auditedCapabilities → env.settings.auditFailClosed = true →
      (ctx.tenant.id, routeEvent ctx "authorization.decision" .allowed entry.template
        (decisionDetail req policy.capability reason resource)) ∈ events)

section
variable {η : Type} {env : ApiEnv} {w : World} {req : Request} {table : List (RouteEntry η)}
  {entry : RouteEntry η} {params : Params} {handed : Handed η} {events events' : List Appended}

theorem mem_of_lookup {α β : Type} [BEq α] [LawfulBEq α] {l : List (α × β)} {a : α} {b : β}
    (h : l.lookup a = some b) : (a, b) ∈ l := by
  induction l with
  | nil => cases h
  | cons p l ih =>
    rw [List.lookup_cons] at h
    split at h
    · rename_i ha
      cases h
      rw [beq_iff_eq.mp ha]
      exact List.mem_cons_self
    · exact List.mem_cons_of_mem p (ih h)

/-- Every check of a guarded entry, in the order in which they run. -/
theorem guardEntry_ok (hupper : upper req.method = req.method)
    (h : guardEntry env w req entry params events = (.ok handed, events')) :
    ∃ ctx, handed = .guarded entry ctx ∧ Mediated env w req entry params ctx events' := by
  unfold guardEntry at h
  obtain ⟨principal, _, hprincipal, h⟩ := Gate.bind_ok.mp h
  obtain ⟨_, _, horigin, h⟩ := Gate.bind_ok.mp h
  obtain ⟨_, _, hlimit, h⟩ := Gate.bind_ok.mp h
  obtain ⟨policy, _, hpolicy, h⟩ := Gate.bind_ok.mp h
  obtain ⟨resource, _, hresource, h⟩ := Gate.bind_ok.mp h
  obtain ⟨reason, _, hreason, h⟩ := Gate.bind_ok.mp h
  obtain ⟨_, _, haudit, h⟩ := Gate.bind_ok.mp h
  obtain ⟨rfl, rfl⟩ := pure_ok.mp h
  refine ⟨decisionContext w req principal, rfl, ?_⟩
  have hdeclared := declaredPolicy_ok hpolicy
  unfold policyFor at hdeclared
  rw [hupper] at hdeclared
  exact
    { authenticated := authenticate_ok hprincipal
      origin := checkOrigin_ok horigin
      admitted := checkRateLimit_ok hlimit
      allowed := ⟨policy, resource, reason, mem_of_lookup hdeclared, resourceOf_ok hresource,
        requireAllowed_ok hreason,
        auditAllowed_ok haudit⟩ }

/-- An entry of the table that a request selects is for its method. -/
theorem selected_method {routes : List (Route η)} (hbuild : buildRouteTable routes = .ok table)
    (hselect : selectEntry table req.method req.path = some (entry, params)) :
    upper req.method = req.method ∧ req.method ≠ "OPTIONS" := by
  have hfind : table.find? (fun e => e.answers req.method req.path) = some entry := by
    rw [← selectEntry_route, hselect]
    rfl
  have hmem := List.mem_of_find?_eq_some hfind
  rw [buildRouteTable_eq_ok hbuild, mem_sortedBy, List.mem_flatMap] at hmem
  obtain ⟨r, -, hr⟩ := hmem
  obtain ⟨m, hm, hkept, rfl⟩ := mem_entriesOf.mp hr
  have hanswers :=
    List.find?_some (p := fun e : RouteEntry η => e.answers req.method req.path) hfind
  obtain ⟨rfl, -⟩ := entry_answers.mp hanswers
  refine ⟨r.methods_upper _ hm, ?_⟩
  intro hoptions
  rw [hoptions] at hkept
  exact hkept (by decide)

/-- A request that reaches the handler of an entry that is not public has passed every check;
and where the state of principals is verified, its principal is enabled. -/
theorem handed_requests_are_mediated {routes : List (Route η)}
    (hbuild : buildRouteTable routes = .ok table)
    (hselect : selectEntry table req.method req.path = some (entry, params))
    (hguarded : isPublic entry.template = false)
    (hhanded : authorize env w req table [] = (.ok handed, events)) :
    ∃ ctx, handed = .guarded entry ctx ∧ Mediated env w req entry params ctx events ∧
      (env.auth.verifyPrincipalState = true → CurrentlyEnabled w.principals ctx.principal) := by
  obtain ⟨hupper, hoptions⟩ := selected_method hbuild hselect
  unfold authorize at hhanded
  obtain ⟨_, _, -, hhanded⟩ := Gate.bind_ok.mp hhanded
  rw [if_neg hoptions, hselect] at hhanded
  simp only [hguarded, Bool.false_eq_true, if_false] at hhanded
  obtain ⟨ctx, hctx, hmediated⟩ := guardEntry_ok hupper hhanded
  refine ⟨ctx, hctx, hmediated, ?_⟩
  intro hverify
  obtain ⟨token, -, hdecode⟩ := hmediated.authenticated
  exact enabled_of_decodeToken hdecode hverify

end

/-! ## A request for a run -/

def exampleClaims : Claims := ⟨"p", "t", "northwind", "viewer", ["viewer"], "human"⟩

/-- A token names principal 1 of tenant 1, an enabled one or not. -/
def exampleAuth (verify : Bool) : AuthEnv :=
  ⟨fun _ => some exampleClaims, fun _ => some 1, Char.isAlphanum, verify⟩

def exampleEnv (verify : Bool) : ApiEnv where
  auth := exampleAuth verify
  settings := .default
  parseInt := fun _ => none
  loads := fun _ => .invalid
  repr := fun _ => ""
  uuidText := fun _ => ""

def exampleWorld (disabledAt : Option Time) : World where
  principals := some ⟨[⟨1, 1, "viewer", "human", ["viewer"], disabledAt⟩], by simp⟩
  limiter := fun _ _ limit => .decided ⟨true, limit, limit, 0⟩
  grants := fun _ _ _ => false
  auditUp := fun _ => true
  requestId := 5

def exampleRequest : Request where
  method := "GET"
  path := "/api/runs/7"
  headers := fun name => if name = "authorization" then some "Bearer token" else none
  cookies := fun _ => none
  query := fun _ => none
  body := none

def exampleContext : RequestContext :=
  ⟨⟨1, ⟨1, "northwind"⟩, "viewer", [.viewer]⟩, 5, none, none, none⟩

theorem exampleSelect :
    selectEntry [runRoute.entry "GET", activeRoute.entry "GET"]
      exampleRequest.method exampleRequest.path =
      some (runRoute.entry "GET", [("run_id", "7")]) :=
  rfl

theorem exampleHanded (verify : Bool) (disabledAt : Option Time)
    (h : verify = true → disabledAt = none) :
    authorize (exampleEnv verify) (exampleWorld disabledAt) exampleRequest
      [runRoute.entry "GET", activeRoute.entry "GET"] [] =
      (.ok (.guarded (runRoute.entry "GET") exampleContext), []) := by
  cases verify with
  | false => rfl
  | true =>
    rw [h rfl]
    rfl

theorem handed_request_is_mediated :
    ∃ ctx, Handed.guarded (runRoute.entry "GET") exampleContext =
      .guarded (runRoute.entry "GET") ctx ∧
      Mediated (exampleEnv true) (exampleWorld none) exampleRequest
      (runRoute.entry "GET") [("run_id", "7")] ctx [] ∧
      (true = true → CurrentlyEnabled (exampleWorld none).principals ctx.principal) :=
  handed_requests_are_mediated runs_table exampleSelect (by decide +kernel)
    (exampleHanded true none (fun _ => rfl))

/-- With `verify_principal_state` off the token alone decides, and a disabled principal passes. -/
theorem disabled_principal_passes :
    ¬ ∀ env w req (routes : List (Route Nat)) table entry params (handed : Handed Nat) events,
      buildRouteTable routes = .ok table →
      selectEntry table req.method req.path = some (entry, params) →
      isPublic entry.template = false → authorize env w req table [] = (.ok handed, events) →
      ∃ ctx, handed = .guarded entry ctx ∧ CurrentlyEnabled w.principals ctx.principal := by
  intro h
  obtain ⟨ctx, -, rows, hrows, row, hrow, -, -, henabled, -⟩ :=
    h (exampleEnv false) (exampleWorld (some 0)) exampleRequest
    _ _ _ _ _ _ runs_table exampleSelect (by decide +kernel)
      (exampleHanded false (some 0) (fun h => (by cases h)))
  cases hrows
  rcases List.mem_singleton.mp hrow with rfl
  cases henabled

end AgenticPlatform.Api
