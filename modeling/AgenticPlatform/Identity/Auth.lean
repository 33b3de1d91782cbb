import AgenticPlatform.Foundation.Table
import AgenticPlatform.Foundation.Text
import AgenticPlatform.Identity.Principal
import AgenticPlatform.Settings

/-!
# Tokens

A token is verified by the JWT library, which is a parameter, and its claims name a
principal; the row of that principal says whether it is still enabled and which roles it
has.
-/
namespace AgenticPlatform.Identity
open AgenticPlatform.Foundation

inductive ActorType where
  | human | service | job
deriving DecidableEq

def ActorType.ofText : String → Option ActorType
  | "human" => some .human
  | "service" => some .service
  | "job" => some .job
  | _ => none

def Role.ofText : String → Option Role
  | "owner" => some .owner
  | "operator" => some .operator
  | "reviewer" => some .reviewer
  | "viewer" => some .viewer
  | "service" => some .service
  | _ => none

/-- The claims of a verified token, as `issue_token` writes them. -/
structure Claims where
  sub : String
  tid : String
  tsl : String
  sbj : String
  rol : List String
  typ : String

/-- A row of `principal`. -/
structure PrincipalRow where
  id : Uuid
  tenantId : Uuid
  subject : String
  actorType : String
  roles : List String
  disabledAt : Option Time

abbrev PrincipalTable := Table PrincipalRow PrincipalRow.id

/-- `jwtDecode` answers `none` where the library raises a `PyJWTError`. -/
structure AuthEnv where
  jwtDecode : String → Option Claims
  parseUuid : String → Option Uuid
  isAlnum : Char → Bool
  verifyPrincipalState : Bool

inductive AuthFailure where
  | authenticationError (text : String)
  | backendUnavailable
  /-- An exception that no caller expects. -/
  | raised
deriving DecidableEq

def tokenFromHeader (authorization : Option String) : Option String :=
  authorization.bind (fun header =>
    let (scheme, credentials) := partition ' ' header
    if lower scheme = "bearer" ∧ strip credentials ≠ "" then some (strip credentials) else none)

/-- What `Tenant.__post_init__` accepts. -/
def isTenantSlug (env : AuthEnv) (slug : String) : Bool :=
  let letters := slug.toList.filter (fun c => c ≠ '-' ∧ c ≠ '_')
  !letters.isEmpty && letters.all env.isAlnum

def malformed : AuthFailure := .authenticationError "token claims are malformed"
def invalidToken : AuthFailure := .authenticationError "invalid or expired token"
def staleToken : AuthFailure := .authenticationError "token identity is stale"

def readClaims (env : AuthEnv) (claims : Claims) : Except AuthFailure (Tenant × Uuid × ActorType) :=
  match env.parseUuid claims.tid, env.parseUuid claims.sub, ActorType.ofText claims.typ with
  | some tid, some sub, some typ =>
    if isTenantSlug env claims.tsl then .ok (⟨tid, claims.tsl⟩, sub, typ) else .error malformed
  | _, _, _ => .error malformed

/-- The principal of an enabled row that is the one the token was issued for. -/
def currentPrincipal (claims : Claims) (tenant : Tenant) (typ : ActorType) (row : PrincipalRow) :
    Except AuthFailure Principal :=
  if row.subject ≠ claims.sbj then .error staleToken
  else
    match ActorType.ofText row.actorType with
    | none => .error .raised
    | some actorType =>
      if actorType ≠ typ then .error staleToken
      else
        match row.roles.mapM Role.ofText with
        | none => .error (.authenticationError "principal has an invalid role")
        | some roles => .ok ⟨row.id, tenant, row.subject, roles⟩

/-- `principals` is `none` where the query fails. -/
def decodeToken (env : AuthEnv) (principals : Option PrincipalTable) (token : String) :
    Except AuthFailure Principal :=
  match env.jwtDecode token with
  | none => .error invalidToken
  | some claims =>
    match readClaims env claims with
    | .error e => .error e
    | .ok (tenant, principalId, typ) =>
      if env.verifyPrincipalState then
        match principals with
        | none => .error .backendUnavailable
        | some rows =>
          match (rows.get principalId).filter
              (fun row => row.tenantId = tenant.id ∧ row.disabledAt = none) with
          | none => .error invalidToken
          | some row => currentPrincipal claims tenant typ row
      else
        match claims.rol.mapM Role.ofText with
        | none => .error malformed
        | some roles => .ok ⟨principalId, tenant, claims.sbj, roles⟩

/-- What the database says of a principal. -/
def CurrentlyEnabled (principals : Option PrincipalTable) (p : Principal) : Prop :=
  ∃ rows, principals = some rows ∧ ∃ row ∈ rows.rows, row.id = p.id ∧ row.tenantId = p.tenant.id ∧
    row.disabledAt = none ∧ row.subject = p.subject ∧ row.roles.mapM Role.ofText = some p.roles

theorem currentPrincipal_eq_ok {claims : Claims} {tenant : Tenant} {typ : ActorType}
    {row : PrincipalRow} {p : Principal} (h : currentPrincipal claims tenant typ row = .ok p) :
    ∃ roles, row.roles.mapM Role.ofText = some roles ∧
      p = ⟨row.id, tenant, row.subject, roles⟩ := by
  unfold currentPrincipal at h
  split at h
  · cases h
  · split at h
    · cases h
    · split at h
      · cases h
      · split at h
        · cases h
        · rename_i roles hroles
          cases h
          exact ⟨roles, hroles, rfl⟩

/-- The state of the principal is what the database says now, not what the token says. -/
theorem enabled_of_decodeToken {env : AuthEnv} {principals : Option PrincipalTable} {token : String}
    {p : Principal} (h : decodeToken env principals token = .ok p)
    (hverify : env.verifyPrincipalState = true) : CurrentlyEnabled principals p := by
  unfold decodeToken at h
  split at h
  · cases h
  · split at h
    · cases h
    · rw [if_pos hverify] at h
      split at h
      · cases h
      · split at h
        · cases h
        · rename_i rows _ row hrow
          obtain ⟨roles, hroles, rfl⟩ := currentPrincipal_eq_ok h
          obtain ⟨hget, hrow⟩ := Option.filter_eq_some_iff.mp hrow
          obtain ⟨htenant, henabled⟩ := of_decide_eq_true hrow
          exact ⟨rows, rfl, row, (Table.get_eq_some.mp hget).1, rfl, htenant, henabled, rfl, hroles⟩

end AgenticPlatform.Identity
