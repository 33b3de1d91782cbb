import AgenticPlatform.Identity.Principal

/-!
# What an actor may do

Roles map to capabilities, capabilities can also be granted on a resource, and two
of them are never exercised by the subject of the request. Whether the grants table
holds an unexpired grant is an answer of the database; a lookup that fails counts
as no grant.
-/
namespace AgenticPlatform.Identity

inductive Capability where
  | sessionRead | queryRead | documentRead | runRead | evalRead | usageRead | auditRead | schemaRead
  | documentIngest | documentDelete | dataErase | runCancel | evalRun
  | schemaAuthor | schemaApprove | budgetManage | memberManage | releasePromote
  | toolInvokeReadonly | toolInvokeWrite | toolApprove
deriving DecidableEq

def Capability.text : Capability → String
  | .sessionRead => "session:read"
  | .queryRead => "query:read"
  | .documentRead => "document:read"
  | .runRead => "run:read"
  | .evalRead => "eval:read"
  | .usageRead => "usage:read"
  | .auditRead => "audit:read"
  | .schemaRead => "schema:read"
  | .documentIngest => "document:ingest"
  | .documentDelete => "document:delete"
  | .dataErase => "data:erase"
  | .runCancel => "run:cancel"
  | .evalRun => "eval:run"
  | .schemaAuthor => "schema:author"
  | .schemaApprove => "schema:approve"
  | .budgetManage => "budget:manage"
  | .memberManage => "member:manage"
  | .releasePromote => "release:promote"
  | .toolInvokeReadonly => "tool:invoke:readonly"
  | .toolInvokeWrite => "tool:invoke:write"
  | .toolApprove => "tool:approve"

/-- The policy; `none` stands for every capability. -/
def roleCapabilities : Role → Option (List Capability)
  | .owner => none
  | .operator =>
    some [.sessionRead, .queryRead, .documentRead, .documentIngest, .runRead, .runCancel, .evalRead,
      .evalRun, .usageRead, .schemaRead, .toolInvokeReadonly]
  | .reviewer =>
    some [.sessionRead, .queryRead, .documentRead, .runRead, .evalRead, .schemaRead, .schemaApprove,
      .toolApprove, .auditRead]
  | .viewer => some [.sessionRead, .queryRead, .documentRead, .runRead, .evalRead]
  | .service => some []

def selfApprovalForbidden : List Capability := [.schemaApprove, .toolApprove]

/-- Whether some role of the principal carries the capability. -/
def capabilitiesOf (principal : Principal) (capability : Capability) : Bool :=
  principal.roles.any (fun role => (roleCapabilities role).elim true (fun cs => capability ∈ cs))

inductive AccessReason where
  | selfApproval | roleGrant | resourceGrant | noGrant
deriving DecidableEq

def AccessReason.text : AccessReason → String
  | .selfApproval => "self-approval forbidden"
  | .roleGrant => "role grant"
  | .resourceGrant => "resource grant"
  | .noGrant => "no grant"

/-- The decision and the reason for it. `hasGrant` is the answer of the grants table,
asked only where a resource is named. -/
def allows (principal : Principal) (capability : Capability) (resource : Option String)
    (subject : Option Uuid) (hasGrant : Bool) : Bool × AccessReason :=
  if capability ∈ selfApprovalForbidden ∧ subject = some principal.id then (false, .selfApproval)
  else if capabilitiesOf principal capability then (true, .roleGrant)
  else if (resource ≠ none ∧ resource ≠ some "") ∧ hasGrant then (true, .resourceGrant)
  else (false, .noGrant)

/-- Maker cannot be checker, whatever roles and grants the maker has. -/
theorem not_self_of_allows {principal : Principal} {capability : Capability}
    {resource : Option String} {subject : Uuid} {hasGrant : Bool}
    (hcap : capability ∈ selfApprovalForbidden)
    (h : (allows principal capability resource (some subject) hasGrant).1 = true) :
    principal.id ≠ subject := by
  intro he
  rw [allows, if_pos ⟨hcap, congrArg some he.symm⟩] at h
  cases h

end AgenticPlatform.Identity
