import AgenticPlatform.Foundation.Json

/-!
# Who is asking

Tenants, principals and the request context every operation is handed. Only the
fields the modelled operations read are kept.
-/
namespace AgenticPlatform.Identity

/-- A random identifier; only its equality is ever used. -/
abbrev Uuid := Nat

structure Tenant where
  id : Uuid
  slug : String
deriving DecidableEq

inductive Role where
  | owner | operator | reviewer | viewer | service
deriving DecidableEq

structure Principal where
  id : Uuid
  tenant : Tenant
  subject : String
  roles : List Role
deriving DecidableEq

structure RequestContext where
  principal : Principal
  requestId : Uuid
  runId : Option Uuid
  idempotencyKey : Option String
  correlationId : Option Uuid
deriving DecidableEq

def RequestContext.tenant (ctx : RequestContext) : Tenant := ctx.principal.tenant

end AgenticPlatform.Identity
