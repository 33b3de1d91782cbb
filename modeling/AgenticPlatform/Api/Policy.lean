import AgenticPlatform.Foundation.StableSort
import AgenticPlatform.Foundation.Text
import AgenticPlatform.Identity.Capabilities
import Mathlib.Data.Prod.Lex
import Mathlib.Data.String.Basic

/-!
# The policy of the routes

One table: which capability a route takes, and where its resource is named. A route that
is neither in it nor public is refused.
-/
namespace AgenticPlatform.Api
open AgenticPlatform.Foundation AgenticPlatform.Identity

def publicPaths : List String :=
  ["/health", "/health/ready", "/auth/login", "/docs", "/openapi.json", "/redoc"]

inductive ResourceLocation where
  | pathOrQuery | body
deriving DecidableEq

structure RoutePolicy where
  capability : Capability
  resourceParam : Option String := none
  resourceLocation : ResourceLocation := .pathOrQuery
deriving DecidableEq

/-- Method and template to the policy. -/
def routeCapabilities : List ((String × String) × RoutePolicy) :=
  [
    (("GET", "/auth/me"), { capability := .sessionRead }),
    (("POST", "/auth/logout"), { capability := .sessionRead }),
    (("GET", "/api/runs"), { capability := .runRead }),
    (("GET", "/api/runs/\x7brun_id\x7d"), { capability := .runRead }),
    (("POST", "/api/runs/\x7brun_id\x7d/cancel"), { capability := .runCancel }),
    (("GET", "/api/documents"), { capability := .documentRead }),
    (("GET", "/api/documents/\x7bdocument_id\x7d"), { capability := .documentRead }),
    (("POST", "/api/documents"),
      { capability := .documentIngest,
        resourceParam := some "collection", resourceLocation := .body }),
    (("DELETE", "/api/documents/\x7bdocument_id\x7d"), { capability := .documentDelete }),
    (("DELETE", "/api/documents/\x7bdocument_id\x7d/purge"), { capability := .dataErase }),
    (("POST", "/api/query"), { capability := .queryRead }),
    (("GET", "/api/usage"), { capability := .usageRead }),
    (("PUT", "/api/usage/caps"), { capability := .budgetManage }),
    (("GET", "/api/audit"), { capability := .auditRead }),
    (("GET", "/api/tools"), { capability := .sessionRead }),
    (("POST", "/api/tools/\x7btool_name\x7d/invoke"), { capability := .sessionRead }),
    (("GET", "/api/approvals"), { capability := .toolApprove }),
    (("POST", "/api/approvals/\x7bapproval_id\x7d/decide"), { capability := .toolApprove }),
    (("GET", "/api/members"), { capability := .memberManage }),
    (("POST", "/api/members/grants"), { capability := .memberManage }),
    (("DELETE", "/api/members/grants/\x7bgrant_id\x7d"), { capability := .memberManage }),
    (("GET", "/api/eval"), { capability := .evalRead }),
    (("GET", "/api/eval/datasets/\x7bname\x7d"), { capability := .evalRead }),
    (("GET", "/api/eval/runs/\x7brun_id\x7d"), { capability := .evalRead }),
    (("GET", "/api/eval/continuous"), { capability := .evalRead }),
    (("PUT", "/api/eval/continuous/\x7bname\x7d"), { capability := .releasePromote }),
    (("POST", "/api/eval/run"), { capability := .evalRun }),
    (("PUT", "/api/eval/datasets/\x7bname\x7d"), { capability := .releasePromote }),
    (("POST", "/api/eval/runs/\x7brun_id\x7d/promote"), { capability := .releasePromote }),
    (("GET", "/api/eval/gaps"), { capability := .evalRead }),
    (("POST", "/api/eval/datasets/\x7bname\x7d/mine"), { capability := .releasePromote }),
    (("POST", "/api/eval/datasets/\x7bname\x7d/draft"), { capability := .releasePromote }),
    (("PUT", "/api/eval/datasets/\x7bname\x7d/items/\x7bitem_id\x7d"),
      { capability := .releasePromote }),
    (("POST", "/api/onboard/sessions"), { capability := .schemaAuthor }),
    (("GET", "/api/onboard/sessions"), { capability := .schemaRead }),
    (("GET", "/api/onboard/sessions/\x7bsession_id\x7d"), { capability := .schemaRead }),
    (("POST", "/api/onboard/sessions/\x7bsession_id\x7d/schema"), { capability := .schemaAuthor }),
    (("POST", "/api/onboard/sessions/\x7bsession_id\x7d/approve"),
      { capability := .schemaApprove }),
    (("POST", "/api/onboard/sessions/\x7bsession_id\x7d/publish"),
      { capability := .schemaApprove }),
    (("POST", "/api/onboard/sessions/\x7bsession_id\x7d/cancel"), { capability := .schemaAuthor }),
    (("GET", "/api/onboard/domains"), { capability := .schemaRead }),
    (("GET", "/api/onboard/sessions/\x7bsession_id\x7d/queries"), { capability := .schemaRead }),
    (("POST", "/api/onboard/sessions/\x7bsession_id\x7d/queries/\x7bquery_id\x7d"),
      { capability := .schemaAuthor }),
    (("POST", "/api/onboard/sessions/\x7bsession_id\x7d/seed-eval"),
      { capability := .releasePromote })
  ]

def isPublic (path : String) : Bool := path ∈ publicPaths

def policyFor (method routeTemplate : String) : Option RoutePolicy :=
  routeCapabilities.lookup (upper method, routeTemplate)

def undeclaredRoutes (registered : List (String × String)) : List (String × String) :=
  sortedBy (fun r : String × String => toLex r)
    (registered.filter (fun r => ¬ isPublic r.2 ∧ policyFor r.1 r.2 = none))

/-- A service that starts has a policy for every route it guards. -/
theorem policy_of_undeclaredRoutes {registered : List (String × String)}
    (h : undeclaredRoutes registered = []) {method template : String}
    (hmem : (method, template) ∈ registered) (hguarded : isPublic template = false) :
    (policyFor method template).isSome = true := by
  rw [Option.isSome_iff_ne_none]
  intro hnone
  have hmissing : (method, template) ∈ undeclaredRoutes registered :=
    mem_sortedBy.mpr (List.mem_filter.mpr ⟨hmem, by simp [hguarded, hnone]⟩)
  rw [h] at hmissing
  cases hmissing

end AgenticPlatform.Api
