/-
  ClientGen.Service.Attribution

  To whom the resources of an aggregate belong, voted by the routes of its
  commands.
-/
import ClientGen.Text.Split

namespace ClientGen

/-- To whom resources belong, which the beginning of their routes tells. -/
inductive Attribution where
  | shared
  | tenant
  | owner
deriving DecidableEq, Repr, Inhabited

namespace Attribution

/-- The beginning of routes in a tenant's scope. -/
def tenantStart : String := "/tenant/\x7btenantId\x7d"

/-- The beginning of routes in an owner's scope. -/
def ownerStart : String := "/owner/\x7bownerId\x7d"

/-- The number of routes with a beginning. -/
def votes (start : String) (routes : List String) : Nat :=
  routes.countP (Text.startsWith start)

/-- The majority of the routes that are in a scope.  A tie goes to the owner; when
    no route is in a scope, resources are shared. -/
def ofRoutes (routes : List String) : Attribution :=
  let tenant := votes tenantStart routes
  let owner := votes ownerStart routes
  if tenant = 0 ∧ owner = 0 then .shared
  else if tenant > owner then .tenant
  else .owner

/-- The beginning of the routes in the scope. -/
def routeStart? : Attribution → Option String
  | .shared => none
  | .tenant => some tenantStart
  | .owner => some ownerStart

/-- The constant that names the attribution at run time. -/
def constant : Attribution → String
  | .shared => "ResourceAttributionPathSpec.NONE"
  | .tenant => "ResourceAttributionPathSpec.TENANT"
  | .owner => "ResourceAttributionPathSpec.OWNER"

end Attribution

end ClientGen
