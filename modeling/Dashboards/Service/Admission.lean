import Dashboards.Decimal.Text
import Dashboards.RateLimit
import Dashboards.Service.Answer

/-!
# Admission

A request is carried out only if everything that its route needs is in place. The needs are looked at
in a fixed order, and the first one that is not met refuses the request. The budget of the caller
comes last, so a request that is refused for another reason is not counted.
-/

namespace Dashboards

namespace Service

def missingArchive : Failure := ⟨.configError, "Version registry is not initialized", none⟩

def missingIdentity : Failure := ⟨.authFailed, "Missing caller identity", none⟩

def notEditor : Failure := ⟨.forbidden, "Insufficient permissions to edit dashboards", none⟩

/-- The failure of a request beyond the budget, with the seconds until the budget is renewed. -/
def overBudget (wait : Float) : Failure :=
  ⟨.rateLimited, "Too many requests, try again later",
    some (.obj [("retryAfterSeconds", .ofFloat (Decimal.rounded 1 wait))])⟩

/-- Whether a caller has said who it is. -/
def Caller.isKnown (c : Caller) : Bool := (c.id.filter (· ≠ "")).isSome

/-- Whether the role of a caller is one of those that may edit. -/
def Caller.isEditor (c : Caller) (s : Settings) : Bool := c.role.any s.editorRoles.contains

/-- The first need, the budget aside, that is not met. Identities and roles are looked at only where
the settings require an identity. -/
def Needs.unmet? (n : Needs) (s : Settings) (hasArchive : Bool) (c : Caller) : Option Failure :=
  if n.archive && !hasArchive then some missingArchive
  else if n.endpoint && s.endpoint?.isNone then some missingEndpoint
  else if n.identity && s.requireIdentity && !c.isKnown then some missingIdentity
  else if n.editor && s.requireIdentity && !c.isEditor s then some notEditor
  else none

/-- Counts a request against the budget of its caller. -/
def spend (l : Limiter Float) (c : Caller) (now : Float) : Option Failure × Limiter Float :=
  match l.hit c.key now with
  | (true, l) => (none, l)
  | (false, l) => (some (overBudget (l.retryAfter c.key now)), l)

end Service

end Dashboards
