import AccessControl.Stateful

/-!
Readiness of the engine's own tables. Those who listen for a table are told once, when it becomes
ready; who comes later is never told.
-/

namespace AccessControl.Store

def roleType : String := "role"
def membershipType : String := "role_account"
def entitlementType : String := "entitlements"
def roleRulesetType : String := "role_rulesets"
def accountRulesetType : String := "account_rulesets"

/-- The entity types of the tables, in the order in which they become ready. -/
def ownTypes : List String :=
  [roleType, membershipType, entitlementType, roleRulesetType, accountRulesetType]

structure Readiness (ι : Type) where
  ready : List String := []
  /-- Those who listen, each with the type it listens for, in order of registration. -/
  listeners : List (String × ι) := []

namespace Readiness

variable {ι : Type}

def isReady (r : Readiness ι) (entityType : String) : Bool :=
  r.ready.contains entityType

def listen (r : Readiness ι) (entityType : String) (l : ι) : Readiness ι :=
  if r.isReady entityType then r else { r with listeners := r.listeners ++ [(entityType, l)] }

def heardBy (r : Readiness ι) (entityType : String) : List ι :=
  (r.listeners.filter (·.1 = entityType)).map Prod.snd

def mark (r : Readiness ι) (entityType : String) : Readiness ι :=
  { ready := r.ready ++ [entityType]
    listeners := r.listeners.filter (·.1 ≠ entityType) }

variable {σ : Type} (part : σ → Readiness ι) (put : σ → Readiness ι → σ)

def announce (tell : ι → Stateful σ Unit) (entityType : String) : Stateful σ Unit := do
  let s ← get
  if (part s).isReady entityType then return
  set (put s ((part s).mark entityType))
  ((part s).heardBy entityType).forM tell

def announceAll (tell : ι → Stateful σ Unit) : Stateful σ Unit :=
  ownTypes.forM (announce part put tell)

end Readiness

end AccessControl.Store
