import AccessControl.Misuse
import AccessControl.Permission.Text
import AccessControl.Value.Access
import AccessControl.Value.Identity
import AccessControl.Value.Literal

/-!
What can go wrong, and how it is reported. An error is a cause; its class, code, message and details
follow from it.
-/

namespace AccessControl

/-- Where a failure that is not the engine's own comes from. -/
inductive Source where
  | application
  | system
  | database
  | cacheServer
deriving DecidableEq

def Source.all : List Source := [.application, .system, .database, .cacheServer]

inductive Error where
  | permissionDenied (account action entityType : String)
  | malformedPermission (raw : String) (flaw : Permission.Flaw)
  | invalidEntitlementName (name : String)
  | invalidEntityType (name : Value)
  | unknownEntityType (name : String)
  | roleNameMissing
  /-- Stands for any failure of the store; only the operation is told. -/
  | storage (operation : String)
  | catalogSealed
  | registrationDropped
  | missing (what : String)
  | roleMissing (role : String)
  | entitlementMissing (name : String)
  | notMember (role account : String)
  | roleRulesetMissing (role entitlement target : String)
  | accountRulesetMissing (account entitlement target : String)
  | roleRulesetHeld (role entitlement target : String)
  | accountRulesetHeld (account entitlement target : String)
  | cacheNotStarted (reason : String)
  | databaseNotStarted (reason : String)
  | outside (source : Source) (message : String)
  | misuse (m : Misuse)
  | misfit
  | nameMissing (name : String)
  | negativeCount
  | outOfRange
  | undefinedNumber
  | noTime (reason : String)
  | notConnected
  | unknownMethod
  | notTimed
  | unknownLogLevel
  | settledTwice
  | cancelled
deriving DecidableEq

namespace Error

inductive Kind where
  | general
  | authorization
  | permissionDenied
  | validation
  | malformedPermission
  | invalidEntitlementName
  | unknownEntityType
  | service
  | storage
  | catalog
  | notFound
  | conflict
deriving DecidableEq

def Kind.all : List Kind :=
  [.general, .authorization, .permissionDenied, .validation, .malformedPermission,
    .invalidEntitlementName, .unknownEntityType, .service, .storage, .catalog, .notFound, .conflict]

structure Report where
  kind : Kind
  code : String
  message : String
  details : Value.Fields

namespace Report

def authorization (message : String) (details : Value.Fields) : Report :=
  ⟨.authorization, "AUTHORIZATION_ERROR", message, details⟩

def validation (message : String) (details : Value.Fields) : Report :=
  ⟨.validation, "VALIDATION_ERROR", message, details⟩

def service (message : String) (details : Value.Fields) : Report :=
  ⟨.service, "SERVICE_ERROR", message, details⟩

def notFound (message : String) (details : Value.Fields) : Report :=
  ⟨.notFound, "NOT_FOUND", message, details⟩

def conflict (message : String) (details : Value.Fields) : Report :=
  ⟨.conflict, "CONFLICT", message, details⟩

/-- Tells who was refused what, and nothing of the rulesets. -/
def permissionDenied (account action entityType : Value) : Report :=
  { authorization
      ("Account " ++ account.display ++ " is not permitted to " ++ action.display ++ " " ++
        entityType.display)
      [("account_id", account), ("action", action), ("entity_type", entityType)]
    with kind := .permissionDenied }

def malformedPermission (raw reason : Value) : Report :=
  { validation ("Malformed permission \x27" ++ raw.display ++ "\x27: " ++ reason.display)
      [("permission", raw)]
    with kind := .malformedPermission }

def invalidEntitlementName (name : Value) : Report :=
  { validation
      ("Entitlement name must be lowercase and contain only letters, numbers, and hyphens. (" ++
        name.display ++ ")")
      [("name", name)]
    with kind := .invalidEntitlementName }

def unknownEntityType (name : Value) : Report :=
  { validation ("Entity type " ++ name.display ++ " is not registered") [("entity_type", name)]
    with kind := .unknownEntityType }

def storage (operation : Value) : Report :=
  ⟨.storage, "STORAGE_ERROR", "Internal storage error", [("operation", operation)]⟩

def catalog (message : String) : Report :=
  ⟨.catalog, "CATALOG_ERROR", message, []⟩

def size : Kind → Nat × Nat
  | .general => (2, 3)
  | .permissionDenied => (3, 3)
  | .malformedPermission => (2, 2)
  | .invalidEntitlementName | .unknownEntityType | .storage | .catalog => (1, 1)
  | .authorization | .validation | .service | .notFound | .conflict => (0, 2)

def places : Kind → List (String × Nat)
  | .general => [("code", 0), ("message", 1), ("details", 2)]
  | .catalog => [("message", 0)]
  | .authorization | .validation | .service | .notFound | .conflict =>
    [("message", 0), ("details", 1)]
  | _ => []

/-- Details are an object; what counts as false stands for none. All else is text. -/
def suits (name : String) (v : Value) : Bool :=
  if name = "details" then !v.truthy || v.kind = .object else v.kind = .text

def unsuited (kind : Kind) (given : List Value) : List String :=
  ((places kind).filter fun (name, i) => given[i]?.any (!suits name ·)).map Prod.fst

def about (kind : Kind) (given : List Value) : Report :=
  let value (i : Nat) : Value := given[i]?.getD .null
  let message (i : Nat) (default : String) : String := given[i]?.elim default Value.display
  let details (i : Nat) : Value.Fields := (value i).fields
  match kind with
  | .general => ⟨.general, message 0 "", message 1 "", details 2⟩
  | .authorization => authorization (message 0 "Authorization failed") (details 1)
  | .permissionDenied => permissionDenied (value 0) (value 1) (value 2)
  | .validation => validation (message 0 "Validation failed") (details 1)
  | .malformedPermission => malformedPermission (value 0) (value 1)
  | .invalidEntitlementName => invalidEntitlementName (value 0)
  | .unknownEntityType => unknownEntityType (value 0)
  | .service => service (message 0 "Service error") (details 1)
  | .storage => storage (value 0)
  | .catalog => catalog (message 0 "")
  | .notFound => notFound (message 0 "Not found") (details 1)
  | .conflict => conflict (message 0 "Conflict") (details 1)

end Report

def rulesetKey (holder : String) (id entitlement target : String) : Value.Fields :=
  [(holder, .text id), ("entitlement", .text entitlement), ("target_attribute", .text target)]

def report? : Error → Option Report
  | .permissionDenied account action entityType =>
    some (.permissionDenied (.text account) (.text action) (.text entityType))
  | .malformedPermission raw flaw => some (.malformedPermission (.text raw) (.text flaw.message))
  | .invalidEntitlementName name => some (.invalidEntitlementName (.text name))
  | .invalidEntityType name =>
    some (.validation ("Invalid entity type name: " ++ name.literal) [("entity_type", name)])
  | .unknownEntityType name => some (.unknownEntityType (.text name))
  | .roleNameMissing => some (.validation "Role name is required" [])
  | .storage operation => some (.storage (.text operation))
  | .catalogSealed =>
    some (.catalog "Catalog is already initialized; use register() instead of declare()")
  | .registrationDropped => some (.catalog "Catalog flush failed before this registration ran")
  | .missing what => some (.notFound what [])
  | .roleMissing role =>
    some (.notFound ("Role " ++ role ++ " not found") [("role_id", .text role)])
  | .entitlementMissing name =>
    some (.notFound ("Entitlement " ++ name ++ " not found") [("entitlement", .text name)])
  | .notMember role account =>
    some (.notFound ("Account " ++ account ++ " is not a member of role " ++ role)
      [("role_id", .text role), ("account_id", .text account)])
  | .roleRulesetMissing role entitlement target =>
    some (.notFound "Role ruleset not found" (rulesetKey "role_id" role entitlement target))
  | .accountRulesetMissing account entitlement target =>
    some (.notFound "Account ruleset not found"
      (rulesetKey "account_id" account entitlement target))
  | .roleRulesetHeld role entitlement target =>
    some (.conflict "Role already holds this entitlement for this target"
      (rulesetKey "role_id" role entitlement target))
  | .accountRulesetHeld account entitlement target =>
    some (.conflict "Account already holds this entitlement for this target"
      (rulesetKey "account_id" account entitlement target))
  | .cacheNotStarted reason => some ⟨.general, "REDIS_START_FAILED", reason, []⟩
  | .databaseNotStarted reason => some ⟨.general, "POSTGRES_START_FAILED", reason, []⟩
  | _ => none

/-- The engine's own errors pass through the store's wrapper as they are. -/
def isOwn (e : Error) : Bool :=
  e.report?.isSome

def message (e : Error) : String :=
  match e with
  | .outside _ message => message
  | .misuse m => m.message
  | .nameMissing name => Text.quoted name
  | .negativeCount => "Counters can only be incremented by non-negative amounts."
  | .undefinedNumber => "cannot convert float NaN to integer"
  | .noTime reason => reason
  | e => (e.report?.map Report.message).getD ""

end Error

end AccessControl
