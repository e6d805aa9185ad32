import AccessControl.Cache.Wire
import AccessControl.Stateful
import AccessControl.Text.Order

/-!
The cache of ruleset rows, by account, and of the entitlement table. A failure of its server counts
as a miss, so that the store stays the source of truth.
-/

namespace AccessControl

/-- How long cached rows live, in seconds. -/
structure GrantCache where
  rulesetTtl : Int := 300
  entitlementTtl : Int := 3600

namespace GrantCache

open Program Cache

def logger : String := "permissions.cache.redis"

def rulesetsStart : String := "perm:rulesets:"

def accountKey (account : String) : String := rulesetsStart ++ account

def entitlementsKey : String := "perm:entitlements:all"

/-- A text that was read, understood. What cannot be understood is logged as an error and counts as
a miss, as does a command that fails. -/
def understood {α : Type} (message : String) (fields : Value.Fields)
    (read? : Instant → String → Option α) (key : String) : Program (Option α) := do
  match ← perform (.cache (.get key)) with
  | .ok none =>
    perform (.tally .miss)
    return none
  | .ok (some text) =>
    match read? (← perform .now) text with
    | some a =>
      perform (.tally .hit)
      return some a
    | none => missed
  | .error _ => missed
where
  missed : Program (Option α) := do
    log .error logger message fields
    perform (.tally .miss)
    return none

def rulesets? (account : String) : Program (Option Rulesets) :=
  understood "Error reading cached rulesets" [("account_id", .text account)] Rulesets.read?
    (accountKey account)

def entitlements? : Program (Option (List Entitlement)) :=
  understood "Error reading cached entitlements" [] Entitlement.readAll? entitlementsKey

def succeeded (c : Command) (t : Tally) (message : String) (fields : Value.Fields) :
    Program Bool := do
  match ← perform (.cache c) with
  | .ok _ =>
    perform (.tally t)
    return true
  | .error reason =>
    log .error logger message (fields ++ [("error", .text reason)])
    return false

def putRulesetsValue (cache : GrantCache) (account : String) (v : Value) : Program Bool :=
  succeeded (.set (accountKey account) cache.rulesetTtl (Wire.write v)) .set
    "Error caching rulesets" [("account_id", .text account)]

def putRulesets (cache : GrantCache) (account : String) (rows : Rulesets) : Program Bool :=
  cache.putRulesetsValue account rows.value

def putEntitlementsValue (cache : GrantCache) (v : Value) : Program Bool :=
  succeeded (.set entitlementsKey cache.entitlementTtl (Wire.write v)) .set
    "Error caching entitlements" []

def putEntitlements (cache : GrantCache) (rows : List Entitlement) : Program Bool :=
  cache.putEntitlementsValue (Entitlement.listing rows)

def dropAccount (account : String) : Program Bool :=
  succeeded (.delete [accountKey account]) .invalidation
    "Error invalidating account rulesets" [("account_id", .text account)]

def dropEntitlements : Program Bool :=
  succeeded (.delete [entitlementsKey]) .invalidation "Error invalidating entitlements" []

/-- Drops the rulesets of a set of accounts, one account after the other. -/
def dropAccounts (accounts : List String) : Program Unit :=
  (Text.members accounts).forM fun a => do
    let _ ← dropAccount a

def clear : Program Nat := do
  match ← perform (.cache (.scan rulesetsStart)) with
  | .error reason => failed reason
  | .ok keys =>
    match ← perform (.cache (.delete (keys ++ [entitlementsKey]))) with
    | .error reason => failed reason
    | .ok deleted =>
      perform (.tally .invalidation)
      log .info logger "Cache cleared" [("count", .nat deleted)]
      return deleted
where
  failed (reason : String) : Program Nat := do
    log .error logger "Error clearing cache" [("error", .text reason)]
    return 0

def healthy : Program Bool := do
  match ← perform (.cache .ping) with
  | .ok _ => return true
  | .error _ => return false

def start : Program Unit := do
  match ← perform (.cache .ping) with
  | .ok _ => log .info logger "Redis cache started" []
  | .error reason =>
    log .error logger "Failed to start Redis cache" [("error", .text reason)]
    fail (.cacheNotStarted reason)

def stop : Program Unit :=
  log .info logger "Redis cache stopped" []

def clientOptions : Value.Fields :=
  [("encoding", .text "utf-8"), ("decode_responses", .bool true),
   ("socket_connect_timeout", .int 5), ("socket_timeout", .int 5),
   ("retry_on_timeout", .bool true), ("health_check_interval", .int 30)]

def startAt (url : String) : Stateful Bool Unit := do
  if !(← get) then
    perform (.notify (.connected url clientOptions))
    set true
  start

def withClient {α : Type} (p : Program α) : Stateful Bool α := do
  if ← get then p else Stateful.fail .notConnected

def stopAny : Stateful Bool Bool := do
  let hasClient ← get
  if hasClient then stop
  return hasClient

end GrantCache

end AccessControl
