import AccessControl.Cache.Grants
import AccessControl.Grant.Snapshot
import AccessControl.Store.Reader

/-!
Resolution: from an account, or from roles, to the grants that are in effect.
-/

namespace AccessControl

/-- Capabilities by the names of their entitlements. An entry hides those of its name behind it. -/
abbrev CapabilityIndex := List (String × Capability)

namespace CapabilityIndex

/-- An entitlement with a malformed permission is left out, so it grants nothing. -/
def extend (index : CapabilityIndex) (e : Entitlement) : CapabilityIndex :=
  match Capability.ofEntitlement e with
  | .ok c => (e.name, c) :: index
  | .error _ => index

def ofEntitlements (es : List Entitlement) : CapabilityIndex :=
  es.foldl extend []

def grant? (index : CapabilityIndex) (r : Ruleset) : Option Grant :=
  (index.lookup r.entitlement).map (⟨r, ·⟩)

end CapabilityIndex

/-- The rows are read from the store, and from the cache when there is one. -/
structure Grants where
  cache : Option GrantCache

namespace Grants

open Program

def logger : String := "permissions.grants"

def roles (account : String) : Program (List Role) :=
  storing logger "roles_for_account" (call (.rolesOf account))

def warnMalformed (e : Entitlement) : Program Unit :=
  match Capability.ofEntitlement e with
  | .ok _ => return
  | .error error =>
    log .warning logger "Ignoring entitlement with malformed rules"
      [("entitlement", .text e.name), ("error", .text error.message)]

def warnDangling (index : CapabilityIndex) (r : Ruleset) : Program Unit :=
  if (index.lookup r.entitlement).isSome then return
  else
    log .warning logger "Ruleset references missing entitlement"
      [("ruleset_id", .text r.id), ("entitlement", .text r.entitlement)]

def entitlements (grants : Grants) : Program (List Entitlement) := do
  let stored := storing logger "all_entitlements" (call .entitlements)
  match grants.cache with
  | none => stored
  | some cache =>
    match ← GrantCache.entitlements? with
    | some rows => return rows
    | none =>
      let rows ← stored
      let _ ← cache.putEntitlements rows
      return rows

def index (grants : Grants) : Program CapabilityIndex := do
  let rows ← grants.entitlements
  rows.forM warnMalformed
  return CapabilityIndex.ofEntitlements rows

/-- Joins rulesets with their capabilities. A ruleset whose entitlement is missing grants
nothing. -/
def assemble (subject : String) (rulesets : List Ruleset) (index : CapabilityIndex) :
    Program Snapshot := do
  rulesets.forM (warnDangling index)
  return ⟨subject, rulesets.filterMap index.grant?⟩

def storedRulesets (account : String) : Program Rulesets := do
  let (role, direct) ← storing logger "rulesets_for_account"
    (both (call (.rulesetsThroughRoles account)) (call (.rulesetsOfAccount account)))
  return ⟨role, direct⟩

def rulesets (grants : Grants) (account : String) : Program Rulesets := do
  match grants.cache with
  | none =>
    let rows ← storedRulesets account
    perform (.count (Counters.resolution "store"))
    return rows
  | some cache =>
    match ← GrantCache.rulesets? account with
    | some rows =>
      perform (.count (Counters.resolution "cache"))
      return rows
    | none =>
      let rows ← storedRulesets account
      let _ ← cache.putRulesets account rows
      perform (.count (Counters.resolution "store"))
      return rows

def snapshot (grants : Grants) (account : String) : Program Snapshot := do
  let rows ← grants.rulesets account
  if rows.toList.isEmpty then return ⟨account, []⟩
  else assemble account rows.toList (← grants.index)

/-- The rulesets of the roles of an account, and its own. The time it takes is measured. -/
def ofAccount (grants : Grants) (account : String) : Program Snapshot := do
  let outcome ← (grants.snapshot account).attempt
  perform .timed
  ofExcept outcome

def subjectOfRoles (roles : List String) : String :=
  "roles:" ++ ",".intercalate (Text.sorted roles)

def ofRead (grants : Grants) (rulesets : Program (List RoleRuleset))
    (subject : Except Error String) : Program Snapshot := do
  let (rulesets, index) ← storing logger "role_rulesets_for_roles" (both rulesets grants.index)
  perform (.count (Counters.resolution "store"))
  assemble (← ofExcept subject) (rulesets.map .role) index

def ofRoles (grants : Grants) (roles : List String) : Program Snapshot :=
  grants.ofRead (call (.rulesetsOfRoles roles)) (.ok (subjectOfRoles roles))

/-- The rulesets of roles that are told by values. Only texts can be joined to a subject. -/
def ofRoleValues (grants : Grants) (roles : List Value) : Program Snapshot :=
  grants.ofRead (Store.rulesetsOfRoles (.list roles))
    (((roles.mapM Value.text?).map subjectOfRoles).elim (.error .misfit) .ok)

end Grants

end AccessControl
