import AccessControl.Entitlements
import AccessControl.Grant.Resolution
import AccessControl.Store.Cascade
import AccessControl.Store.Reader

/-!
Administration of roles, memberships and rulesets. What changes the grants of an account drops what
the cache holds of it.
-/

namespace AccessControl

namespace Administration

def logger : String := "permissions.service"

def uncache (cache : Option GrantCache) (accounts : List String) : Program Unit :=
  if cache.isSome then GrantCache.dropAccounts accounts else return

end Administration

open Program Administration

def Role.find? (id : String) : Program (Option Role) :=
  storing logger "get_role" (call (.role id))

def Role.search (key : String) (offset limit : Int) : Program (List Role) :=
  storing logger "search_roles" (call (.rolesLike key offset limit))

def Role.searchValues (key offset limit : Value) : Program (List Role) :=
  storing logger "search_roles" (Store.search key offset limit)

def Role.demand (id : String) : Program Role := do
  match ← Role.find? id with
  | some r => return r
  | none => fail (.roleMissing id)

def Entitlement.demand (name : String) : Program Entitlement := do
  match ← Entitlements.find? name with
  | some e => return e
  | none => fail (.entitlementMissing name)

def Role.accounts (role : String) : Program (List String) := do
  return (← call (.membersOf role)).map Membership.account

def Role.members (role : String) : Program (List String) :=
  storing logger "memberships_for_role" (Role.accounts role)

def Role.hasMember (role account : String) : Program Bool := do
  return (← storing logger "get_membership" (call (.membership role account))).isSome

def Role.create (name description : String) : Program Role := do
  if name = "" then fail .roleNameMissing
  let id ← perform .mint
  let now ← perform .now
  let role : Role := ⟨id, name, description, now, now⟩
  let _ ← storing logger "save_role" (call (.putRole role))
  log .info logger "Role created" [("role_id", .text id), ("name", .text name)]
  return role

def Role.change (id : String) (name description : Option String) : Program Role := do
  let old ← Role.demand id
  if name = some "" then fail .roleNameMissing
  let role : Role :=
    { old with
      name := name.getD old.name
      description := description.getD old.description
      updatedAt := ← perform .now }
  let _ ← storing logger "save_role" (call (.putRole role))
  log .info logger "Role updated" [("role_id", .text id)]
  return role

def Role.delete (cache : Option GrantCache) (id : String) : Program Unit := do
  let _ ← Role.demand id
  let accounts ← storing logger "delete_role" do
    let accounts ← Role.accounts id
    let _ ← Store.removeRole id
    return accounts
  uncache cache accounts
  log .info logger "Role deleted" [("role_id", .text id), ("members", .nat accounts.length)]

def Membership.grant (cache : Option GrantCache) (role account : String) : Program Membership := do
  let _ ← Role.demand role
  let (membership, isNew) ← storing logger "add_membership" do
    match ← call (.membership role account) with
    | some m => return (m, false)
    | none =>
      let m : Membership := ⟨← perform .mint, role, account, ← perform .now⟩
      let _ ← call (.putMembership m)
      return (m, true)
  if isNew then
    uncache cache [account]
    log .info logger "Role granted" [("role_id", .text role), ("account_id", .text account)]
  return membership

def Membership.revoke (cache : Option GrantCache) (role account : String) : Program Unit := do
  storing logger "delete_membership" do
    match ← call (.membership role account) with
    | none => fail (.notMember role account)
    | some m =>
      let _ ← call (.dropMembership m.id)
  uncache cache [account]
  log .info logger "Role revoked" [("role_id", .text role), ("account_id", .text account)]

def RoleRuleset.grant (cache : Option GrantCache)
    (role entitlement target name description : String) (featureScopes : Value) :
    Program RoleRuleset := do
  let _ ← Role.demand role
  let _ ← Entitlement.demand entitlement
  let (ruleset, accounts) ← storing logger "save_role_ruleset" do
    if (← call (.roleRuleset role entitlement target)).isSome then
      fail (.roleRulesetHeld role entitlement target)
    let featureScopes ← ofExcept featureScopes.carryParts
    let ruleset : RoleRuleset :=
      ⟨← perform .mint, role, entitlement, target, name, description, featureScopes, ← perform .now⟩
    let _ ← call (.putRoleRuleset ruleset)
    return (ruleset, ← Role.accounts role)
  uncache cache accounts
  log .info logger "Role ruleset granted" (Error.rulesetKey "role_id" role entitlement target)
  return ruleset

def RoleRuleset.revoke (cache : Option GrantCache) (role entitlement target : String) :
    Program Unit := do
  let accounts ← storing logger "delete_role_ruleset" do
    match ← call (.roleRuleset role entitlement target) with
    | none => fail (.roleRulesetMissing role entitlement target)
    | some ruleset =>
      let _ ← call (.dropRoleRuleset ruleset.id)
      Role.accounts role
  uncache cache accounts
  log .info logger "Role ruleset revoked" (Error.rulesetKey "role_id" role entitlement target)

def AccountRuleset.grant (cache : Option GrantCache) (account entitlement target : String)
    (featureScopes : Value) : Program AccountRuleset := do
  let _ ← Entitlement.demand entitlement
  let ruleset ← storing logger "save_account_ruleset" do
    if (← call (.accountRuleset account entitlement target)).isSome then
      fail (.accountRulesetHeld account entitlement target)
    let featureScopes ← ofExcept featureScopes.carryParts
    let ruleset : AccountRuleset :=
      ⟨← perform .mint, account, entitlement, target, featureScopes, ← perform .now⟩
    let _ ← call (.putAccountRuleset ruleset)
    return ruleset
  uncache cache [account]
  log .info logger "Account ruleset granted"
    (Error.rulesetKey "account_id" account entitlement target)
  return ruleset

def AccountRuleset.revoke (cache : Option GrantCache) (account entitlement target : String) :
    Program Unit := do
  storing logger "delete_account_ruleset" do
    match ← call (.accountRuleset account entitlement target) with
    | none => fail (.accountRulesetMissing account entitlement target)
    | some ruleset =>
      let _ ← call (.dropAccountRuleset ruleset.id)
  uncache cache [account]
  log .info logger "Account ruleset revoked"
    (Error.rulesetKey "account_id" account entitlement target)

def Account.forget (cache : Option GrantCache) (account : String) : Program Unit := do
  let (memberships, rulesets) ← storing logger "delete_account" (Store.removeAccount account)
  uncache cache [account]
  log .info logger "Account grants removed"
    [("account_id", .text account), ("memberships", .int memberships), ("rulesets", .int rulesets)]

end AccessControl
