import AccessControl.Store.Tables

/-!
The calls of a store by kind, for plans of failures.
-/

namespace AccessControl.Store

inductive Method where
  | start
  | stop
  | putRole
  | role
  | dropRole
  | rolesLike
  | rolesOf
  | putMembership
  | membership
  | dropMembership
  | membersOf
  | dropMemberships
  | entitlement
  | entitlements
  | putEntitlement
  | putRoleRuleset
  | roleRuleset
  | dropRoleRuleset
  | dropRulesetsOfRole
  | rulesetsOfRoles
  | rulesetsThroughRoles
  | putAccountRuleset
  | accountRuleset
  | dropAccountRuleset
  | dropRulesetsOfAccount
  | rulesetsOfAccount
  | roleCascade
  | accountCascade
deriving DecidableEq

namespace Method

def all : List Method :=
  [.start, .stop, .putRole, .role, .dropRole, .rolesLike, .rolesOf,
   .putMembership, .membership, .dropMembership, .membersOf, .dropMemberships,
   .entitlement, .entitlements, .putEntitlement, .putRoleRuleset, .roleRuleset,
   .dropRoleRuleset, .dropRulesetsOfRole, .rulesetsOfRoles, .rulesetsThroughRoles,
   .putAccountRuleset, .accountRuleset, .dropAccountRuleset, .dropRulesetsOfAccount,
   .rulesetsOfAccount, .roleCascade, .accountCascade]

def name : Method → String
  | .start => "start"
  | .stop => "stop"
  | .putRole => "save_role"
  | .role => "get_role"
  | .dropRole => "delete_role"
  | .rolesLike => "search_roles"
  | .rolesOf => "roles_for_account"
  | .putMembership => "add_membership"
  | .membership => "get_membership"
  | .dropMembership => "delete_membership"
  | .membersOf => "memberships_for_role"
  | .dropMemberships => "delete_memberships"
  | .entitlement => "get_entitlement"
  | .entitlements => "all_entitlements"
  | .putEntitlement => "save_entitlement"
  | .putRoleRuleset => "save_role_ruleset"
  | .roleRuleset => "find_role_ruleset"
  | .dropRoleRuleset => "delete_role_ruleset"
  | .dropRulesetsOfRole => "delete_role_rulesets"
  | .rulesetsOfRoles => "role_rulesets_for_roles"
  | .rulesetsThroughRoles => "role_rulesets_for_account"
  | .putAccountRuleset => "save_account_ruleset"
  | .accountRuleset => "find_account_ruleset"
  | .dropAccountRuleset => "delete_account_ruleset"
  | .dropRulesetsOfAccount => "delete_account_rulesets"
  | .rulesetsOfAccount => "account_rulesets_for_account"
  | .roleCascade => "delete_role_cascade"
  | .accountCascade => "delete_account_cascade"

end Method

def Phase.method : Phase → Method
  | .start => .start
  | .stop => .stop
  | .roleCascade => .roleCascade
  | .accountCascade => .accountCascade

/-- The methods that serve a call, outermost first. -/
def Call.methods : Call → List Method
  | .enter phase => [phase.method]
  | .putRole _ => [.putRole]
  | .role _ => [.role]
  | .dropRole _ => [.dropRole]
  | .rolesLike .. => [.rolesLike]
  | .rolesOf _ => [.rolesOf]
  | .putMembership _ => [.putMembership]
  | .membership .. => [.membership]
  | .dropMembership _ => [.dropMembership]
  | .membersOf _ => [.membersOf]
  | .dropMemberships .. => [.dropMemberships]
  | .entitlement _ => [.entitlement]
  | .entitlements => [.entitlements]
  | .putEntitlement _ => [.putEntitlement]
  | .putRoleRuleset _ => [.putRoleRuleset]
  | .roleRuleset .. => [.roleRuleset]
  | .dropRoleRuleset _ => [.dropRoleRuleset]
  | .dropRulesetsOfRole _ => [.dropRulesetsOfRole]
  | .rulesetsOfRoles _ => [.rulesetsOfRoles]
  | .rulesetsThroughRoles _ => [.rulesetsThroughRoles, .rulesetsOfRoles]
  | .putAccountRuleset _ => [.putAccountRuleset]
  | .accountRuleset .. => [.accountRuleset]
  | .dropAccountRuleset _ => [.dropAccountRuleset]
  | .dropRulesetsOfAccount _ => [.dropRulesetsOfAccount]
  | .rulesetsOfAccount _ => [.rulesetsOfAccount]

end AccessControl.Store
