import AccessControl.Store.Row
import AccessControl.Store.Table
import AccessControl.Text.Lower
import AccessControl.Text.Substring

/-!
The five tables, the calls that a store answers, and what each call does to the tables.
-/

namespace AccessControl

instance : Keyed Role := ⟨Role.id⟩
instance : Keyed Membership := ⟨Membership.id⟩
instance : Keyed Entitlement := ⟨Entitlement.name⟩
instance : Keyed RoleRuleset := ⟨RoleRuleset.id⟩
instance : Keyed AccountRuleset := ⟨AccountRuleset.id⟩

namespace Store

structure Tables where
  roles : Table Role
  memberships : Table Membership
  entitlements : Table Entitlement
  roleRulesets : Table RoleRuleset
  accountRulesets : Table AccountRuleset
deriving DecidableEq

def Tables.empty : Tables := ⟨.empty, .empty, .empty, .empty, .empty⟩

inductive Phase where
  | start
  | stop
  | roleCascade
  | accountCascade
deriving DecidableEq

inductive Call where
  | enter (phase : Phase)
  | putRole (role : Role)
  | role (id : String)
  | dropRole (id : String)
  | rolesLike (key : String) (offset limit : Int)
  | rolesOf (account : String)
  | putMembership (membership : Membership)
  | membership (role account : String)
  | dropMembership (id : String)
  | membersOf (role : String)
  | dropMemberships (role account : Option String)
  | entitlement (name : String)
  | entitlements
  | putEntitlement (entitlement : Entitlement)
  | putRoleRuleset (ruleset : RoleRuleset)
  | roleRuleset (role entitlement target : String)
  | dropRoleRuleset (id : String)
  | dropRulesetsOfRole (role : String)
  | rulesetsOfRoles (roles : List String)
  | rulesetsThroughRoles (account : String)
  | putAccountRuleset (ruleset : AccountRuleset)
  | accountRuleset (account entitlement target : String)
  | dropAccountRuleset (id : String)
  | dropRulesetsOfAccount (account : String)
  | rulesetsOfAccount (account : String)

/-- What a call yields. A removal by key tells whether there was a row, one by condition how many
rows there were. -/
abbrev Call.Reply : Call → Type
  | .enter _ => Unit
  | .putRole _ => Role
  | .role _ => Option Role
  | .dropRole _ => Bool
  | .rolesLike .. => List Role
  | .rolesOf _ => List Role
  | .putMembership _ => Membership
  | .membership .. => Option Membership
  | .dropMembership _ => Bool
  | .membersOf _ => List Membership
  | .dropMemberships .. => Int
  | .entitlement _ => Option Entitlement
  | .entitlements => List Entitlement
  | .putEntitlement _ => Entitlement
  | .putRoleRuleset _ => RoleRuleset
  | .roleRuleset .. => Option RoleRuleset
  | .dropRoleRuleset _ => Bool
  | .dropRulesetsOfRole _ => Int
  | .rulesetsOfRoles _ => List RoleRuleset
  | .rulesetsThroughRoles _ => List RoleRuleset
  | .putAccountRuleset _ => AccountRuleset
  | .accountRuleset .. => Option AccountRuleset
  | .dropAccountRuleset _ => Bool
  | .dropRulesetsOfAccount _ => Int
  | .rulesetsOfAccount _ => List AccountRuleset

/-- The part of a list from one position up to another. A negative position counts from the end. -/
def window {α : Type} (start stop : Int) (xs : List α) : List α :=
  (xs.take (position stop)).drop (position start)
where
  position (i : Int) : Nat := if i < 0 then (xs.length + i).toNat else i.toNat

namespace Tables

/-- The roles whose lower-case name holds the lower-case key, by name; roles of one name stay in the
order of the table. -/
def matchingRoles (t : Tables) (key : String) : List Role :=
  (t.roles.rows.filter fun r =>
    Text.occursIn (Text.lower key).toList (Text.lower r.name).toList).mergeSort
      fun a b => decide (a.name ≤ b.name)

def removedMembership (role account : Option String) (m : Membership) : Bool :=
  role.all (m.role = ·) && account.all (m.account = ·)

/-- The roles of an account that exist, once for every membership. -/
def rolesHeldBy (t : Tables) (account : String) : List Role :=
  t.memberships.rows.filterMap fun m => if m.account = account then t.roles.get? m.role else none

def isRoleRuleset (role entitlement target : String) (r : RoleRuleset) : Bool :=
  r.role = role && r.entitlement = entitlement && r.target = target

def isAccountRuleset (account entitlement target : String) (r : AccountRuleset) : Bool :=
  r.account = account && r.entitlement = entitlement && r.target = target

def rulesetsHeldBy (t : Tables) (roles : List String) : List RoleRuleset :=
  t.roleRulesets.rows.filter fun r => roles.contains r.role

def reply (t : Tables) : (c : Call) → c.Reply
  | .enter _ => ()
  | .putRole role => role
  | .role id => t.roles.get? id
  | .dropRole id => t.roles.contains id
  | .rolesLike key offset limit => window offset (offset + limit) (t.matchingRoles key)
  | .rolesOf account => t.rolesHeldBy account
  | .putMembership membership => membership
  | .membership role account =>
    t.memberships.rows.find? fun m => m.role = role && m.account = account
  | .dropMembership id => t.memberships.contains id
  | .membersOf role => t.memberships.rows.filter (·.role = role)
  | .dropMemberships role account =>
    (t.memberships.rows.countP (removedMembership role account) : Nat)
  | .entitlement name => t.entitlements.get? name
  | .entitlements => t.entitlements.rows
  | .putEntitlement entitlement => entitlement
  | .putRoleRuleset ruleset => ruleset
  | .roleRuleset role entitlement target =>
    t.roleRulesets.rows.find? (isRoleRuleset role entitlement target)
  | .dropRoleRuleset id => t.roleRulesets.contains id
  | .dropRulesetsOfRole role => (t.roleRulesets.rows.countP (·.role = role) : Nat)
  | .rulesetsOfRoles roles => t.rulesetsHeldBy roles
  | .rulesetsThroughRoles account => t.rulesetsHeldBy ((t.rolesHeldBy account).map Role.id)
  | .putAccountRuleset ruleset => ruleset
  | .accountRuleset account entitlement target =>
    t.accountRulesets.rows.find? (isAccountRuleset account entitlement target)
  | .dropAccountRuleset id => t.accountRulesets.contains id
  | .dropRulesetsOfAccount account => (t.accountRulesets.rows.countP (·.account = account) : Nat)
  | .rulesetsOfAccount account => t.accountRulesets.rows.filter (·.account = account)

def after (t : Tables) : Call → Tables
  | .putRole role => { t with roles := t.roles.insert role }
  | .dropRole id => { t with roles := t.roles.erase id }
  | .putMembership membership => { t with memberships := t.memberships.insert membership }
  | .dropMembership id => { t with memberships := t.memberships.erase id }
  | .dropMemberships role account =>
    { t with memberships := t.memberships.filter fun m => !removedMembership role account m }
  | .putEntitlement entitlement => { t with entitlements := t.entitlements.insert entitlement }
  | .putRoleRuleset ruleset => { t with roleRulesets := t.roleRulesets.insert ruleset }
  | .dropRoleRuleset id => { t with roleRulesets := t.roleRulesets.erase id }
  | .dropRulesetsOfRole role => { t with roleRulesets := t.roleRulesets.filter (·.role ≠ role) }
  | .putAccountRuleset ruleset => { t with accountRulesets := t.accountRulesets.insert ruleset }
  | .dropAccountRuleset id => { t with accountRulesets := t.accountRulesets.erase id }
  | .dropRulesetsOfAccount account =>
    { t with accountRulesets := t.accountRulesets.filter (·.account ≠ account) }
  | _ => t

end Tables

end Store

end AccessControl
