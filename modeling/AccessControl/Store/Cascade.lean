import AccessControl.Program

/-!
Cascades: what belongs to a role or an account is deleted with it.
-/

namespace AccessControl.Store

open Program

def removeRole (role : String) : Program Bool := do
  call (.enter .roleCascade)
  let _ ← call (.dropRulesetsOfRole role)
  let _ ← call (.dropMemberships (some role) none)
  call (.dropRole role)

def removeAccount (account : String) : Program (Int × Int) := do
  call (.enter .accountCascade)
  let memberships ← call (.dropMemberships none (some account))
  let rulesets ← call (.dropRulesetsOfAccount account)
  return (memberships, rulesets)

end AccessControl.Store
