import AccessControl.Instant

/-!
The rows that the engine keeps.
-/

namespace AccessControl

structure Role where
  id : String
  name : String
  description : String
  createdAt : Instant
  updatedAt : Instant
deriving DecidableEq

structure Membership where
  id : String
  role : String
  account : String
  createdAt : Instant
deriving DecidableEq

/-- A named, reusable capability. Its permissions are kept as they were given, also those that are
no texts. -/
structure Entitlement where
  id : String
  name : String
  group : String
  description : String
  appliesTo : List String
  permissions : List Value
  features : List String
  defaultFeatureScopes : List String
  createdAt : Instant
  updatedAt : Instant
deriving DecidableEq

/-- Every member of a role holds an entitlement for the records tagged with the target. -/
structure RoleRuleset where
  id : String
  role : String
  entitlement : String
  target : String
  name : String
  description : String
  featureScopes : List String
  createdAt : Instant
deriving DecidableEq

structure AccountRuleset where
  id : String
  account : String
  entitlement : String
  target : String
  featureScopes : List String
  createdAt : Instant
deriving DecidableEq

inductive Ruleset where
  | role (r : RoleRuleset)
  | account (r : AccountRuleset)
deriving DecidableEq

namespace Ruleset

def id : Ruleset → String
  | .role r => r.id
  | .account r => r.id

def entitlement : Ruleset → String
  | .role r => r.entitlement
  | .account r => r.entitlement

def target : Ruleset → String
  | .role r => r.target
  | .account r => r.target

def featureScopes : Ruleset → List String
  | .role r => r.featureScopes
  | .account r => r.featureScopes

end Ruleset

end AccessControl
