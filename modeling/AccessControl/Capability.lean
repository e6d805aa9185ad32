import AccessControl.Action
import AccessControl.Error
import AccessControl.Request
import AccessControl.Store.Row
import AccessControl.Text.Order
import AccessControl.Value.Carried

/-!
Capabilities: entitlements with their permissions read as rules.
-/

namespace AccessControl

def Permission.Rule.ofValue : Value → Except Error Permission.Rule
  | .text raw => (Permission.Rule.parse raw).mapError (.malformedPermission raw)
  | v => .error (.malformedPermission v.literal .notText)

def Permission.rules (raws : List Value) : Except Error (List Permission.Rule) :=
  raws.mapM Permission.Rule.ofValue

open Permission (Rule)

structure Capability where
  name : String
  group : String
  /-- The entity types it is limited to; none for no limit. -/
  entityTypes : List String
  rules : List Rule
  features : List String
  defaultFeatureScopes : List String
deriving DecidableEq

namespace Capability

def ofEntitlement (e : Entitlement) : Except Error Capability := do
  return {
    name := e.name
    group := e.group
    entityTypes := e.appliesTo
    rules := ← Permission.rules e.permissions
    features := e.features
    defaultFeatureScopes := e.defaultFeatureScopes }

def ofValue (v : Value) : Except Error Capability := do
  return {
    name := v.getCarried "name"
    group := v.getCarried "group"
    entityTypes := ← (v.get "applies_to").carryMembers
    rules := ← Permission.rules (← (v.get "permissions").parts)
    features := ← (v.get "features").carryMembers
    defaultFeatureScopes := ← (v.get "default_feature_scopes").carryMembers }

/-- A capability with a rule for every entity type allows everything on what it applies to. -/
def permissive (c : Capability) : Bool :=
  c.rules.any (·.entityType = wildcard)

def concerns (c : Capability) (entityType : String) : Bool :=
  c.entityTypes.isEmpty || c.entityTypes.contains entityType

def fields (c : Capability) : Value.Fields :=
  let rule (r : Rule) : Value :=
    .object [("entity_type", .text r.entityType), ("action", .text r.action),
      ("prop", .text r.property)]
  [("name", .text c.name), ("group", .text c.group),
   ("entity_types", .texts (Text.members c.entityTypes)), ("rules", .list (c.rules.map rule)),
   ("features", .texts (Text.members c.features)),
   ("default_feature_scopes", .texts (Text.members c.defaultFeatureScopes)),
   ("permissive", .bool c.permissive)]

def allows (c : Capability) (entityType action : String) (property : Option String)
    (fields : Option (List String)) : Bool :=
  c.concerns entityType &&
    if c.permissive then property.all fun p => fields.any (·.contains p)
    else c.rules.any (·.allows entityType action property fields)

def allowsRecord (c : Capability) (entityType action : String) : Bool :=
  c.allows entityType action none none

def allowsCreation (c : Capability) (entityType : String) : Bool :=
  c.allowsRecord entityType RecordAction.create.name

/-- Whether a feature is unlocked within a scope; `null` is no scope. Scopes are looked at only when
they count. -/
def unlocks (c : Capability) (feature scope : Value) : Except Error Bool := do
  if !c.features.contains (← feature.member).carry then return false
  else if c.defaultFeatureScopes.contains wildcard then return true
  else return scope != .null && c.defaultFeatureScopes.contains (← scope.member).carry

def allowsOn (c : Capability) (target : String) (record : Record) (action : String) :
    Except Error Bool := do
  return (← record.hasTag target) && c.allowsRecord record.entityType action

end Capability

end AccessControl
