import AccessControl.Capability

/-!
Grants and snapshots of them.
-/

namespace AccessControl

structure Grant where
  ruleset : Ruleset
  capability : Capability
deriving DecidableEq

namespace Grant

def target (g : Grant) : String := g.ruleset.target

def reaches (g : Grant) (tags : List Value) : Bool :=
  tags.contains (.text g.target)

end Grant

/-- The grants of a subject, resolved once for a whole batch or stream. -/
structure Snapshot where
  subject : String
  grants : List Grant
deriving DecidableEq

namespace Snapshot

def allows (s : Snapshot) (record : Record) (action : String) : Except Error Bool :=
  s.grants.anyM fun g => g.capability.allowsOn g.target record action

/-- The grants that extend to a record and allow an action on its type. -/
def reaching (s : Snapshot) (record : Record) (action : String) : Except Error (List Grant) := do
  let tags ← record.tags
  return s.grants.filter fun g =>
    g.reaches tags && g.capability.allowsRecord record.entityType action

def creationTargets (s : Snapshot) (entityType : String) : List String :=
  (s.grants.filter fun g => g.capability.allowsCreation entityType).map Grant.target

/-- Whether a record of a type may be created that carries every one of the tags. Those behind the
first that is not covered are not looked at. -/
def mayCreate (s : Snapshot) (entityType : String) (tags : List Value) : Except Error Bool :=
  let targets := (s.creationTargets entityType).map Value.text
  if targets.isEmpty then .ok false
  else tags.allM fun tag => do return targets.contains (← tag.member)

def unlocks (s : Snapshot) (feature scope : Value) : Except Error Bool :=
  s.grants.anyM fun g => g.capability.unlocks feature scope

def fields (s : Snapshot) : Value.Fields :=
  let grant (g : Grant) : Value :=
    .object [("ruleset", .text g.ruleset.id), ("entitlement", .text g.ruleset.entitlement),
      ("target", .text g.target), ("scopes", .texts g.ruleset.featureScopes),
      ("permissive", .bool g.capability.permissive)]
  [("subject", .text s.subject), ("len", .nat s.grants.length), ("bool", .bool !s.grants.isEmpty),
   ("grants", .list (s.grants.map grant))]

end Snapshot

end AccessControl
