import AccessControl.Administration
import AccessControl.Settings
import AccessControl.Filter
import AccessControl.Store.Readiness
import AccessControl.Store.Sql

/-!
The service: the parts of the engine, and how they hang together. Its own tables are protected: they
change by administration only.
-/

namespace AccessControl

inductive Subscriber where
  | entitlements
  | other (entitlements : Entitlements)
  | named (name : String) (l : Listener)

structure Service where
  name : String
  cache : Option GrantCache := none
  policy : Policy
  entities : Entities := {}
  entitlements : Entitlements := {}
  readiness : Store.Readiness Subscriber := {}

/-- The health of a service and of what it depends on; parts that it does without are left out. -/
structure Health where
  service : String
  entitlements : Entitlements.Phase
  store : Option Bool
  cache : Option (Bool × Cache.Statistics)

def Health.word (isWell : Bool) : Value := .text (if isWell then "ok" else "unavailable")

def Health.fields (h : Health) : Value.Fields :=
  [("service", .text h.service), ("catalog", .text h.entitlements.name)] ++
    (match h.store with
      | some isWell => [("store", word isWell)]
      | none => []) ++
    match h.cache with
    | some (isWell, s) => [("cache", word isWell), ("cache_stats", .object s.fields)]
    | none => []

namespace Service

open Program Store

def logger : String := "permissions.service"

def hasFlag : Predicate := ⟨fun f => .ok (f.account.any (·.isAdmin)), false⟩

def authority (s : Service) : Authority := ⟨s.policy, ⟨s.cache⟩⟩

def filter (s : Service) : Filter := ⟨s.authority, s.entities⟩

def onEntitlements {α : Type} (p : Stateful Entitlements α) : Stateful Service α :=
  Stateful.zoom Service.entitlements (fun s entitlements => { s with entitlements }) p

def addOverride (o : Override) : Stateful Service Unit :=
  modify fun s => { s with policy := { s.policy with overrides := s.policy.overrides.register o } }

def addEntity (schema : Except Error Entity) : Stateful Service Entity :=
  Stateful.zoom Service.entities (fun s entities => { s with entities })
    (Entities.register schema)

/-- The actions that never touch the engine's own tables, whoever asks. -/
def protectedActions : List String :=
  [RecordAction.create.name, FieldAction.update.name, RecordAction.delete.name,
   RecordAction.archive.name, RecordAction.restoreArchive.name, RecordAction.deleteVersion.name,
   RecordAction.restoreVersion.name]

def ownSchemas : List (String × List String) :=
  [(roleType, Tabular.columns Role), (membershipType, Tabular.columns Membership),
   (entitlementType, Tabular.columns Entitlement), (roleRulesetType, Tabular.columns RoleRuleset),
   (accountRulesetType, Tabular.columns AccountRuleset)]

def protection (entityType action : String) : Override :=
  ⟨.block, action, entityType, Override.always, []⟩

def protect : Stateful Service Unit :=
  ownSchemas.forM fun (entityType, fields) => do
    let _ ← addEntity (Entity.ofNames entityType fields)
    protectedActions.forM fun action => addOverride (protection entityType action)

def rolesGroup : String := "roles"

def ownEntitlements : List Entitlements.Definition :=
  [{ name := .text "view-roles"
     description := "View role names and descriptions"
     group := rolesGroup
     appliesTo := [roleType]
     permissions := [.text "role:read:name", .text "role:read:description"] },
   { name := .text "manage-roles"
     description := "Create roles and manage their rulesets"
     group := rolesGroup
     appliesTo := [roleType]
     permissions := [.text "role:create", .text "role:read:name", .text "role:read:description"]
     features := ["manage-roles"] },
   { name := .text "manage-members"
     description := "Add and remove role members"
     group := rolesGroup }]

/-- Makes a service ready for use: declarations wait for the store, the cache hears of changes, the
own tables are protected and the own entitlements declared. -/
def setUp : Stateful Service Unit := do
  if (← get).cache.isSome then onEntitlements (Entitlements.listen .cache)
  modify fun s => { s with readiness := s.readiness.listen entitlementType .entitlements }
  protect
  ownEntitlements.forM fun d => do
    let _ ← onEntitlements (Entitlements.declare d)

def ofSettings (c : Settings) : Except Error Service :=
  if c.knowsLogLevel then
    .ok {
      name := c.serviceName
      cache := if c.usesCache then some ⟨c.rulesetTtl, c.entitlementTtl⟩ else none
      policy := ⟨{}, hasFlag⟩
      entitlements := { listing := c.listing } }
  else .error .unknownLogLevel

def tell : Subscriber → Stateful Service Unit
  | .entitlements => do
    let _ ← onEntitlements Entitlements.ready
  | .other entitlements => do
    let (outcome, _) ← (Sql.redirect (Entitlements.ready entitlements) : Program _)
    let _ ← Stateful.ofExcept outcome
  | .named name l => l.hear (.ready name)

def announceTables : Stateful Service Unit :=
  Readiness.announceAll Service.readiness (fun s readiness => { s with readiness }) tell

def startStore : Stateful Service Unit := do
  call (.enter .start)
  announceTables
  log .info "permissions.storage.memory" "In-memory permission store started" []

def stopStore : Program Unit := do
  call (.enter .stop)
  log .info "permissions.storage.memory" "In-memory permission store stopped" []

/-- Starts the cache and the store. A store that is ready already was started elsewhere. -/
def start : Stateful Service Unit := do
  let s ← get
  if s.cache.isSome then GrantCache.start
  if s.readiness.isReady entitlementType then tell .entitlements else startStore
  let s ← get
  log .info logger "Permissions service started"
    [("entity_types", .texts s.entities.names), ("grant_cache", .bool s.cache.isSome)]

def stop : Stateful Service Unit := do
  stopStore
  if (← get).cache.isSome then GrantCache.stop
  log .info logger "Permissions service stopped" []

def health (s : Service) (store : Option (Program Bool)) : Program Health := do
  let stored ← match store with
    | some p => some <$> p
    | none => pure none
  let cached ← match s.cache with
    | some _ => do
      let answers ← GrantCache.healthy
      pure (some (answers, ← perform .statistics))
    | none => pure none
  return ⟨s.name, s.entitlements.backlog.phase, stored, cached⟩

/-- The health of another service over the same database. That one is not started, but what it
declares waits for the tables all the same. -/
def healthOfAnother : Stateful Service Health := do
  let s ← get
  let (outcome, other) ← (setUp { name := s.name, policy := ⟨{}, hasFlag⟩ } : Program _)
  let _ ← Stateful.ofExcept outcome
  set { s with readiness := s.readiness.listen entitlementType (.other other.entitlements) }
  other.health (some Sql.healthy)

end Service

end AccessControl
