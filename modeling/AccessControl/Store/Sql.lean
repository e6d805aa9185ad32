import AccessControl.Program
import AccessControl.Store.Columns
import AccessControl.Text.Blank
import AccessControl.Text.Integer

/-!
A store in a relational database. Every call uses one connection; a cascade is one transaction.
-/

namespace AccessControl.Store.Sql

open Program Database

def schema : List String :=
  ["CREATE TABLE IF NOT EXISTS role ( id VARCHAR(255) PRIMARY KEY, name TEXT NOT NULL, " ++
    "description TEXT NOT NULL DEFAULT '', " ++
    "created_at TIMESTAMP WITH TIME ZONE NOT NULL DEFAULT NOW(), " ++
    "updated_at TIMESTAMP WITH TIME ZONE NOT NULL DEFAULT NOW() );",
   "CREATE TABLE IF NOT EXISTS role_account ( id VARCHAR(255) PRIMARY KEY, " ++
    "role VARCHAR(255) NOT NULL, account VARCHAR(255) NOT NULL, " ++
    "created_at TIMESTAMP WITH TIME ZONE NOT NULL DEFAULT NOW(), UNIQUE (role, account) );",
   "CREATE TABLE IF NOT EXISTS entitlements ( id VARCHAR(255) PRIMARY KEY, " ++
    "name VARCHAR(255) NOT NULL UNIQUE, description TEXT NOT NULL DEFAULT '', " ++
    "\"group\" TEXT NOT NULL, applies_to TEXT[] NOT NULL DEFAULT '\x7b\x7d', " ++
    "permissions TEXT[] NOT NULL DEFAULT '\x7b\x7d', " ++
    "features TEXT[] NOT NULL DEFAULT '\x7b\x7d', " ++
    "default_feature_scopes TEXT[] NOT NULL DEFAULT '\x7b\x7d', " ++
    "created_at TIMESTAMP WITH TIME ZONE NOT NULL DEFAULT NOW(), " ++
    "updated_at TIMESTAMP WITH TIME ZONE NOT NULL DEFAULT NOW() );",
   "CREATE TABLE IF NOT EXISTS role_rulesets ( id VARCHAR(255) PRIMARY KEY, " ++
    "role VARCHAR(255) NOT NULL, entitlement VARCHAR(255) NOT NULL, " ++
    "target_attribute TEXT NOT NULL, name TEXT NOT NULL DEFAULT '', " ++
    "description TEXT NOT NULL DEFAULT '', feature_scopes TEXT[] NOT NULL DEFAULT '\x7b\x7d', " ++
    "created_at TIMESTAMP WITH TIME ZONE NOT NULL DEFAULT NOW(), " ++
    "UNIQUE (role, entitlement, target_attribute) );",
   "CREATE TABLE IF NOT EXISTS account_rulesets ( id VARCHAR(255) PRIMARY KEY, " ++
    "account VARCHAR(255) NOT NULL, entitlement VARCHAR(255) NOT NULL, " ++
    "target_attribute TEXT NOT NULL, feature_scopes TEXT[] NOT NULL DEFAULT '\x7b\x7d', " ++
    "created_at TIMESTAMP WITH TIME ZONE NOT NULL DEFAULT NOW(), " ++
    "UNIQUE (account, entitlement, target_attribute) );",
   "CREATE INDEX IF NOT EXISTS idx_role_account_account ON role_account(account);",
   "CREATE INDEX IF NOT EXISTS idx_role_rulesets_role ON role_rulesets(role);",
   "CREATE INDEX IF NOT EXISTS idx_account_rulesets_account ON account_rulesets(account);"]

/-- The number of rows that a tag tells, as in `DELETE 3`; zero when it tells none. Only a text is a
tag. -/
def count : Value → Program Int
  | .text tag => return (Text.int? (Text.lastWord tag.toList)).getD 0
  | v => fail (.misuse (.lacks v.kind "split"))

def deletedOne (tag : Value) : Bool := tag.text? = some "DELETE 1"

def execute (sql : String) (arguments : List Value) : Program Value := do
  ofExcept (← perform (.database (.execute ⟨sql, arguments⟩)))

def connected {α : Type} (p : Program α) : Program α := do
  ofExcept (← perform (.database .acquire))
  let outcome ← p.attempt
  perform (.database .release)
  ofExcept outcome

def transaction {α : Type} (p : Program α) : Program α := do
  perform (.database .begin)
  match ← p.attempt with
  | .ok a =>
    perform (.database .commit)
    return a
  | .error e =>
    perform (.database .rollback)
    fail e

def run (sql : String) (arguments : List Value) : Program Value :=
  connected (execute sql arguments)

def row {ρ : Type} [Tabular ρ] (v : Value) : Except Error ρ := Tabular.read .ofParts v

def rows {ρ : Type} [Tabular ρ] (sql : String) (arguments : List Value) : Program (List ρ) := do
  let v ← connected do ofExcept (← perform (.database (.rows ⟨sql, arguments⟩)))
  ofExcept (v.parts.bind (·.mapM row))

def row? {ρ : Type} [Tabular ρ] (sql : String) (arguments : List Value) :
    Program (Option ρ) := do
  let v ← connected do ofExcept (← perform (.database (.row ⟨sql, arguments⟩)))
  if v.truthy then return some (← ofExcept (row v)) else return none

def pattern (key : String) : String := "%" ++ key ++ "%"

def optionalText (s : Option String) : Value := .ofOption .text s

/-- The database keeps times in seconds. -/
def time (t : Instant) : Value := .int t.seconds

def putRole (r : Role) : Program Role := do
  let _ ← run
    ("INSERT INTO role (id, name, description, created_at, updated_at) " ++
      "VALUES ($1, $2, $3, $4, $5) ON CONFLICT (id) DO UPDATE SET name = EXCLUDED.name, " ++
      "description = EXCLUDED.description, updated_at = EXCLUDED.updated_at")
    [.text r.id, .text r.name, .text r.description, time r.createdAt, time r.updatedAt]
  return r

def putMembership (m : Membership) : Program Membership := do
  let _ ← run
    ("INSERT INTO role_account (id, role, account, created_at) VALUES ($1, $2, $3, $4) " ++
      "ON CONFLICT (role, account) DO NOTHING")
    [.text m.id, .text m.role, .text m.account, time m.createdAt]
  return m

def putEntitlement (e : Entitlement) : Program Entitlement := do
  let _ ← run
    ("INSERT INTO entitlements ( id, name, description, \"group\", applies_to, permissions, " ++
      "features, default_feature_scopes, created_at, updated_at ) " ++
      "VALUES ($1, $2, $3, $4, $5, $6, $7, $8, $9, $10) ON CONFLICT (name) DO UPDATE SET " ++
      "description = EXCLUDED.description, \"group\" = EXCLUDED.\"group\", " ++
      "applies_to = EXCLUDED.applies_to, permissions = EXCLUDED.permissions, " ++
      "features = EXCLUDED.features, " ++
      "default_feature_scopes = EXCLUDED.default_feature_scopes, " ++
      "updated_at = EXCLUDED.updated_at")
    [.text e.id, .text e.name, .text e.description, .text e.group, .texts e.appliesTo,
     .list e.permissions, .texts e.features, .texts e.defaultFeatureScopes, time e.createdAt,
     time e.updatedAt]
  return e

def putRoleRuleset (r : RoleRuleset) : Program RoleRuleset := do
  let _ ← run
    ("INSERT INTO role_rulesets ( id, role, entitlement, target_attribute, name, description, " ++
      "feature_scopes, created_at ) VALUES ($1, $2, $3, $4, $5, $6, $7, $8)")
    [.text r.id, .text r.role, .text r.entitlement, .text r.target, .text r.name,
     .text r.description, .texts r.featureScopes, time r.createdAt]
  return r

def putAccountRuleset (r : AccountRuleset) : Program AccountRuleset := do
  let _ ← run
    ("INSERT INTO account_rulesets ( id, account, entitlement, target_attribute, " ++
      "feature_scopes, created_at ) VALUES ($1, $2, $3, $4, $5, $6)")
    [.text r.id, .text r.account, .text r.entitlement, .text r.target, .texts r.featureScopes,
     time r.createdAt]
  return r

def rolesLike (key : String) (offset limit : Value) : Program (List Role) :=
  rows "SELECT * FROM role WHERE name ILIKE $1 ORDER BY name OFFSET $2 LIMIT $3"
    [.text (pattern key), offset, limit]

def rulesetsOfRoles (roles : List String) : Program (List RoleRuleset) :=
  if roles.isEmpty then return []
  else
    rows "SELECT * FROM role_rulesets WHERE role = ANY($1::varchar[])" [.texts roles]

def call : (c : Call) → Program c.Reply
  | .enter _ => return
  | .putRole role => putRole role
  | .role id => row? "SELECT * FROM role WHERE id = $1" [.text id]
  | .dropRole id => do
    return deletedOne (← run "DELETE FROM role WHERE id = $1" [.text id])
  | .rolesLike key offset limit => rolesLike key (.int offset) (.int limit)
  | .rolesOf account =>
    rows
      "SELECT r.* FROM role r INNER JOIN role_account ra ON ra.role = r.id WHERE ra.account = $1"
      [.text account]
  | .putMembership membership => putMembership membership
  | .membership role account =>
    row? "SELECT * FROM role_account WHERE role = $1 AND account = $2 LIMIT 1"
      [.text role, .text account]
  | .dropMembership id => do
    return deletedOne (← run "DELETE FROM role_account WHERE id = $1" [.text id])
  | .membersOf role => rows "SELECT * FROM role_account WHERE role = $1" [.text role]
  | .dropMemberships role account => do
    count (← run
      ("DELETE FROM role_account WHERE ($1::varchar IS NULL OR role = $1) " ++
        "AND ($2::varchar IS NULL OR account = $2)")
      [optionalText role, optionalText account])
  | .entitlement name => row? "SELECT * FROM entitlements WHERE name = $1" [.text name]
  | .entitlements => rows "SELECT * FROM entitlements ORDER BY name" []
  | .putEntitlement entitlement => putEntitlement entitlement
  | .putRoleRuleset ruleset => putRoleRuleset ruleset
  | .roleRuleset role entitlement target =>
    row?
      ("SELECT * FROM role_rulesets " ++
        "WHERE role = $1 AND entitlement = $2 AND target_attribute = $3")
      [.text role, .text entitlement, .text target]
  | .dropRoleRuleset id => do
    return deletedOne (← run "DELETE FROM role_rulesets WHERE id = $1" [.text id])
  | .dropRulesetsOfRole role => do
    count (← run "DELETE FROM role_rulesets WHERE role = $1" [.text role])
  | .rulesetsOfRoles roles => rulesetsOfRoles roles
  | .rulesetsThroughRoles account =>
    rows
      ("SELECT rr.* FROM role_rulesets rr INNER JOIN role r ON rr.role = r.id " ++
        "INNER JOIN role_account ra ON ra.role = r.id WHERE ra.account = $1")
      [.text account]
  | .putAccountRuleset ruleset => putAccountRuleset ruleset
  | .accountRuleset account entitlement target =>
    row?
      ("SELECT * FROM account_rulesets " ++
        "WHERE account = $1 AND entitlement = $2 AND target_attribute = $3")
      [.text account, .text entitlement, .text target]
  | .dropAccountRuleset id => do
    return deletedOne (← run "DELETE FROM account_rulesets WHERE id = $1" [.text id])
  | .dropRulesetsOfAccount account => do
    count (← run "DELETE FROM account_rulesets WHERE account = $1" [.text account])
  | .rulesetsOfAccount account =>
    rows "SELECT * FROM account_rulesets WHERE account = $1" [.text account]

/-- Sends the calls of the store in a program to the database. -/
def redirect {α : Type} : Program α → Program α
  | .done a => .done a
  | .fail e => .fail e
  | .ask (.store c) next => (call c).attempt.bind fun r => redirect (next r)
  | .ask e next => .ask e fun r => redirect (next r)

def removeRole (role : String) : Program Bool :=
  connected <| transaction do
    let _ ← execute "DELETE FROM role_rulesets WHERE role = $1" [.text role]
    let _ ← execute "DELETE FROM role_account WHERE role = $1" [.text role]
    return deletedOne (← execute "DELETE FROM role WHERE id = $1" [.text role])

def removeAccount (account : String) : Program (Int × Int) := do
  let (memberships, rulesets) ← connected <| transaction do
    let memberships ← execute "DELETE FROM role_account WHERE account = $1" [.text account]
    let rulesets ← execute "DELETE FROM account_rulesets WHERE account = $1" [.text account]
    return (memberships, rulesets)
  return (← count memberships, ← count rulesets)

def isBreakdown : Error → Bool
  | .outside .system _ | .outside .database _ => true
  | _ => false

def healthy : Program Bool := do
  let probe := connected do ofExcept (← perform (.database (.value ⟨"SELECT 1", []⟩)))
  match ← probe.attempt with
  | .ok _ => return true
  | .error e => if isBreakdown e then return false else fail e

def logger : String := "permissions.storage.postgres"

structure Pool where
  name : String
  least : Int := 2
  most : Int := 10

def connect (s : Pool) : Program Unit := do
  let steps : Program Unit := do
    ofExcept (← perform (.database (.connect s.name s.least s.most)))
    connected (transaction (schema.forM fun sql => do
      let _ ← execute sql []))
  match ← steps.attempt with
  | .ok () => log .info logger "PostgreSQL persistence started" []
  | .error e =>
    if isBreakdown e then
      log .error logger "Failed to start PostgreSQL persistence" [("error", .text e.message)]
      fail (.databaseNotStarted e.message)
    else fail e

def stop : Program Unit := do
  if ← perform (.database .close) then log .info logger "PostgreSQL persistence stopped" []

end AccessControl.Store.Sql
