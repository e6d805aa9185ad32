import AccessControl.Store.Tables
import AccessControl.Value.Carried

/-!
Rows as objects with a field to every column. How the columns are read is a parameter: the cache and
the database know rows that others have written, and an application may give rows that do not fit.
-/

namespace AccessControl

namespace Columns

structure Reading where
  text : Value → Except Error String
  texts : Value → Except Error (List String)
  values : Value → Except Error (List Value)
  time : Value → Except Error Instant

def Reading.strict (time? : Value → Option Instant) : Reading where
  text v := v.text?.elim (.error .misfit) .ok
  texts v := v.texts?.elim (.error .misfit) .ok
  values v := v.list?.elim (.error .misfit) .ok
  time v := (time? v).elim (.error .misfit) .ok

def Reading.ofParts : Reading where
  text v := .ok v.carry
  texts := Value.carryParts
  values := Value.parts
  time := Instant.ofValue

def Reading.ofAll : Reading where
  text v := .ok v.carry
  texts v := .ok v.carryItems
  values v := .ok v.carryList
  time := Instant.ofValue

def times : List String := ["created_at", "updated_at"]

def checkTimes (v : Value) : Except Error Unit :=
  let rows := v.list?.getD [v]
  rows.forM fun row => times.forM fun name => do
    if let some w := row.field? name then
      let _ ← Instant.ofValue w

def optional {α : Type} (read? : Value → Option α) (default : α) (v : Value) (name : String) :
    Option α :=
  match v.field? name with
  | none => some default
  | some w => read? w

def rows? {ρ : Type} (read? : Value → Option ρ) : Value → Option (List ρ)
  | .list items => items.mapM read?
  | _ => none

end Columns

class Tabular (ρ : Type) where
  columns : List String
  defaults : Value → Value.Fields
  read : Columns.Reading → Value → Except Error ρ
  fields : (Instant → Value) → ρ → Value.Fields

instance : Tabular Role where
  columns := ["id", "name", "description", "created_at", "updated_at"]
  defaults now := [("description", .text ""), ("created_at", now), ("updated_at", now)]
  read r v := do
    return {
      id := ← r.text (← v.demand "id")
      name := ← r.text (← v.demand "name")
      description := ← r.text (← v.demand "description")
      createdAt := ← r.time (← v.demand "created_at")
      updatedAt := ← r.time (← v.demand "updated_at") }
  fields time r :=
    [("id", .text r.id), ("name", .text r.name), ("description", .text r.description),
     ("created_at", time r.createdAt), ("updated_at", time r.updatedAt)]

instance : Tabular Membership where
  columns := ["id", "role", "account", "created_at"]
  defaults now := [("created_at", now)]
  read r v := do
    return {
      id := ← r.text (← v.demand "id")
      role := ← r.text (← v.demand "role")
      account := ← r.text (← v.demand "account")
      createdAt := ← r.time (← v.demand "created_at") }
  fields time m :=
    [("id", .text m.id), ("role", .text m.role), ("account", .text m.account),
     ("created_at", time m.createdAt)]

instance : Tabular Entitlement where
  columns :=
    ["id", "name", "group", "description", "applies_to", "permissions", "features",
     "default_feature_scopes", "created_at", "updated_at"]
  defaults now :=
    [("description", .text ""), ("applies_to", .list []), ("permissions", .list []),
     ("features", .list []), ("default_feature_scopes", .list []), ("created_at", now),
     ("updated_at", now)]
  read r v := do
    return {
      id := ← r.text (← v.demand "id")
      name := ← r.text (← v.demand "name")
      group := ← r.text (← v.demand "group")
      description := ← r.text (← v.demand "description")
      appliesTo := ← r.texts (← v.demand "applies_to")
      permissions := ← r.values (← v.demand "permissions")
      features := ← r.texts (← v.demand "features")
      defaultFeatureScopes := ← r.texts (← v.demand "default_feature_scopes")
      createdAt := ← r.time (← v.demand "created_at")
      updatedAt := ← r.time (← v.demand "updated_at") }
  fields time e :=
    [("id", .text e.id), ("name", .text e.name), ("group", .text e.group),
     ("description", .text e.description), ("applies_to", .texts e.appliesTo),
     ("permissions", .list e.permissions), ("features", .texts e.features),
     ("default_feature_scopes", .texts e.defaultFeatureScopes), ("created_at", time e.createdAt),
     ("updated_at", time e.updatedAt)]

instance : Tabular RoleRuleset where
  columns :=
    ["id", "role", "entitlement", "target_attribute", "name", "description", "feature_scopes",
     "created_at"]
  defaults now :=
    [("name", .text ""), ("description", .text ""), ("feature_scopes", .list []),
     ("created_at", now)]
  read r v := do
    return {
      id := ← r.text (← v.demand "id")
      role := ← r.text (← v.demand "role")
      entitlement := ← r.text (← v.demand "entitlement")
      target := ← r.text (← v.demand "target_attribute")
      name := ← r.text (← v.demand "name")
      description := ← r.text (← v.demand "description")
      featureScopes := ← r.texts (← v.demand "feature_scopes")
      createdAt := ← r.time (← v.demand "created_at") }
  fields time r :=
    [("id", .text r.id), ("role", .text r.role), ("entitlement", .text r.entitlement),
     ("target_attribute", .text r.target), ("name", .text r.name),
     ("description", .text r.description), ("feature_scopes", .texts r.featureScopes),
     ("created_at", time r.createdAt)]

instance : Tabular AccountRuleset where
  columns := ["id", "account", "entitlement", "target_attribute", "feature_scopes", "created_at"]
  defaults now := [("feature_scopes", .list []), ("created_at", now)]
  read r v := do
    return {
      id := ← r.text (← v.demand "id")
      account := ← r.text (← v.demand "account")
      entitlement := ← r.text (← v.demand "entitlement")
      target := ← r.text (← v.demand "target_attribute")
      featureScopes := ← r.texts (← v.demand "feature_scopes")
      createdAt := ← r.time (← v.demand "created_at") }
  fields time r :=
    [("id", .text r.id), ("account", .text r.account), ("entitlement", .text r.entitlement),
     ("target_attribute", .text r.target), ("feature_scopes", .texts r.featureScopes),
     ("created_at", time r.createdAt)]

namespace Tabular

variable {ρ : Type} [Tabular ρ]

def value (time : Instant → Value) (row : ρ) : Value := .object (fields time row)

/-- A row as it is given, with the defaults of the columns that are not. It has no field that is not
a column. -/
def complete (ρ : Type) [Tabular ρ] (now v : Value) : Except Error Value :=
  let row := v.withDefaults (defaults ρ now)
  if v.kind = .object ∧ row.fields.length = (columns ρ).length ∧
      (columns ρ).all fun name => (row.field? name).isSome then
    .ok (.object ((columns ρ).map fun name => (name, row.get name)))
  else .error .misfit

def ofGiven (now : Instant) (v : Value) : Except Error ρ := do
  Columns.checkTimes v
  read .ofAll (← complete ρ (.int now.seconds) v)

/-- Reads a row that others have written. Columns with a default may be missing, and fields that are
no columns are passed over. -/
def ofWritten? (time? : Value → Option Instant) (now : Instant → Value) (clock : Instant)
    (v : Value) : Option ρ :=
  (read (.strict time?) (v.withDefaults (defaults ρ (now clock)))).toOption

end Tabular

def Store.Tables.fields (time : Instant → Value) (t : Store.Tables) : Value.Fields :=
  let rows {ρ : Type} [Keyed ρ] [Tabular ρ] (t : Table ρ) : Value :=
    .list (t.rows.map (Tabular.value time))
  [("roles", rows t.roles), ("memberships", rows t.memberships),
   ("entitlements", rows t.entitlements), ("role_rulesets", rows t.roleRulesets),
   ("account_rulesets", rows t.accountRulesets)]

end AccessControl
