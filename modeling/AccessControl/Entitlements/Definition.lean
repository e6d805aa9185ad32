import AccessControl.Capability
import AccessControl.Program
import AccessControl.Text.Order

/-!
Definitions of entitlements, and the rows that they become.
-/

namespace AccessControl.Entitlements

/-- A definition as it is given. Neither its name nor its permissions need be texts. -/
structure Definition where
  name : Value
  description : String
  group : String
  appliesTo : List String := []
  permissions : List Value := []
  features : List String := []
  defaultFeatureScopes : List String := []

def isNameChar (c : Char) : Bool :=
  ('a' ≤ c && c ≤ 'z') || ('0' ≤ c && c ≤ '9') || c == '-'

/-- A name is a line of lower-case letters, digits and hyphens; a line feed may end it. -/
def isName (s : List Char) : Bool :=
  let line := if s.getLast? = some '\n' then s.dropLast else s
  !line.isEmpty && line.all isNameChar

namespace Definition

def logger : String := "permissions.catalog"

def name? (d : Definition) : Except Error String :=
  match d.name with
  | .text s => if isName s.toList then .ok s else .error (.invalidEntitlementName s)
  | v => .error (.invalidEntitlementName v.display)

def rules (d : Definition) : Except Error (List Permission.Rule) :=
  Permission.rules d.permissions

/-- The permissions that can never grant anything, since their entity types are outside the
limit. -/
def inert (d : Definition) (rules : List Permission.Rule) : List String :=
  if d.appliesTo.isEmpty then []
  else
    (d.permissions.zip rules).filterMap fun (raw, r) =>
      if r.entityType = wildcard ∨ r.entityType ∈ d.appliesTo then none else raw.text?

def check (d : Definition) : Except Error (String × List Permission.Rule) := do
  let name ← d.name?
  return (name, ← d.rules)

def row (d : Definition) (id name : String) (now : Instant) : Entitlement where
  id := id
  name := name
  group := d.group
  description := d.description
  appliesTo := Text.distinct d.appliesTo
  permissions := d.permissions
  features := d.features
  defaultFeatureScopes := d.defaultFeatureScopes
  createdAt := now
  updatedAt := now

def warnInert (d : Definition) (name : String) (rules : List Permission.Rule) : Program Unit :=
  match d.inert rules with
  | [] => return
  | raws =>
    Program.log .warning logger "Entitlement rules reference entity types outside applies_to"
      [("entitlement", .text name), ("rules", .texts raws)]

def entitlement (d : Definition) : Program Entitlement := do
  let (name, rules) ← Program.ofExcept d.check
  d.warnInert name rules
  let id ← Program.perform .mint
  return d.row id name (← Program.perform .now)

/-- A definition from a value. What is wrong is told in the order in which a definition is checked:
the name, the lists that are needed for the rules, the rules, and the other lists. -/
def ofValue (v : Value) : Except Error Definition := do
  let list (name : String) : Value := (v.field? name).getD (.list [])
  let d : Definition :=
    { name := v.get "name"
      description := v.getCarried "description"
      group := v.getCarried "group" }
  let _ ← d.name?
  let permissions ← (list "permissions").parts
  let appliesTo ← (list "applies_to").carryMembers
  let _ ← Permission.rules permissions
  let features ← (list "features").carryParts
  let defaultFeatureScopes ← (list "default_feature_scopes").carryParts
  return { d with appliesTo, permissions, features, defaultFeatureScopes }

end Definition

end AccessControl.Entitlements
