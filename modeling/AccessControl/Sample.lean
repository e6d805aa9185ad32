import AccessControl.Service

/-!
Sample data: entity types and entitlements to try a service with.
-/

namespace AccessControl.Sample

def entities : List (String × List String) :=
  [("testEntity", ["id", "name", "age", "email"]),
   ("instrument", ["id", "symbol", "name", "exchange", "currency"]),
   ("curve", ["id", "name", "points", "commodity"])]

def entitlements : List Entitlements.Definition :=
  [{ name := .text "read-age"
     description := "Read the age of test entities"
     group := "tests"
     appliesTo := ["testEntity"]
     permissions := [.text "testEntity:read:age"] },
   { name := .text "create-test-entity"
     description := "Create test entities"
     group := "tests"
     appliesTo := ["testEntity"]
     permissions := [.text "testEntity:create"] },
   { name := .text "everything"
     description := "Coarse grant of everything it applies to"
     group := "tests"
     permissions := [.text wildcard] },
   { name := .text "nothing"
     description := "Declared without rules"
     group := "tests"
     appliesTo := ["testEntity"] },
   { name := .text "curve-analyst"
     description := "Read curves and export them"
     group := "analytics"
     appliesTo := ["curve"]
     permissions := [.text "curve:read", .text "curve:delete"]
     features := ["export"]
     defaultFeatureScopes := [wildcard] }]

def provide : Stateful Service Unit := do
  entities.forM fun (name, fields) => do
    let _ ← Service.addEntity (Entity.ofNames name fields)
  entitlements.forM fun d => do
    let _ ← Service.onEntitlements (Entitlements.declare d)

end AccessControl.Sample
