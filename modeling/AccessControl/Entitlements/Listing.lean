import AccessControl.Program
import AccessControl.Text.Quoted
import AccessControl.Value.Order

/-!
The generated list of all entitlement names, groups and features.
-/

namespace AccessControl.Entitlements.Listing

def header : String := "# Generated by service_permissions.app.catalog; do not edit.\n"

def alternatives (literals : List String) : String :=
  if literals.isEmpty then "str"
  else "Literal[\n" ++ String.join (literals.map fun v => "    " ++ v ++ ",\n") ++ "]"

def text (names groups features : List String) : String :=
  header ++ "\nfrom typing import Literal\n\n" ++
    "EntitlementName = " ++ alternatives names ++ "\n\n" ++
    "EntitlementGroup = " ++ alternatives groups ++ "\n\n" ++
    "Feature = " ++ alternatives features ++ "\n"

def names (es : List Entitlement) : List String := Text.members (es.map Entitlement.name)

def groups (es : List Entitlement) : List String := Text.members (es.map Entitlement.group)

def features (es : List Entitlement) : List String := Text.members (es.flatMap Entitlement.features)

def render (es : List Entitlement) : String :=
  text ((names es).map Text.quoted) ((groups es).map Text.quoted) ((features es).map Text.quoted)

def ofValues (es : List Value) : Except Error String := do
  let literals (vs : List Value) : Except Error (List String) := do
    return (← Value.sortedMembers vs).map Value.literal
  let features ← es.mapM fun e => (e.get "features").parts
  return text (← literals (es.map (·.get "name"))) (← literals (es.map (·.get "group")))
    (← literals features.flatten)

open Program

def logger : String := "permissions.catalog.artifact"

/-- Publishes the list. Others may go on meanwhile. A failure is logged only. -/
def write (path : String) (es : List Entitlement) : Program Unit := do
  let published ← perform (.publish (render es))
  perform .pause
  if published then
    log .debug logger "Entitlement types written" [("path", .text path)]
  else
    log .error logger "Failed to write entitlement types" [("path", .text path)]

end AccessControl.Entitlements.Listing
