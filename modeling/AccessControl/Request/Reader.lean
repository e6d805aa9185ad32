import AccessControl.Request
import AccessControl.Value.Carried

/-!
Accounts, records and requests from values.
-/

namespace AccessControl

def Account.ofValue? : Value → Except Error (Option Account)
  | .null => .ok none
  | .text s => .ok (some ⟨s, s, false⟩)
  | v => do
    return some ⟨(← v.demand "id").carry, v.getCarried "username", (v.get "is_admin").truthy⟩

def Account.ofValue (v : Value) : Except Error Account := do
  (← Account.ofValue? v).elim (.error (.misuse (.lacks .null "id"))) .ok

def Record.ofValue? : Value → Except Error (Option Record)
  | .null => .ok none
  | v => do
    return some ⟨(← v.demand "entity_type").carry, v.getFields "data",
      ((v.field? "attributes").getD (.list [])).carryTags⟩

def Record.ofValue (v : Value) : Except Error Record := do
  (← Record.ofValue? v).elim (.error (.misuse (.lacks .null "entity_type"))) .ok

def Request.ofValue (v : Value) : Except Error Request := do
  return {
    account := ← Account.ofValue? (v.get "account")
    action := (← v.demand "action").carry
    entityType := (← v.demand "entity_type").carry
    record := ← Record.ofValue? (v.get "record")
    attributes := ((v.field? "attributes").getD (.list [])).carryTags
    payload := v.getFields "payload" }

end AccessControl
