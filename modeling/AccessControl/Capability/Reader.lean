import AccessControl.Capability
import AccessControl.Request.Reader

/-!
Questions to rules and capabilities from values. What is looked for in a set must be able to be a
member of one.
-/

namespace AccessControl

structure Question where
  entityType : String
  action : String
  property : Option Value
  fields : Option (List String)

namespace Question

def ofValue (v : Value) : Except Error Question := do
  return {
    entityType := v.getCarried "entity_type"
    action := v.getCarried "action"
    property := if v.get "prop" = .null then none else some (v.get "prop")
    fields := ← match v.get "fields" with
      | .null => pure none
      | fields => some <$> fields.carryMembers }

def answer (q : Question)
    (allows : String → String → Option String → Option (List String) → Bool) :
    Except Error Bool := do
  if allows q.entityType q.action none none && q.fields.any (!·.isEmpty) then
    q.property.forM fun p => do let _ ← p.member
  return allows q.entityType q.action (q.property.map Value.carry) q.fields

end Question

def Permission.Rule.answer (r : Permission.Rule) (v : Value) : Except Error Bool := do
  (← Question.ofValue v).answer r.allows

namespace Capability

def answer (c : Capability) (v : Value) : Except Error Bool := do
  let entityType (v : Value) : Except Error Unit := do
    if !c.entityTypes.isEmpty then let _ ← (v.get "entity_type").member
  match v.getCarried "q" with
  | "test" =>
    let q ← Question.ofValue v
    entityType v
    q.answer c.allows
  | "applies_to" =>
    entityType v
    return c.concerns (v.getCarried "entity_type")
  | "create" =>
    entityType v
    return c.allowsCreation (v.getCarried "entity_type")
  | "feature" => c.unlocks (v.get "feature") (v.get "scope")
  | _ =>
    let record ← Record.ofValue (v.get "record")
    if ← record.hasTag (v.getCarried "target") then entityType (v.get "record")
    c.allowsOn (v.getCarried "target") record (v.getCarried "action")

def examined (c : Capability) (questions : List Value) : Except Error Value := do
  return .object [("permission", .object c.fields),
    ("answers", .list ((← questions.mapM c.answer).map .bool))]

end Capability

end AccessControl
