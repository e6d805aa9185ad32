import AccessControl.Error
import AccessControl.Stateful
import AccessControl.Value.Carried
import AccessControl.Value.Order

/-!
Entity types and the fields of their schemas.
-/

namespace AccessControl

structure Entity where
  name : String
  fields : List String
deriving DecidableEq

namespace Entity

/-- The schema of an entity type. A name is not empty and holds no colon. -/
def ofNames (name : String) (fields : List String) : Except Error Entity :=
  if name = "" ∨ ':' ∈ name.toList then .error (.invalidEntityType (.text name))
  else .ok ⟨name, Text.members fields⟩

def ofValues (name fields : Value) : Except Error Entity := do
  if !name.truthy then .error (.invalidEntityType name)
  else if ← name.holds (.text ":") then .error (.invalidEntityType name)
  else
    let fields ← fields.parts
    let name ← name.member
    return ⟨name.carry, (← Value.sortedMembers fields).map Value.carry⟩

end Entity

/-- The known entity types, each once, in order of first registration. -/
structure Entities where
  entities : List Entity := []
deriving DecidableEq

namespace Entities

def get? (es : Entities) (name : String) : Option Entity :=
  es.entities.find? (·.name = name)

def require (es : Entities) (name : String) : Except Error Entity :=
  match es.get? name with
  | some e => .ok e
  | none => .error (.unknownEntityType name)

def has (es : Entities) (name : String) : Bool :=
  (es.get? name).isSome

def fieldsOf (es : Entities) (name : String) : List String :=
  ((es.get? name).map Entity.fields).getD []

def names (es : Entities) : List String :=
  Text.sorted (es.entities.map Entity.name)

def put (e : Entity) : List Entity → List Entity
  | [] => [e]
  | f :: rest => if f.name = e.name then e :: rest else f :: put e rest

def register (schema : Except Error Entity) : Stateful Entities Entity := do
  let e ← Stateful.ofExcept schema
  modify fun es => ⟨put e es.entities⟩
  Program.log .debug "permissions.entities" "Entity type registered"
    [("entity_type", .text e.name), ("fields", .texts e.fields)]
  return e

end Entities

end AccessControl
