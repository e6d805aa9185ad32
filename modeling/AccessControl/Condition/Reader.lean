import AccessControl.Condition
import AccessControl.Value.Carried

/-!
Conditions and overrides from values. A condition is an object whose only field names its kind; any
other value is its own condition.
-/

namespace AccessControl

namespace Condition

def ofParts (v : Value) : Condition :=
  match v.parts with
  | .ok vs => .all (vs.map .value)
  | .error e => .fail e

mutual

def ofValue : Value → Condition
  | .object (("value", v) :: _) => .value v
  | .object (("account", v) :: _) => .account v
  | .object (("username", v) :: _) => .username v
  | .object (("admin", _) :: _) => .admin
  | .object (("no_record", _) :: _) => .noRecord
  | .object (("field", v) :: _) => .field v.carry
  | .object (("owner", v) :: _) => .owner v.carry
  | .object (("record_id", v) :: _) => .recordId v
  | .object (("tag", v) :: _) => .tag v
  | .object (("payload", v) :: _) => .payload v.carry
  | .object (("not", v) :: _) => .not (ofValue v)
  | .object (("all", .list vs) :: _) => .all (ofValues vs)
  | .object (("all", v) :: _) => ofParts v
  | .object (("raise", v) :: _) => .fail (.outside .application v.display)
  | .object _ => .value .null
  | v => .value v

def ofValues : List Value → List Condition
  | [] => []
  | v :: vs => ofValue v :: ofValues vs

end

end Condition

def Predicate.ofField? (v : Value) (name pausing : String) : Option Predicate :=
  match v.get name with
  | .null => none
  | c => some ((Condition.ofValue c).predicate (v.get pausing).truthy)

def Override.ofValue (v : Value) : Except Error Override := do
  return {
    kind := ← (Override.Kind.all.find? (·.name = v.getCarried "kind")).elim
      (.error .unknownMethod) .ok
    action := v.getCarried "action"
    entityType := v.getCarried "entity_type"
    condition := (Predicate.ofField? v "if" "async").getD Override.always
    exceptions := (v.getItems "except").map fun c =>
      (Condition.ofValue c).predicate (v.get "async").truthy }

end AccessControl
