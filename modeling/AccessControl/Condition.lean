import AccessControl.Override
import AccessControl.Value.Carried

/-!
A small language for the conditions of overrides.
-/

namespace AccessControl

inductive Condition where
  | value (v : Value)
  | account (id : Value)
  | username (name : Value)
  | admin
  | noRecord
  | field (name : String)
  | owner (field : String)
  | recordId (v : Value)
  | tag (v : Value)
  | payload (name : String)
  | not (c : Condition)
  | all (cs : List Condition)
  | fail (e : Error)

namespace Condition

mutual

def eval (f : Facts) : Condition → Except Error Value
  | .value v => .ok v
  | .account id => .ok (.bool (f.account.any fun a => (Value.restoreText a.id).same id))
  | .username name =>
    .ok (.bool (f.account.any fun a => (Value.restoreText a.username).same name))
  | .admin => .ok (.bool (f.account.any (·.isAdmin)))
  | .noRecord => .ok (.bool f.record.isNone)
  | .field name => .ok ((f.record.map (·.data.valueOf name)).getD .null)
  | .owner name =>
    .ok (.bool (match f.record, f.account with
      | some r, some a => (r.data.valueOf name).same (Value.restoreText a.id)
      | _, _ => false))
  | .recordId v => .ok (.bool (f.record.any fun r => r.id.same v))
  | .tag v => match f.request with
    | some r => do return .bool (← r.attributes.holdsTag v)
    | none => .ok (.bool false)
  | .payload name =>
    .ok ((f.request.map (·.payload.valueOf name)).getD (.bool false))
  | .not c => do
    let v ← eval f c
    return .bool !v.truthy
  | .all cs => evalAll f cs
  | .fail e => .error e

/-- Conditions behind the first that does not hold are not evaluated. -/
def evalAll (f : Facts) : List Condition → Except Error Value
  | [] => .ok (.bool true)
  | c :: cs => do
    if (← eval f c).truthy then evalAll f cs else return .bool false

end

def predicate (c : Condition) (pauses : Bool) : Predicate where
  holds f := do return (← c.eval f).truthy
  pauses

end Condition

end AccessControl
